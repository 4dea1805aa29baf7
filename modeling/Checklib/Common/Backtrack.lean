import Mathlib.Data.List.Basic

/-!
# A backtracking matcher

A regular expression engine that explores alternatives depth first is a
function of the input and of what is to be matched after: `star p k` runs
over characters in `p` as far as it can and falls back one character at a
time until the continuation `k` succeeds. `star_of_longest` says which
split it settles on, and `star_eq_none_iff` when it finds none.
-/

namespace Checklib

namespace Common

variable {σ γ : Type*}

namespace Backtrack

/-- One character in `p`, then `k`. -/
def one (p : σ → Bool) (k : List σ → Option γ) : List σ → Option γ
  | [] => none
  | c :: cs => if p c then k cs else none

/-- At most one character in `p`, preferring one, then `k`. -/
def opt (p : σ → Bool) (k : List σ → Option γ) : List σ → Option γ
  | [] => k []
  | c :: cs => if p c then (k cs).or (k (c :: cs)) else k (c :: cs)

/-- Any number of characters in `p`, preferring more, then `k`. -/
def star (p : σ → Bool) (k : List σ → Option γ) : List σ → Option γ
  | [] => k []
  | c :: cs => if p c then (star p k cs).or (k (c :: cs)) else k (c :: cs)

/-- At least one character in `p`, preferring more, then `k`. -/
def plus (p : σ → Bool) (k : List σ → Option γ) : List σ → Option γ := one p (star p k)

/-- Exactly `n` characters in `p`, handed to what follows as a group. -/
def group (p : σ → Bool) : ℕ → (List σ → List σ → Option γ) → List σ → Option γ
  | 0, k, cs => k [] cs
  | _ + 1, _, [] => none
  | n + 1, k, c :: cs => if p c then group p n (fun g => k (c :: g)) cs else none

variable {p : σ → Bool} {k : List σ → Option γ} {cs : List σ} {v : γ}

theorem one_eq_some_iff : one p k cs = some v ↔ ∃ c t, cs = c :: t ∧ p c ∧ k t = some v := by
  cases cs with
  | nil => simp [one]
  | cons c t => by_cases h : p c <;> simp [one, h]

/-- **A run fails** only when every way to end it does. -/
theorem star_eq_none_iff :
    star p k cs = none ↔
      ∀ run rest, cs = run ++ rest → (∀ c ∈ run, p c) → k rest = none := by
  induction cs with
  | nil =>
    constructor
    · intro h run rest he _
      rw [(List.append_eq_nil_iff.1 he.symm).2]
      exact h
    · exact fun h => h [] [] rfl (by simp)
  | cons c cs ih =>
    constructor
    · intro h run rest he hrun
      -- a run that ends at once, or the same run one character on
      cases run with
      | nil =>
        obtain rfl : c :: cs = rest := he
        by_cases hc : p c
        · rw [star, if_pos hc] at h
          exact (Option.or_eq_none_iff.1 h).2
        · rwa [star, if_neg hc] at h
      | cons d run =>
        obtain ⟨rfl, rfl⟩ := List.cons.inj he
        have hc : p c := hrun c List.mem_cons_self
        rw [star, if_pos hc] at h
        exact ih.1 (Option.or_eq_none_iff.1 h).1 run rest rfl fun d hd =>
          hrun d (List.mem_cons_of_mem _ hd)
    · intro h
      have hk : k (c :: cs) = none := h [] (c :: cs) rfl (by simp)
      by_cases hc : p c
      · rw [star, if_pos hc]
        refine Option.or_eq_none_iff.2 ⟨ih.2 fun run rest he hrun => ?_, hk⟩
        have hrun' : ∀ d ∈ c :: run, p d := List.forall_mem_cons.2 ⟨hc, hrun⟩
        exact h (c :: run) rest (by rw [he, List.cons_append]) hrun'
      · rw [star, if_neg hc, hk]

/-- **A run settles on the longest way to end it** that what follows
accepts. -/
theorem star_of_longest {run rest : List σ} (hrun : ∀ c ∈ run, p c) (hk : k rest = some v)
    (hlong : ∀ run' rest', run ++ rest = run' ++ rest' → (∀ c ∈ run', p c) →
      run.length < run'.length → k rest' = none) :
    star p k (run ++ rest) = some v := by
  induction run with
  | nil =>
    cases rest with
    | nil => exact hk
    | cons c cs =>
      by_cases hc : p c
      · -- the run could go on, but no longer one ends well
        have hnone : star p k cs = none := by
          refine star_eq_none_iff.2 fun run' rest' he hrun' => ?_
          have hrun'' : ∀ d ∈ c :: run', p d := List.forall_mem_cons.2 ⟨hc, hrun'⟩
          exact hlong (c :: run') rest' (by simp [he]) hrun'' (by simp)
        rw [List.nil_append, star, if_pos hc, hnone]
        exact hk
      · rw [List.nil_append, star, if_neg hc, hk]
  | cons c run ih =>
    have hc : p c := hrun c List.mem_cons_self
    have hsome : star p k (run ++ rest) = some v := by
      refine ih (fun d hd => hrun d (List.mem_cons_of_mem _ hd)) fun run' rest' he hrun' hlt => ?_
      have hrun'' : ∀ d ∈ c :: run', p d := List.forall_mem_cons.2 ⟨hc, hrun'⟩
      exact hlong (c :: run') rest' (by simp [he]) hrun'' (by simpa using hlt)
    rw [List.cons_append, star, if_pos hc, hsome]
    rfl

/-- Nothing longer than no run at all does, if what follows fails after
every run that takes the next character. -/
theorem none_of_nonempty {c : σ} {run rest : List σ} (h : p c → star p k cs = none)
    (he : c :: cs = run ++ rest) (hrun : ∀ d ∈ run, p d) (hlt : 0 < run.length) :
    k rest = none := by
  cases run with
  | nil => exact absurd hlt (Nat.lt_irrefl _)
  | cons d run =>
    obtain ⟨rfl, rfl⟩ := List.cons.inj he
    obtain ⟨hc, hrun⟩ := List.forall_mem_cons.1 hrun
    exact star_eq_none_iff.1 (h hc) run rest rfl hrun

/-- **Where a run ended**, no longer run would have done. -/
theorem exists_of_star_eq_some (h : star p k cs = some v) :
    ∃ run rest, cs = run ++ rest ∧ (∀ c ∈ run, p c) ∧ k rest = some v ∧
      ∀ run' rest', cs = run' ++ rest' → (∀ c ∈ run', p c) → run.length < run'.length →
        k rest' = none := by
  induction cs with
  | nil =>
    refine ⟨[], [], rfl, List.forall_mem_nil _, h, fun run' rest' he _ hlt => ?_⟩
    rw [(List.append_eq_nil_iff.1 he.symm).1] at hlt
    exact absurd hlt (Nat.lt_irrefl _)
  | cons c cs ih =>
    by_cases hc : p c
    · rw [star, if_pos hc] at h
      rcases hs : star p k cs with - | w
      · -- one character on nothing would do, so the run is empty
        rw [hs] at h
        exact ⟨[], c :: cs, rfl, List.forall_mem_nil _, h, fun _ _ => none_of_nonempty fun _ => hs⟩
      · rw [hs] at h
        obtain rfl : w = v := Option.some.inj h
        obtain ⟨run, rest, rfl, hrun, hk, hlong⟩ := ih hs
        refine ⟨c :: run, rest, rfl, List.forall_mem_cons.2 ⟨hc, hrun⟩, hk, ?_⟩
        intro run' rest' he hrun' hlt
        cases run' with
        | nil => exact absurd hlt (Nat.not_lt_zero _)
        | cons d run' =>
          obtain ⟨-, he⟩ := List.cons.inj he
          exact hlong run' rest' he (List.forall_mem_cons.1 hrun').2 (Nat.lt_of_succ_lt_succ hlt)
    · -- the run cannot start
      rw [star, if_neg hc] at h
      exact ⟨[], c :: cs, rfl, List.forall_mem_nil _, h,
        fun _ _ => none_of_nonempty fun hc' => absurd hc' hc⟩

/-- **A run before a separator that does not recur** stops at it, whatever
else the run could have taken. -/
theorem star_of_sep {x : σ} {run tail : List σ} (hrun : ∀ c ∈ run, p c)
    (hk : k (x :: tail) = some v) (hsep : ∀ rest w, k rest = some w → ∃ t, rest = x :: t)
    (hx : x ∉ tail) : star p k (run ++ x :: tail) = some v := by
  refine star_of_longest hrun hk fun run' rest' he _ hlt => ?_
  by_contra hne
  obtain ⟨w, hw⟩ := Option.ne_none_iff_exists'.1 hne
  obtain ⟨t, rfl⟩ := hsep rest' w hw
  -- a longer run ends inside the tail, where no separator stands
  rcases List.append_eq_append_iff.1 he with ⟨m, rfl, hm⟩ | ⟨m, rfl, -⟩
  · cases m with
    | nil => simp at hlt
    | cons y m =>
      obtain ⟨-, rfl⟩ := List.cons.inj hm
      exact hx (by simp)
  · rw [List.length_append] at hlt
    omega

/-- **A group is the characters it took.** -/
theorem group_eq_some_iff {n : ℕ} {k : List σ → List σ → Option γ} :
    group p n k cs = some v ↔
      ∃ g rest, cs = g ++ rest ∧ g.length = n ∧ (∀ c ∈ g, p c) ∧ k g rest = some v := by
  -- what follows changes with each character taken, so it is general
  induction n generalizing cs k with
  | zero =>
    constructor
    · exact fun h => ⟨[], cs, rfl, rfl, by simp, h⟩
    · rintro ⟨g, rest, rfl, hg, -, hk⟩
      obtain rfl := List.length_eq_zero_iff.1 hg
      exact hk
  | succ n ih =>
    cases cs with
    | nil => simp [group]
    | cons c cs =>
      by_cases hc : p c
      · rw [group, if_pos hc, ih]
        constructor
        · rintro ⟨g, rest, rfl, hg, hp, hk⟩
          exact ⟨c :: g, rest, rfl, by simp [hg], by simpa [hc] using hp, hk⟩
        · rintro ⟨g, rest, he, hg, hp, hk⟩
          cases g with
          | nil => simp at hg
          | cons d g =>
            obtain ⟨rfl, rfl⟩ := List.cons.inj he
            exact ⟨g, rest, rfl, by simpa using hg, fun e he => hp e (List.mem_cons_of_mem _ he),
              hk⟩
      · rw [group, if_neg hc]
        refine ⟨by simp, ?_⟩
        rintro ⟨g, rest, he, hg, hp, -⟩
        cases g with
        | nil => simp at hg
        | cons d g =>
          obtain ⟨rfl, -⟩ := List.cons.inj he
          exact absurd (hp c List.mem_cons_self) hc

end Backtrack

end Common

end Checklib
