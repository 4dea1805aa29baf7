import Mathlib.Data.Nat.Notation

/-!
# Computations that can fail and keep their state

An exception ends a computation and undoes nothing: what was done before
it stays done. A `Trial` is such a computation. Two things are said of one
here: what it leaves alone whatever its outcome (`Leaves`), and that it
gives what a computation without a state gives (`Simulates`). Each has a
rule for every way trials are put together.
-/

namespace Checklib

namespace Common

/-- **A computation over a state**, which an exception leaves as it is. -/
abbrev Trial (ε σ α : Type) := ExceptT ε (StateM σ) α

namespace Trial

variable {ε σ α β γ δ : Type}

/-- The outcome, and the state left. -/
def on (m : Trial ε σ α) (s : σ) : Except ε α × σ := m.run.run s

/-- An outcome that needs no state. -/
def outcome (x : Except ε α) : Trial ε σ α := ExceptT.mk (pure x)

/-- `try`, with the exception as a value. -/
def attempt (m : Trial ε σ α) : Trial ε σ (Except ε α) :=
  ExceptT.mk fun s => let (x, s') := m.on s; (.ok x, s')

theorem on_outcome (x : Except ε α) (s : σ) : (outcome x).on s = (x, s) := rfl

theorem outcome_bind (x : Except ε α) (f : α → Except ε β) :
    (outcome (x >>= f) : Trial ε σ β) = outcome x >>= fun a => outcome (f a) := by
  cases x <;> rfl

theorem on_attempt (m : Trial ε σ α) (s : σ) :
    m.attempt.on s = (.ok (m.on s).1, (m.on s).2) := rfl

theorem on_bind (m : Trial ε σ α) (f : α → Trial ε σ β) (s : σ) :
    (m >>= f).on s = match m.on s with
      | (.ok a, s') => (f a).on s'
      | (.error e, s') => (.error e, s') := by
  show (ExceptT.bindCont f (m.on s).1).run (m.on s).2 = _
  rcases m.on s with ⟨a | e, s'⟩ <;> rfl

theorem on_bind_of_ok {m : Trial ε σ α} {f : α → Trial ε σ β} {s : σ} {a : α}
    (h : (m.on s).1 = .ok a) : (m >>= f).on s = (f a).on (m.on s).2 := by
  rw [on_bind]
  rcases hout : m.on s with ⟨x, s'⟩
  rw [hout] at h
  obtain rfl : x = .ok a := h
  rfl

theorem on_bind_of_error {m : Trial ε σ α} {f : α → Trial ε σ β} {s : σ} {e : ε}
    (h : (m.on s).1 = .error e) : (m >>= f).on s = (.error e, (m.on s).2) := by
  rw [on_bind]
  rcases hout : m.on s with ⟨x, s'⟩
  rw [hout] at h
  obtain rfl : x = .error e := h
  rfl

theorem on_outcome_bind {x : Except ε α} {f : α → Trial ε σ β} {a : α} (h : x = .ok a) (s : σ) :
    (outcome x >>= f).on s = (f a).on s := by
  rw [h]
  rfl

theorem on_get_bind {f : σ → Trial ε σ α} (s : σ) : (get >>= f).on s = (f s).on s := rfl

theorem on_bind_of_on {m : Trial ε σ α} {f : α → Trial ε σ β} {s s' : σ} {a : α}
    (h : m.on s = (.ok a, s')) : (m >>= f).on s = (f a).on s' := by
  rw [on_bind_of_ok (congrArg Prod.fst h), h]

/-- A sequence that succeeded, taken apart. -/
theorem bind_on_eq_ok {m : Trial ε σ α} {f : α → Trial ε σ β} {s : σ} {b : β}
    (h : ((m >>= f).on s).1 = .ok b) :
    ∃ a, (m.on s).1 = .ok a ∧ ((f a).on (m.on s).2).1 = .ok b := by
  cases hout : (m.on s).1 with
  | error e =>
    rw [on_bind_of_error hout] at h
    cases h
  | ok a =>
    rw [on_bind_of_ok hout] at h
    exact ⟨a, rfl, h⟩

/-! ## What is left alone -/

section Leaves

variable {r : σ → γ} {m : Trial ε σ α} {f : α → Trial ε σ β}

/-- **Whatever its outcome**, the trial leaves what `r` reads of the state
as it was. -/
def Leaves (r : σ → γ) (m : Trial ε σ α) : Prop := ∀ s, r (m.on s).2 = r s

theorem leaves_pure (a : α) : Leaves r (pure a : Trial ε σ α) := fun _ => rfl

theorem leaves_throw (e : ε) : Leaves r (throw e : Trial ε σ α) := fun _ => rfl

theorem leaves_outcome (x : Except ε α) : Leaves r (outcome x) := fun _ => rfl

theorem leaves_get : Leaves r (get : Trial ε σ σ) := fun _ => rfl

theorem leaves_modify {f : σ → σ} (h : ∀ s, r (f s) = r s) :
    Leaves r (modify f : Trial ε σ PUnit) := h

theorem Leaves.attempt (h : Leaves r m) : Leaves r m.attempt := h

/-- What follows may use what the first step can give. -/
theorem Leaves.bind_of_ok (hm : Leaves r m) (hf : ∀ s a, (m.on s).1 = .ok a → Leaves r (f a)) :
    Leaves r (m >>= f) := by
  intro s
  cases hout : (m.on s).1 with
  | error e => rw [on_bind_of_error hout, hm s]
  | ok a => rw [on_bind_of_ok hout, hf s a hout, hm s]

theorem Leaves.bind (hm : Leaves r m) (hf : ∀ a, Leaves r (f a)) : Leaves r (m >>= f) :=
  hm.bind_of_ok fun _ a _ => hf a

theorem leaves_outcome_bind {x : Except ε α} (h : ∀ a, x = .ok a → Leaves r (f a)) :
    Leaves r (outcome x >>= f) :=
  (leaves_outcome x).bind_of_ok fun _ a ha => h a ha

/-- A loop leaves what its body leaves. -/
theorem Leaves.forM {l : List α} {f : α → Trial ε σ PUnit} (hf : ∀ a ∈ l, Leaves r (f a)) :
    Leaves r (l.forM f) := by
  induction l with
  | nil => exact leaves_pure _
  | cons a l ih =>
    refine (hf a List.mem_cons_self).bind fun _ => ih fun a' ha' => ?_
    exact hf a' (List.mem_cons_of_mem a ha')

end Leaves

/-! ## What is simulated -/

/-- **A trial simulates a computation without a state**: started where `P`
holds, both succeed, with results and a state that `Q` relates, or both
raise the same, and the state left has `E`. -/
def Simulates (P : σ → Prop) (m : Trial ε σ α) (p : Except ε β) (Q : α → β → σ → Prop)
    (E : σ → Prop) : Prop :=
  ∀ s, P s → (∃ a b, (m.on s).1 = .ok a ∧ p = .ok b ∧ Q a b (m.on s).2) ∨
    ∃ e, (m.on s).1 = .error e ∧ p = .error e ∧ E (m.on s).2

section Simulates

variable {P P' : σ → Prop} {Q Q' : α → β → σ → Prop} {E E' : σ → Prop}
variable {R : γ → δ → σ → Prop} {m : Trial ε σ α} {p : Except ε β}

theorem Simulates.weaken (h : Simulates P m p Q E) (hP : ∀ s, P' s → P s)
    (hQ : ∀ a b s, Q a b s → Q' a b s) (hE : ∀ s, E s → E' s) : Simulates P' m p Q' E' := by
  intro s hs
  rcases h s (hP s hs) with ⟨a, b, hm, hp, hq⟩ | ⟨e, hm, hp, he⟩
  · exact .inl ⟨a, b, hm, hp, hQ a b _ hq⟩
  · exact .inr ⟨e, hm, hp, hE _ he⟩

theorem simulates_pure {a : α} {b : β} (h : ∀ s, P s → Q a b s) :
    Simulates P (pure a : Trial ε σ α) (.ok b) Q E :=
  fun s hs => .inl ⟨a, b, rfl, rfl, h s hs⟩

theorem simulates_throw {e : ε} (h : ∀ s, P s → E s) :
    Simulates P (throw e : Trial ε σ α) (.error e) Q E :=
  fun s hs => .inr ⟨e, rfl, rfl, h s hs⟩

/-- **What needs no state** simulates itself. -/
theorem simulates_outcome {x : Except ε β} :
    Simulates P (outcome x) x (fun b b' s => b = b' ∧ P s) P := by
  cases x with
  | ok b => exact fun s hs => .inl ⟨b, b, rfl, rfl, rfl, hs⟩
  | error e => exact fun s hs => .inr ⟨e, rfl, rfl, hs⟩

/-- And so does a sequence that begins with it. -/
theorem simulates_outcome_bind {x : Except ε γ} {f : γ → Trial ε σ α} {g : γ → Except ε β}
    (hE : ∀ s, P s → E s) (hf : ∀ c, x = .ok c → Simulates P (f c) (g c) Q E) :
    Simulates P (outcome x >>= f) (x >>= g) Q E := by
  cases x with
  | ok c => exact hf c rfl
  | error e => exact fun s hs => .inr ⟨e, rfl, rfl, hE s hs⟩

/-- And so does what comes after it, if it leaves the result. -/
theorem simulates_outcome_then {x : Except ε β} {f : β → Trial ε σ α} (hE : ∀ s, P s → E s)
    (hf : ∀ b, x = .ok b → Simulates P (f b) (.ok b) Q E) :
    Simulates P (outcome x >>= f) x Q E := by
  have hbind := simulates_outcome_bind hE hf
  rwa [show (x >>= fun b => .ok b) = x from bind_pure x] at hbind

/-- **A step of the trial's own**, whose outcome is known. -/
theorem simulates_bind_of_on {f : γ → Trial ε σ α} {m : Trial ε σ γ} {s t : σ} {c : γ}
    (hm : m.on s = (.ok c, t)) (hf : Simulates (· = t) (f c) p Q E) :
    Simulates (· = s) (m >>= f) p Q E := by
  rintro _ rfl
  rw [on_bind_of_on hm]
  exact hf t rfl

/-- One state at a time. -/
theorem Simulates.of_forall_eq (h : ∀ s, P s → Simulates (· = s) m p Q E) :
    Simulates P m p Q E := fun s hs => h s hs s rfl

/-- **A read**: what follows may use the state it found. -/
theorem simulates_get_bind {f : σ → Trial ε σ α}
    (h : ∀ s, P s → Simulates (· = s) (f s) p Q E) : Simulates P (get >>= f) p Q E :=
  fun s hs => h s hs s rfl

/-- **Two steps** against two steps. -/
theorem Simulates.bind {f : α → Trial ε σ γ} {g : β → Except ε δ} (hm : Simulates P m p Q E)
    (hf : ∀ a b, p = .ok b → Simulates (Q a b) (f a) (g b) R E) :
    Simulates P (m >>= f) (p >>= g) R E := by
  intro s hs
  rcases hm s hs with ⟨a, b, ha, hb, hq⟩ | ⟨e, ha, he, hE⟩
  · rw [on_bind_of_ok ha, hb]
    exact hf a b hb _ hq
  · rw [on_bind_of_error ha, he]
    exact .inr ⟨e, rfl, rfl, hE⟩

/-- **A guarded step**: what follows deals with either outcome. -/
theorem Simulates.attempt_bind {f : Except ε α → Trial ε σ γ} {q : Except ε δ}
    (hm : Simulates P m p Q E)
    (hok : ∀ a b, p = .ok b → Simulates (Q a b) (f (.ok a)) q R E')
    (herror : ∀ e, p = .error e → Simulates E (f (.error e)) q R E') :
    Simulates P (m.attempt >>= f) q R E' := by
  intro s hs
  rw [on_bind_of_ok (a := (m.on s).1) (by rw [on_attempt]), on_attempt]
  rcases hm s hs with ⟨a, b, ha, hb, hq⟩ | ⟨e, ha, he, hE⟩
  · rw [ha]
    exact hok a b hb _ hq
  · rw [ha]
    exact herror e he _ hE

/-- What the trial leaves alone is as it was, besides. -/
theorem Simulates.keeping {r : σ → γ} (h : Simulates P m p Q E) (hr : Leaves r m) (c : γ) :
    Simulates (fun s => P s ∧ r s = c) m p (fun a b s => Q a b s ∧ r s = c)
      (fun s => E s ∧ r s = c) := by
  rintro s ⟨hs, hc⟩
  have hleft : r (m.on s).2 = c := (hr s).trans hc
  rcases h s hs with ⟨a, b, ha, hb, hq⟩ | ⟨e, ha, he, hE⟩
  · exact .inl ⟨a, b, ha, hb, hq, hleft⟩
  · exact .inr ⟨e, ha, he, hE, hleft⟩

/-- What the simulation says of one run. -/
theorem Simulates.fst_eq {m : Trial ε σ α} {p : Except ε α}
    (h : Simulates P m p (fun a b _ => a = b) E) {s : σ} (hs : P s) : (m.on s).1 = p := by
  rcases h s hs with ⟨a, b, ha, hb, rfl⟩ | ⟨e, ha, he, -⟩
  · rw [ha, hb]
  · rw [ha, he]

/-- **A loop** against a fold: an invariant that holds of the state and of
the fold's value. -/
theorem simulates_forM {τ : Type} {I : τ → σ → Prop} {f : α → Trial ε σ PUnit}
    {g : τ → α → Except ε τ} {l : List α} {t : τ}
    (hstep : ∀ a ∈ l, ∀ t, Simulates (I t) (f a) (g t a) (fun _ t' => I t') E) :
    Simulates (I t) (l.forM f) (l.foldlM g t) (fun _ t' => I t') E := by
  induction l generalizing t with
  | nil => exact simulates_pure fun _ hs => hs
  | cons a l ih =>
    rw [List.foldlM_cons]
    refine (hstep a List.mem_cons_self t).bind fun _ t' _ => ih fun a' ha' => ?_
    exact hstep a' (List.mem_cons_of_mem a ha')

end Simulates

end Trial

end Common

end Checklib
