import Mathlib.Data.Nat.Notation

/-!
# Loops

A loop is its body, run until the body gives a result. As the body need
never give one, a run is allowed a number of turns and is `stuck` after
them. The rule for a loop is that of total correctness: an invariant that
every turn keeps, and a variant that every turn lowers, so that any number
of turns above the variant is enough.
-/

namespace Checklib

namespace Common

variable {ε σ τ : Type*}

/-- **A loop**, whose body goes on with a state or ends with a result. -/
def loop (stuck : ε) (body : σ → Except ε (σ ⊕ τ)) : ℕ → σ → Except ε τ
  | 0, _ => .error stuck
  | turns + 1, s =>
    match body s with
    | .error e => .error e
    | .ok (.inl s') => loop stuck body turns s'
    | .ok (.inr t) => .ok t

section Turn

variable {stuck : ε} {body : σ → Except ε (σ ⊕ τ)} {s : σ} (turns : ℕ)

theorem loop_of_next {s' : σ} (h : body s = .ok (.inl s')) :
    loop stuck body (turns + 1) s = loop stuck body turns s' := by
  rw [loop, h]

theorem loop_of_done {t : τ} (h : body s = .ok (.inr t)) :
    loop stuck body (turns + 1) s = .ok t := by
  rw [loop, h]

theorem loop_of_error {e : ε} (h : body s = .error e) :
    loop stuck body (turns + 1) s = .error e := by
  rw [loop, h]

/-- More turns change nothing in a loop that has ended. -/
theorem loop_mono {n m : ℕ} {t : τ} (h : loop stuck body n s = .ok t) (hle : n ≤ m) :
    loop stuck body m s = .ok t := by
  induction n generalizing m s with
  | zero => cases h
  | succ n ih =>
    obtain ⟨m, rfl⟩ := Nat.exists_eq_add_of_le' hle
    cases hbody : body s with
    | error e => cases (loop_of_error n hbody).symm.trans h
    | ok o =>
      cases o with
      | inl s' =>
        rw [loop_of_next _ hbody] at h
        rw [← Nat.add_assoc, loop_of_next _ hbody]
        exact ih h (Nat.le_add_left n m)
      | inr t' =>
        rw [loop_of_done _ hbody] at h
        rw [← Nat.add_assoc, loop_of_done _ hbody, h]

end Turn

/-- `n` turns of the loop lead from one state to another. -/
def Leads (stuck : ε) (body : σ → Except ε (σ ⊕ τ)) (n : ℕ) (s s' : σ) : Prop :=
  ∀ turns, loop stuck body (turns + n) s = loop stuck body turns s'

section Leads

variable {stuck : ε} {body : σ → Except ε (σ ⊕ τ)} {s s' s'' : σ}

theorem leads_of_next (h : body s = .ok (.inl s')) : Leads stuck body 1 s s' :=
  fun turns => loop_of_next turns h

theorem Leads.trans {n k : ℕ} (h : Leads stuck body n s s') (h' : Leads stuck body k s' s'') :
    Leads stuck body (n + k) s s'' := by
  intro turns
  rw [Nat.add_comm n k, ← Nat.add_assoc, h, h']

end Leads

/-- **What a turn does**: it goes on, with the invariant kept and the
variant lowered, or it ends with what the loop is for. The variant need not
be read off the state. -/
def Turns (body : σ → Except ε (σ ⊕ τ)) (I : ℕ → σ → Prop) (Q : τ → Prop) : Prop :=
  ∀ k s, I k s →
    (∃ s' k', body s = .ok (.inl s') ∧ k' < k ∧ I k' s') ∨
    ∃ t, body s = .ok (.inr t) ∧ Q t

/-- **A loop ends** within any number of turns above its variant, and with
what it is for. -/
theorem loop_ok {stuck : ε} {body : σ → Except ε (σ ⊕ τ)} {I : ℕ → σ → Prop} {Q : τ → Prop}
    (hturns : Turns body I Q) {turns k : ℕ} {s : σ} (hs : I k s) (henough : k < turns) :
    ∃ t, loop stuck body turns s = .ok t ∧ Q t := by
  induction turns generalizing k s with
  | zero => omega
  | succ turns ih =>
    rcases hturns k s hs with ⟨s', k', hbody, hlower, hs'⟩ | ⟨t, hbody, ht⟩
    · rw [loop_of_next turns hbody]
      exact ih hs' (by omega)
    · rw [loop_of_done turns hbody]
      exact ⟨t, rfl, ht⟩

end Common

end Checklib
