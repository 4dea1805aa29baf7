import Mathlib.Data.Nat.Notation
import Mathlib.Logic.Function.Iterate

/-!
# Sessions

A component is called again and again, and between two calls its
surroundings go their own way. A session is any such order of calls and
moves. Its results are those of a function run on an abstract state if the
two are in a simulation: a move leaves the abstract state as it is, and a
call returns and does what the function does, as long as the function is
where it is meant to be called.
-/

namespace Checklib

namespace Common

variable {σ ρ α : Type*}

/-- **A session** from a state: what the calls returned, and the state
after. -/
inductive Session (move : σ → σ → Prop) (call : σ → ρ → σ → Prop) (s : σ) : List ρ → σ → Prop
  | start : Session move call s [] s
  | moved {out : List ρ} {t u : σ} : Session move call s out t → move t u →
      Session move call s out u
  | called {out : List ρ} {t u : σ} {r : ρ} : Session move call s out t → call t r u →
      Session move call s (out ++ [r]) u

/-- The abstract state after `n` calls. -/
def after (f : α → ρ × α) (n : ℕ) (a : α) : α := (fun a => (f a).2)^[n] a

/-- What `n` calls return. -/
def results (f : α → ρ × α) (n : ℕ) (a : α) : List ρ :=
  (List.range n).map fun i => (f (after f i a)).1

variable {f : α → ρ × α} {move : σ → σ → Prop} {call : σ → ρ → σ → Prop} {R : σ → α → Prop}
  {domain : α → Prop} {s t : σ} {a : α} {out : List ρ}

theorem after_succ (n : ℕ) : after f (n + 1) a = (f (after f n a)).2 :=
  Function.iterate_succ_apply' _ n a

theorem results_succ (n : ℕ) : results f (n + 1) a = results f n a ++ [(f (after f n a)).1] := by
  simp only [results, List.range_succ, List.map_append, List.map_cons, List.map_nil]

/-- **The simulation** of a function by a component. -/
structure Simulation (R : σ → α → Prop) (domain : α → Prop) (f : α → ρ × α)
    (move : σ → σ → Prop) (call : σ → ρ → σ → Prop) : Prop where
  moved : ∀ {s t a}, R s a → move s t → R t a
  called : ∀ {s t a r}, R s a → domain a → call s r t → r = (f a).1 ∧ R t (f a).2

/-- **A session returns what the function does**, and leaves the component
in the state the function is in, by induction on the session. -/
theorem Session.refines (h : Simulation R domain f move call) (hs : R s a)
    (hsession : Session move call s out t) (hdomain : ∀ i < out.length, domain (after f i a)) :
    out = results f out.length a ∧ R t (after f out.length a) := by
  induction hsession with
  | start => exact ⟨rfl, hs⟩
  | moved _ hmove ih =>
    obtain ⟨hout, hR⟩ := ih hdomain
    exact ⟨hout, h.moved hR hmove⟩
  | @called out _ _ _ _ hcall ih =>
    rw [List.length_append, List.length_singleton] at hdomain ⊢
    obtain ⟨hout, hR⟩ := ih fun i hi => hdomain i (Nat.lt_succ_of_lt hi)
    obtain ⟨hr, hR⟩ := h.called hR (hdomain _ (Nat.lt_succ_self _)) hcall
    rw [results_succ, after_succ, ← hout, hr]
    exact ⟨rfl, hR⟩

end Common

end Checklib
