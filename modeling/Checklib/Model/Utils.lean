import Mathlib.Data.Nat.Notation
import Mathlib.Order.Lattice

/-!
# `utils.py`

`merge_sorted` is a generator over two iterators, each with one element of
lookahead whose key doubles as the mark that it is there. `MergeState` is
what it holds between two turns of its loop, `turn` one turn, and
`drain` the loop, which ends because a turn that yields consumes.
`GitPath` reads a path of the specification against the repository or the
test's directory.
-/

namespace Checklib

/-! ## `merge_sorted` -/

section Merge

variable {α β κ : Type*}

/-- **The generator's state.** `l` and `r` are the elements read and not
yet yielded; `none` is the source's `kl = None` and `kr = None`. -/
structure MergeState (α β : Type*) where
  it1 : List α
  it2 : List β
  l : Option α
  r : Option β

/-- How a turn ends: with the rest of the output, or with one row and the
next state. -/
inductive Turn (α β : Type*) where
  | done (out : List (Option α × Option β))
  | yield (out : Option α × Option β) (s : MergeState α β)

/-- The pending element, or the iterator's next one; `none` is
`StopIteration`. -/
def pull : Option α → List α → Option (α × List α)
  | some a, it => some (a, it)
  | none, a :: it => some (a, it)
  | none, [] => none

variable [LinearOrder κ] (keyL : α → κ) (keyR : β → κ)

/-- **One turn of the loop.** The right side is refilled first, and only
its exhaustion can find an element pending on the left. -/
def turn (s : MergeState α β) : Turn α β :=
  match pull s.r s.it2 with
  | none => .done ((s.l.toList ++ s.it1).map fun l => (some l, none))
  | some (r, it2) =>
    match pull s.l s.it1 with
    | none => .done ((none, some r) :: it2.map fun r => (none, some r))
    | some (l, it1) =>
      if keyL l = keyR r then .yield (some l, some r) ⟨it1, it2, none, none⟩
      else if keyL l < keyR r then .yield (some l, none) ⟨it1, it2, none, some r⟩
      else .yield (none, some r) ⟨it1, it2, some l, none⟩

/-- What is left to yield on each side, the pending element first. -/
def MergeState.left (s : MergeState α β) : List α := s.l.toList ++ s.it1

@[inherit_doc MergeState.left]
def MergeState.right (s : MergeState α β) : List β := s.r.toList ++ s.it2

/-- The number of elements not yet yielded. -/
def MergeState.work (s : MergeState α β) : ℕ := s.left.length + s.right.length

theorem pull_eq_none {p : Option α} {it : List α} :
    pull p it = none ↔ p.toList ++ it = [] := by
  cases p <;> cases it <;> simp [pull]

theorem pull_eq_some {p : Option α} {it it' : List α} {a : α} :
    pull p it = some (a, it') ↔ p.toList ++ it = a :: it' := by
  cases p <;> cases it <;> simp [pull]

/-- **What a turn can do.** It ends with one side's rest where the other
has none, or yields the smaller head, or both heads where the keys agree,
and leaves exactly the rest. -/
theorem turn_cases (s : MergeState α β) :
    (s.right = [] ∧ turn keyL keyR s = .done (s.left.map fun l => (some l, none))) ∨
    (s.left = [] ∧ turn keyL keyR s = .done (s.right.map fun r => (none, some r))) ∨
    ∃ l as r bs, s.left = l :: as ∧ s.right = r :: bs ∧
      ((keyL l = keyR r ∧
        turn keyL keyR s = .yield (some l, some r) ⟨as, bs, none, none⟩) ∨
      (keyL l < keyR r ∧
        turn keyL keyR s = .yield (some l, none) ⟨as, bs, none, some r⟩) ∨
      (keyR r < keyL l ∧
        turn keyL keyR s = .yield (none, some r) ⟨as, bs, some l, none⟩)) := by
  rcases hr : pull s.r s.it2 with - | ⟨r, bs⟩
  · exact .inl ⟨pull_eq_none.1 hr, by simp only [turn, hr]; rfl⟩
  have hright : s.right = r :: bs := pull_eq_some.1 hr
  rcases hl : pull s.l s.it1 with - | ⟨l, as⟩
  · refine .inr (.inl ⟨pull_eq_none.1 hl, ?_⟩)
    simp only [turn, hr, hl, hright, List.map_cons]
  have hleft : s.left = l :: as := pull_eq_some.1 hl
  refine .inr (.inr ⟨l, as, r, bs, hleft, hright, ?_⟩)
  rcases lt_trichotomy (keyL l) (keyR r) with hlt | heq | hgt
  · exact .inr (.inl ⟨hlt, by simp only [turn, hr, hl, if_neg hlt.ne, if_pos hlt]⟩)
  · exact .inl ⟨heq, by simp only [turn, hr, hl, if_pos heq]⟩
  · exact .inr (.inr ⟨hgt, by simp only [turn, hr, hl, if_neg hgt.ne', if_neg hgt.not_gt]⟩)

/-- **A turn that yields consumes.** -/
theorem work_lt_of_turn {s s' : MergeState α β} {o : Option α × Option β}
    (h : turn keyL keyR s = .yield o s') : s'.work < s.work := by
  rcases turn_cases keyL keyR s with ⟨-, ht⟩ | ⟨-, ht⟩ | ⟨l, as, r, bs, hl, hr, hcase⟩
  · exact absurd (h.symm.trans ht) (by simp)
  · exact absurd (h.symm.trans ht) (by simp)
  · rcases hcase with ⟨-, ht⟩ | ⟨-, ht⟩ | ⟨-, ht⟩ <;>
    · obtain ⟨-, rfl⟩ := Turn.yield.inj (h.symm.trans ht)
      simp only [MergeState.work, hl, hr, List.length_cons]
      simp only [MergeState.left, MergeState.right, Option.toList, List.length_append,
        List.length_cons, List.length_nil]
      omega

/-- **The loop**, from any state. -/
def drain (s : MergeState α β) : List (Option α × Option β) :=
  match _h : turn keyL keyR s with
  | .done out => out
  | .yield o s' => o :: drain s'
termination_by s.work
decreasing_by exact work_lt_of_turn keyL keyR _h

/-- **`merge_sorted(it1, it2, key)`**, as the list of what it yields. `key`
is an attribute access, so it is one function on each side's type. -/
def mergeSorted (it1 : List α) (it2 : List β) : List (Option α × Option β) :=
  drain keyL keyR ⟨it1, it2, none, none⟩

end Merge

/-! ## `GitPath` -/

/-- A pathlib path: whether it starts at the root, and its components. -/
structure Path where
  absolute : Bool
  parts : List (List Char)
  deriving DecidableEq, Repr

/-- The text between slashes. -/
def splitSlash : List Char → List (List Char)
  | [] => [[]]
  | c :: cs =>
    match splitSlash cs with
    | part :: parts => if c = '/' then [] :: part :: parts else (c :: part) :: parts
    | [] => [[c]]

namespace Path

/-- `Path(s)`: empty components and single dots are dropped. -/
def ofString (s : String) : Path where
  absolute := s.toList.head? == some '/'
  parts := (splitSlash s.toList).filter fun part => part ≠ [] ∧ part ≠ ['.']

/-- `a / b`: an absolute right operand replaces the left. -/
def join (a b : Path) : Path :=
  if b.absolute then b else { a with parts := a.parts ++ b.parts }

/-- `p.relative_to(p.anchor)`, for an absolute `p`. -/
def relativeToAnchor (p : Path) : Path := { p with absolute := false }

/-- `p.name`: the last component, or nothing. -/
def name (p : Path) : List Char := p.parts.getLastD []

/-- `p.suffix`: from the name's last dot on, unless the dot is at either
end of the name. -/
def suffix (p : Path) : List Char :=
  let tail := p.name.reverse.takeWhile (· ≠ '.')
  if tail.length + 1 < p.name.length ∧ tail ≠ [] then
    p.name.drop (p.name.length - tail.length - 1)
  else []

/-- `p.with_suffix(suffix)`, which asks for a dot and something after it,
no slash, and a name to put it on. -/
def withSuffix (p : Path) (suffix : List Char) : Option Path :=
  if '/' ∈ suffix ∨ (suffix ≠ [] ∧ suffix.head? ≠ some '.') ∨ suffix = ['.'] ∨ p.name = [] then none
  else
    let stem := p.name.take (p.name.length - p.suffix.length)
    some { p with parts := p.parts.dropLast ++ [stem ++ suffix] }

end Path

/-- The module's two globals. -/
structure PathBase where
  /-- `ROOT_PATH` -/
  rootPath : Path
  /-- `HACKY_RELPATH` -/
  hackyRelpath : Option Path

/-- **`GitPath(path)`**, on a string: an absolute path is taken from the
repository's root, a relative one from the test's directory where one is
set. -/
def gitPath (base : PathBase) (path : String) : Path :=
  let path := Path.ofString path
  if path.absolute then base.rootPath.join path.relativeToAnchor
  else match base.hackyRelpath with
    | some hacky => hacky.join path
    | none => path

end Checklib
