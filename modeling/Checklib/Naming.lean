import Checklib.Common.Pointwise
import Checklib.SectionNames
import Mathlib.Data.Nat.Digits.Lemmas

/-!
# Names as they are written

A name is written from an address in eight hexadecimal digits. Written as
the checker's own comment has it, with the digits right after a dot, it is
decoded to the address again. The task's statement has an `x` before the
digits; there the digits are not found, and what is decoded, if anything,
is the kind.
-/

namespace Checklib

open Common

variable {rt : Runtime}

/-! ## Digits -/

/-- A hexadecimal digit, in upper or lower case. -/
def hexChar (upper : Bool) (d : ℕ) : Char :=
  if d < 10 then Char.ofNat ('0'.toNat + d)
  else Char.ofNat ((if upper then 'A' else 'a').toNat + (d - 10))

/-- `f'{a:08x}'`, or `f'{a:08X}'`. -/
def format08x (upper : Bool) (a : ℕ) : List Char :=
  (Nat.digitsAppend 16 8 a).reverse.map (hexChar upper)

/-- The digits spell the address, each of them in either case. -/
def Spells (digits : List Char) (a : ℕ) : Prop :=
  List.Forall₂ (fun d c => ∃ upper, c = hexChar upper d) (Nat.digitsAppend 16 8 a).reverse digits

theorem spells_format08x (upper : Bool) (a : ℕ) : Spells (format08x upper a) a := by
  rw [Spells, format08x, List.forall₂_map_right_iff]
  exact List.forall₂_same.2 fun d _ => ⟨upper, rfl⟩

/-- A digit as written is one of the expression's, with its value. -/
theorem hexDigit_hexChar (rt : Runtime) {upper : Bool} {d : ℕ} (hd : d < 16) :
    isHexDigit rt (hexChar upper d) = true ∧ hexDigit rt (hexChar upper d) = d := by
  have hascii : (hexChar upper d).toNat < 128 := by
    revert d upper
    decide
  simp only [isHexDigit, hexDigit, rt.decimal_ascii _ hascii]
  clear hascii
  revert d upper
  decide

/-- **Eight digits and their value**: what an address is spelled with, and
what is read back. -/
theorem Spells.read (rt : Runtime) {digits : List Char} {a : ℕ} (h : Spells digits a)
    (ha : a < 2 ^ 32) :
    digits.length = 8 ∧ (∀ c ∈ digits, isHexDigit rt c) ∧ hexValue rt digits = a := by
  have hlt : ∀ d ∈ (Nat.digitsAppend 16 8 a).reverse, d < 16 := by
    intro d hd
    exact Nat.lt_of_mem_digitsAppend (by decide) 8 d (List.mem_reverse.1 hd)
  have hread := (List.forall₂_and_left _ _).2 ⟨hlt, h⟩
  have hlen := h.length_eq
  rw [List.length_reverse, Nat.length_digitsAppend (by decide) 8 ha] at hlen
  refine ⟨hlen.symm, ?_, ?_⟩
  · intro c hc
    obtain ⟨d, -, hd, upper, rfl⟩ := exists_left_of_forall₂ hread hc
    exact (hexDigit_hexChar rt hd).1
  · have hmap : (Nat.digitsAppend 16 8 a).reverse.map id = digits.map (hexDigit rt) := by
      refine map_eq_of_forall₂ (hread.imp fun d c hdc => ?_)
      obtain ⟨hd, upper, rfl⟩ := hdc
      exact (hexDigit_hexChar rt hd).2.symm
    have hfold : hexValue rt digits =
        (digits.map (hexDigit rt)).foldl (fun acc d => 16 * acc + d) 0 := by
      rw [List.foldl_map]
      rfl
    have hvalue : Nat.ofDigits 16 (Nat.digitsAppend 16 8 a) = a :=
      (Nat.setInvOn_digitsAppend_ofDigits (by decide) 8).2 (by simpa using ha)
    rw [hfold, ← hmap, List.map_id, List.foldl_reverse]
    rw [Nat.ofDigits_eq_foldr] at hvalue
    simpa [Nat.add_comm] using hvalue

/-- No dot is written among the digits. -/
theorem dot_notMem_format08x {upper : Bool} {a : ℕ} : '.' ∉ format08x upper a := by
  have hhex : ∀ c ∈ format08x upper a, isHexDigit .ascii c := by
    intro c hc
    obtain ⟨d, hd, rfl⟩ := List.mem_map.1 hc
    have hlt := Nat.lt_of_mem_digitsAppend (by decide) 8 d (List.mem_reverse.1 hd)
    exact (hexDigit_hexChar .ascii hlt).1
  exact notMem_digits isHexDigit_dot hhex

/-! ## The checker's names -/

/-- Letters, digits, underscores and dots make up a kind. -/
theorem isKindChar_of_ascii {c : Char} (h : c.isAlphanum ∨ c = '_' ∨ c = '.') :
    isKindChar rt c = true := by
  rcases h with h | rfl | rfl
  · have hascii : c.toNat < 128 := by
      have hle : ∀ last : Char, c.val ≤ last.val → last.toNat < 128 → c.toNat < 128 :=
        fun last hc hlast => lt_of_le_of_lt (UInt32.le_iff_toNat_le.1 hc) hlast
      rcases Bool.or_eq_true_iff.1 h with halpha | hdigit
      · rcases Bool.or_eq_true_iff.1 halpha with hupper | hlower
        · exact hle 'Z' (of_decide_eq_true hupper).2 (by decide)
        · exact hle 'z' (of_decide_eq_true (Bool.and_eq_true_iff.1 hlower).2) (by decide)
      · exact hle '9' (of_decide_eq_true (Bool.and_eq_true_iff.1 hdigit).2) (by decide)
    have hword : rt.isWord c = true := by
      rw [rt.isWord_ascii c hascii, h, Bool.true_or]
    simp only [isKindChar, hword, Bool.true_or]
  · have hword : rt.isWord '_' = true := rt.isWord_ascii '_' (by decide)
    simp only [isKindChar, hword, Bool.true_or]
  · simp only [isKindChar, beq_self_eq_true, Bool.or_true]

/-- **Decoding undoes encoding**: whatever dots and digits the kind holds,
and whether or not the type letter is a digit too. -/
theorem resolveSectionVaddr_of_spelled (rt : Runtime) (s : Section)
    (kind digits suffix : List Char) (a : ℕ) (why : Why) (hs : s.shAddr = 0) (ha : a < 2 ^ 32)
    (hkind : kind ≠ []) (hk : ∀ c ∈ kind, c.isAlphanum ∨ c = '_' ∨ c = '.')
    (hdigits : Spells digits a) (hsuffix : suffix = [] ∨ ∃ c, suffix = [c] ∧ c ≠ '.')
    (hname : s.name.toList = '.' :: (kind ++ '.' :: (digits ++ suffix))) :
    resolveSectionVaddr rt why s = .ok a := by
  obtain ⟨hlen, hhex, hvalue⟩ := hdigits.read rt ha
  have hdot : '.' ∉ suffix := by
    rcases hsuffix with rfl | ⟨c, rfl, hc⟩
    · exact List.not_mem_nil
    · exact fun hm => hc (List.mem_singleton.1 hm).symm
  have hchars : ∀ c ∈ kind, isKindChar rt c := by
    intro c hc
    exact isKindChar_of_ascii (hk c hc)
  have hmatch := matchName_of_format hkind hchars hlen hhex hdot
  exact (resolveSectionVaddr_eq_ok_iff hs why).2 ⟨digits, by rw [hname, hmatch], hvalue⟩

/-- A function in a section of its own, with a kind that looks like an
address and a type that looks like a digit. -/
def namedSection : Section where
  name := ".text.deadbeef.40030000b"
  shType := .SHT_PROGBITS

theorem resolveSectionVaddr_of_spelled_sample :
    resolveSectionVaddr .ascii (.vaddr 0) namedSection = .ok 0x40030000 := by
  refine resolveSectionVaddr_of_spelled .ascii namedSection "text.deadbeef".toList
    (format08x false 0x40030000) ['b'] 0x40030000 (.vaddr 0) rfl (by decide) (by decide) ?_
    (spells_format08x false _) (.inr ⟨'b', rfl, by decide⟩) (by decide)
  exact List.forall_iff_forall_mem.1 (by decide)

/-! ## The statement's names -/

/-- An `x` is not a digit. -/
theorem isHexDigit_x : isHexDigit rt 'x' = false := by
  simp only [isHexDigit, rt.decimal_ascii 'x' (by decide)]
  decide

/-- Digits before a dot are all before it. -/
theorem exists_of_append_eq_dot {digits rest before tail : List Char} (hdot : '.' ∉ digits)
    (h : digits ++ rest = before ++ '.' :: tail) : ∃ rest', before = digits ++ rest' := by
  rcases List.append_eq_append_iff.1 h with ⟨m, hm, -⟩ | ⟨m, hm, hrest⟩
  · exact ⟨m, hm⟩
  · cases m with
    | nil => exact ⟨[], by rw [hm, List.append_nil, List.append_nil]⟩
    | cons c m =>
      -- the digits would hold the dot
      obtain ⟨rfl, -⟩ := List.cons.inj hrest
      exact absurd (hm ▸ List.mem_append_right before List.mem_cons_self) hdot

/-- **Digits behind an `x` are not found**: the name opens in the format
only as its kind does. -/
theorem exists_opens_x_iff {kind tail k digits : List Char} (htail : '.' ∉ tail) :
    (∃ rest, Opens rt ('.' :: (kind ++ '.' :: 'x' :: tail)) k digits rest) ↔
      ∃ rest, Opens rt ('.' :: kind) k digits rest := by
  constructor
  · rintro ⟨rest, h⟩
    have hx : digits ++ rest ≠ 'x' :: tail := by
      obtain ⟨d, ds, rfl⟩ := List.exists_cons_of_length_eq_add_one h.digits_length
      intro heq
      obtain ⟨rfl, -⟩ := List.cons.inj heq
      exact notMem_digits isHexDigit_x h.digits_hex List.mem_cons_self
    have he := List.tail_eq_of_cons_eq h.eq
    rcases List.append_eq_append_iff.1 he with ⟨m, rfl, hm⟩ | ⟨m, rfl, hm⟩
    · -- the kind reaches the dot before the `x`
      cases m with
      | nil => exact absurd (List.cons.inj hm).2.symm hx
      | cons c m =>
        have hdot : '.' ∈ 'x' :: tail :=
          (List.cons.inj hm).2 ▸ List.mem_append_right m List.mem_cons_self
        exact absurd hdot (List.not_mem_cons_of_ne_of_not_mem (by decide) htail)
    · cases m with
      | nil => exact absurd (List.cons.inj hm).2 hx
      | cons c m =>
        obtain ⟨rfl, hdigits⟩ := List.cons.inj hm
        have hdots : '.' ∉ digits := notMem_digits isHexDigit_dot h.digits_hex
        obtain ⟨rest', rfl⟩ := exists_of_append_eq_dot hdots hdigits
        exact ⟨rest', rfl, h.kind_ne, h.kind_chars, h.digits_length, h.digits_hex⟩
  · rintro ⟨rest, h⟩
    have he := List.tail_eq_of_cons_eq h.eq
    refine ⟨rest ++ '.' :: 'x' :: tail, ?_, h.kind_ne, h.kind_chars, h.digits_length,
      h.digits_hex⟩
    rw [he]
    simp

/-- **A name of the statement is decoded to its address exactly where** the
kind opens in the format and the last such opening is the address. -/
theorem resolveSectionVaddr_statement_iff (rt : Runtime) (s : Section) (kind : List Char) (a : ℕ)
    (c : Char) (hs : s.shAddr = 0) (hc : c ≠ '.')
    (hname : s.name.toList = '.' :: (kind ++ '.' :: 'x' :: (format08x false a ++ [c]))) :
    (∀ why, resolveSectionVaddr rt why s = .ok a) ↔
      ∃ k digits rest, Opens rt ('.' :: kind) k digits rest ∧ hexValue rt digits = a ∧
        ∀ k' digits' rest', Opens rt ('.' :: kind) k' digits' rest' → k'.length ≤ k.length := by
  have htail : '.' ∉ format08x false a ++ [c] := by
    rw [List.mem_append, List.mem_singleton, not_or]
    exact ⟨dot_notMem_format08x, hc.symm⟩
  have hopens : ∀ k digits, (∃ rest, Opens rt s.name.toList k digits rest) ↔
      ∃ rest, Opens rt ('.' :: kind) k digits rest := by
    intro k digits
    rw [hname]
    exact exists_opens_x_iff htail
  constructor
  · intro h
    obtain ⟨digits, hmatch, hvalue⟩ := (resolveSectionVaddr_eq_ok_iff hs (.vaddr 0)).1 (h _)
    obtain ⟨k, rest, hk, hlong⟩ := matchName_eq_some_iff.1 hmatch
    obtain ⟨rest', hk'⟩ := (hopens k digits).1 ⟨rest, hk⟩
    refine ⟨k, digits, rest', hk', hvalue, fun k' digits' rest'' h' => ?_⟩
    obtain ⟨rest₂, h₂⟩ := (hopens k' digits').2 ⟨rest'', h'⟩
    exact hlong k' digits' rest₂ h₂
  · rintro ⟨k, digits, rest, hk, hvalue, hlong⟩ why
    obtain ⟨rest', hk'⟩ := (hopens k digits).2 ⟨rest, hk⟩
    refine (resolveSectionVaddr_eq_ok_iff hs why).2 ⟨digits, ?_, hvalue⟩
    refine matchName_eq_some_iff.2 ⟨k, rest', hk', fun k' digits' rest'' h' => ?_⟩
    obtain ⟨rest₂, h₂⟩ := (hopens k' digits').1 ⟨rest'', h'⟩
    exact hlong k' digits' rest₂ h₂

/-- A function's section, named as the statement says. -/
def statementSection : Section where
  name := ".text.x08049072f"
  shType := .SHT_PROGBITS

/-- **The statement's own example is not decoded.** -/
theorem not_decoded_statementSection :
    statementSection.name.toList =
        '.' :: ("text".toList ++ '.' :: 'x' :: (format08x false 0x08049072 ++ ['f'])) ∧
      ¬ ∀ why, resolveSectionVaddr .ascii why statementSection = .ok 0x08049072 := by
  refine ⟨by decide, fun h => ?_⟩
  exact absurd (h (.vaddr 0)) (by decide)

/-- The same function, with its address in the kind as well. -/
def twiceNamedSection : Section where
  name := ".text.08049072.x08049072f"
  shType := .SHT_PROGBITS

theorem resolveSectionVaddr_statement_iff_sample :
    resolveSectionVaddr .ascii (.vaddr 0) twiceNamedSection = .ok 0x08049072 := by
  refine (resolveSectionVaddr_statement_iff .ascii twiceNamedSection "text.08049072".toList
    0x08049072 'f' rfl (by decide) (by decide)).2 ?_ _
  refine ⟨"text".toList, "08049072".toList, [], ⟨rfl, by decide, List.all_eq_true.1 rfl, rfl,
    List.all_eq_true.1 rfl⟩, by decide, ?_⟩
  intro k digits rest h
  -- there is no room for a longer kind before eight digits
  have hlen := congrArg List.length h.eq
  have hdigits := h.digits_length
  simp only [List.length_cons, List.length_append] at hlen
  have hkind : "text.08049072".toList.length = 13 := rfl
  have hk : "text".toList.length = 4 := rfl
  omega

end Checklib
