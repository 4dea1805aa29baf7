import Mathlib.Data.Nat.Notation

/-!
# The console's input

A program of the task reads its input one byte at a time: `simulated_getc`
of the C library calls `_getc` of the examples, which asks the system for
one byte of file descriptor 0. The state of the descriptor is the bytes it
still holds. A `char` is signed on this target, and both functions hold the
byte in one, where a byte from 128 on is negative, as the end of the file
is.
-/

namespace Checklib

/-! ## The two functions -/

/-- A `char`. -/
abbrev CChar := BitVec 8

/-- An `int`. -/
abbrev CInt := BitVec 32

/-- `EOF`. -/
def cEOF : CInt := -1

/-- The system call `read(0, &c, 1)`, where `c` holds `stale`: what it
returns, what `c` holds then, and what the descriptor holds. -/
def sysRead (stale : CChar) : List CChar → (CInt × CChar) × List CChar
  | [] => ((0, stale), [])
  | b :: bs => ((1, b), bs)

/-- **`_getc()`**, `stale` being what its uninitialised `c` holds. -/
def getc (stale : CChar) (fd0 : List CChar) : CInt × List CChar :=
  let ((notEof, c), fd0) := sysRead stale fd0
  if notEof ≠ 0 then (c.signExtend 32, fd0) else (-1, fd0)

/-- **`simulated_getc(file)`**: what `_getc` returns goes into a `char` and
comes out of it again. -/
def simulatedGetc (stale : CChar) (fd0 : List CChar) : CInt × List CChar :=
  let (r, fd0) := getc stale fd0
  let c : CChar := r.setWidth 8
  if (c.signExtend 32).slt 0#32 then (cEOF, fd0) else (c.signExtend 32, fd0)

/-- What successive calls return: one call for each `stale`. -/
def calls : List CChar → List CChar → List CInt
  | [], _ => []
  | stale :: stales, fd0 =>
    let (r, fd0) := simulatedGetc stale fd0
    r :: calls stales fd0

/-! ## What a call returns -/

/-- A byte as the program receives it. -/
def received (b : CChar) : CInt := if b.toNat < 128 then b.setWidth 32 else cEOF

/-- A `char` goes through an `int` unchanged. -/
theorem setWidth_signExtend_char (b : CChar) : (b.signExtend 32).setWidth 8 = b := by
  refine BitVec.eq_of_getLsbD_eq fun i hi => ?_
  have hlt : i < 32 := by omega
  rw [BitVec.getLsbD_setWidth, BitVec.getLsbD_signExtend, if_pos hi]
  simp only [hi, hlt, decide_true, Bool.true_and]

/-- A `char` from 128 on is a negative `int`, and no other is. -/
theorem signExtend_slt_zero_iff {b : CChar} :
    (b.signExtend 32).slt 0#32 = true ↔ 128 ≤ b.toNat := by
  rw [BitVec.slt_zero_eq_msb, BitVec.msb_signExtend, if_neg (by decide), BitVec.msb_eq_decide]
  exact decide_eq_true_iff

theorem getc_nil (stale : CChar) : getc stale [] = (cEOF, []) := rfl

theorem getc_cons (stale b : CChar) (bs : List CChar) :
    getc stale (b :: bs) = (b.signExtend 32, bs) := rfl

/-- **At the end** a call returns `EOF`. -/
theorem simulatedGetc_nil (stale : CChar) : simulatedGetc stale [] = (cEOF, []) := by
  rw [simulatedGetc, getc_nil]
  rfl

/-- **Before it** a call takes one byte, and returns it if it is ASCII. -/
theorem simulatedGetc_cons (stale b : CChar) (bs : List CChar) :
    simulatedGetc stale (b :: bs) = (received b, bs) := by
  rw [simulatedGetc, getc_cons]
  simp only [setWidth_signExtend_char, signExtend_slt_zero_iff, received]
  rcases Nat.lt_or_ge b.toNat 128 with hb | hb
  · have hmsb : b.msb = false := BitVec.msb_eq_false_iff_two_mul_lt.2 (by omega)
    rw [if_neg (by omega), if_pos hb, BitVec.signExtend_eq_setWidth_of_msb_false hmsb]
  · rw [if_pos hb, if_neg (by omega)]

/-- **What a run of calls returns**, by induction on the calls: the bytes as
they are received, then `EOF`. -/
theorem calls_eq (stales fd0 : List CChar) :
    calls stales fd0 = (fd0.map received).take stales.length ++
      List.replicate (stales.length - fd0.length) cEOF := by
  induction stales generalizing fd0 with
  | nil => simp [calls]
  | cons stale stales ih =>
    cases fd0 with
    | nil =>
      rw [calls, simulatedGetc_nil]
      simp only [ih, List.map_nil, List.take_nil, List.nil_append, List.length_nil, Nat.sub_zero,
        List.length_cons, List.replicate_succ]
    | cons b bs =>
      rw [calls, simulatedGetc_cons]
      simp only [ih, List.map_cons, List.length_cons, List.take_succ_cons, Nat.add_sub_add_right,
        List.cons_append]

/-! ## The input path -/

/-- **The input path is transparent** on a stream: the calls return its
bytes, each as its value, and `EOF` from then on and not before. -/
structure Transparent (fd0 : List CChar) : Prop where
  results : ∀ stales, calls stales fd0 = (fd0.map (·.setWidth 32)).take stales.length ++
    List.replicate (stales.length - fd0.length) cEOF
  not_eof : ∀ stales, stales.length ≤ fd0.length → cEOF ∉ calls stales fd0

/-- A byte's value is not `EOF`. -/
theorem setWidth_ne_eof (b : CChar) : b.setWidth 32 ≠ cEOF := by
  intro h
  have hlt : b.toNat < 2 ^ 8 := b.isLt
  have hval : b.toNat % 2 ^ 32 = cEOF.toNat := by rw [← h, BitVec.toNat_setWidth]
  have heof : cEOF.toNat = 2 ^ 32 - 1 := rfl
  omega

/-- A byte is received as its value exactly if it is ASCII. -/
theorem received_eq_iff {b : CChar} : received b = b.setWidth 32 ↔ b.toNat < 128 := by
  rw [received]
  rcases Nat.lt_or_ge b.toNat 128 with hb | hb
  · rw [if_pos hb]
    exact iff_of_true rfl hb
  · rw [if_neg (by omega)]
    exact iff_of_false (setWidth_ne_eof b).symm (by omega)

/-- **The console's input is transparent exactly** on ASCII: a byte from 128
on is taken for the end. -/
theorem transparent_iff (fd0 : List CChar) : Transparent fd0 ↔ ∀ b ∈ fd0, b.toNat < 128 := by
  constructor
  · intro h b hb
    -- as many calls as there are bytes
    have hrun := h.results fd0
    rw [calls_eq, Nat.sub_self, List.replicate_zero, List.append_nil, List.append_nil] at hrun
    rw [← List.map_take, ← List.map_take, List.take_length] at hrun
    exact received_eq_iff.1 (List.map_inj_left.1 hrun b hb)
  · intro hascii
    have hmap : fd0.map received = fd0.map (·.setWidth 32) :=
      List.map_congr_left fun b hb => received_eq_iff.2 (hascii b hb)
    constructor
    · intro stales
      rw [calls_eq, hmap]
    · intro stales hlen hmem
      rw [calls_eq, hmap, Nat.sub_eq_zero_of_le hlen, List.replicate_zero, List.append_nil] at hmem
      obtain ⟨b, -, hb⟩ := List.mem_map.1 (List.mem_of_mem_take hmem)
      exact setWidth_ne_eof b hb

/-- **A letter outside ASCII ends the input**: of the two bytes of `ó` and
what follows nothing is read. -/
theorem not_transparent_accent : ¬ Transparent [0xc3, 0xb3, 0x61] := by
  intro h
  exact h.not_eof [0] (by decide) (by decide)

end Checklib
