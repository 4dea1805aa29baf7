import Checklib.Console
import Checklib.Stepping

/-!
# A console that has its input in it: `mock_simulated_getc_nodata`

The replacement of `simulated_getc` has no word of its own to count its
calls in. It counts them in the pointer its caller calls it through: a call
moves the pointer one byte on, into a slide the next call runs down, and
what the pointer then is tells which character to return. For as many calls
as the slide is long it is `simulated_getc` on an input of ten characters.
-/

namespace Checklib

namespace I386

open Common

/-- `mock_simulated_getc_nodata.S`, behind the slide. -/
def mockListing : List (ℕ × Instr × ℕ) :=
  [(0, .add (.mem (some .eax) 8) 1, 4),
    (4, .load .ecx (.mem (some .eax) 8), 3),
    (7, .movsbl .eax (some .ecx) 142, 7),
    (14, .ret, 1)]

theorem lists_mockBody : Lists mockBody mockListing := by decide

/-- The bytes at `string`. -/
def mockString : List Byte := heisenberg ++ List.replicate 118 0xff

theorem mockString_length : mockString.length = 128 := by
  rw [mockString, List.length_append, List.length_replicate]
  rfl

/-! ## One call -/

section Call

variable {m : Word → Byte} {s : State} {base : Word} {k : ℕ}

theorem slide_of_holds (hcode : Holds m base mockSimulatedGetc) (hk : k ≤ 128) :
    Holds m (base + BitVec.ofNat 32 k) (List.replicate (128 - k) 0x90) := by
  have hrest := hcode.drop k
  unfold mockSimulatedGetc at hrest
  rw [List.drop_append_of_le_length (by rwa [List.length_replicate]), List.drop_replicate] at hrest
  exact hrest.left

theorem body_of_holds (hcode : Holds m base mockSimulatedGetc) :
    Holds m (base + BitVec.ofNat 32 128) (mockBody ++ mockString) := by
  have hrest := hcode.drop 128
  unfold mockSimulatedGetc at hrest
  rwa [List.drop_left' List.length_replicate] at hrest

/-- The `k`-th byte of the string is 143 behind the slide's `k`-th. -/
theorem string_of_holds (hcode : Holds m base mockSimulatedGetc) (hk : k < 128) :
    m (base + BitVec.ofNat 32 (143 + k)) = mockString.getD k 0 := by
  have hlen := mockString_length
  have hstring := (body_of_holds hcode).drop 15
  rw [List.drop_left' (by decide)] at hstring
  have hbyte := hstring k (by omega)
  rw [BitVec.add_assoc, BitVec.add_assoc, ← BitVec.ofNat_add, ← BitVec.ofNat_add] at hbyte
  rw [List.getD_eq_getElem _ _ (by omega), ← hbyte, ← Nat.add_assoc]

/-- The state at the return: the pointer has moved on, and the string's
`k`-th byte has been read 142 behind it. -/
def answered (base : Word) (k : ℕ) (s : State) : State :=
  ⟨Function.update (Function.update s.regs .ecx (base + BitVec.ofNat 32 (k + 1))) .eax
      ((mockString.getD k 0).signExtend 32),
    base + BitVec.ofNat 32 128 + BitVec.ofNat 32 14, base + BitVec.ofNat 32 (k + 1) == 0,
    write32 s.mem (s.regs .eax + 8) (base + BitVec.ofNat 32 (k + 1))⟩

theorem leads_answered (hcode : Holds s.mem base mockSimulatedGetc)
    (hapart : Disjoint (span base mockSimulatedGetc.length) (span (s.regs .eax + 8) 4))
    (hk : k < 128) (hget : read32 s.mem (s.regs .eax + 8) = base + BitVec.ofNat 32 k) :
    Leads .stuck (callTurn (s.regs .esp + 4)) 3 { s with eip := base + BitVec.ofNat 32 128 }
      (answered base k s) := by
  have htop : s.regs .esp ≠ s.regs .esp + 4 := by bv_omega
  let m' := write32 s.mem (s.regs .eax + 8) (base + BitVec.ofNat 32 (k + 1))
  have hcode' : Holds m' base mockSimulatedGetc := hcode.congr (eqOn_write32 hapart).symm
  have hget' : read32 m' (s.regs .eax + 8) = base + BitVec.ofNat 32 (k + 1) := read32_write32
  have hmove : read32 s.mem (s.regs .eax + 8) + 1 = base + BitVec.ofNat 32 (k + 1) := by
    rw [hget, BitVec.add_assoc, BitVec.ofNat_add]
    rfl
  let moved : State := ⟨s.regs, base + BitVec.ofNat 32 128 + BitVec.ofNat 32 4,
    base + BitVec.ofNat 32 (k + 1) == 0, m'⟩
  have hmoved : Leads .stuck (callTurn (s.regs .esp + 4)) 1
      { s with eip := base + BitVec.ofNat 32 128 } moved := by
    refine leads_of_exec 0 lists_mockBody rfl (body_of_holds hcode).left (BitVec.add_zero _).symm
      htop ?_
    simp only [exec, State.get, State.put, State.address, hmove]
    rfl
  let loaded : State := ⟨Function.update s.regs .ecx (base + BitVec.ofNat 32 (k + 1)),
    base + BitVec.ofNat 32 128 + BitVec.ofNat 32 7, base + BitVec.ofNat 32 (k + 1) == 0, m'⟩
  have hloaded : Leads .stuck (callTurn (s.regs .esp + 4)) 1 moved loaded := by
    refine leads_of_exec 1 lists_mockBody rfl (body_of_holds hcode').left rfl htop ?_
    simp only [exec, State.get, State.address, State.set, moved, hget']
    rfl
  have hchar : m' (base + BitVec.ofNat 32 (k + 1) + 142) = mockString.getD k 0 := by
    rw [← string_of_holds hcode' hk, BitVec.add_assoc, Nat.add_comm 143 k,
      show (142 : Word) = BitVec.ofNat 32 142 from rfl, ← BitVec.ofNat_add]
  have hread : Leads .stuck (callTurn (s.regs .esp + 4)) 1 loaded (answered base k s) := by
    refine leads_of_exec 2 lists_mockBody rfl (body_of_holds hcode').left rfl htop ?_
    simp only [exec, State.address, State.set, loaded, Function.update_self, hchar]
    rfl
  exact (hmoved.trans hloaded).trans hread

/-- **A call from the slide's `k`-th byte** returns the string's, and moves
the pointer on. -/
theorem call_mock (hcode : Holds s.mem base mockSimulatedGetc)
    (hapart : Disjoint (span base mockSimulatedGetc.length) (span (s.regs .eax + 8) 4))
    (hk : k < 128) (hget : read32 s.mem (s.regs .eax + 8) = base + BitVec.ofNat 32 k)
    (hentry : s.eip = base + BitVec.ofNat 32 k)
    (hstack : Disjoint (span (s.regs .esp) 4) (span (s.regs .eax + 8) 4)) :
    ∃ t, (∀ turns, 133 ≤ turns → call turns s = .ok t) ∧ Returned s t ∧
      t.regs .eax = (mockString.getD k 0).signExtend 32 ∧
      t.mem = write32 s.mem (s.regs .eax + 8) (base + BitVec.ofNat 32 (k + 1)) := by
  have htop : s.regs .esp ≠ s.regs .esp + 4 := by bv_omega
  have hbody : s.eip + BitVec.ofNat 32 (128 - k) = base + BitVec.ofNat 32 128 := by
    rw [hentry, BitVec.add_assoc, ← BitVec.ofNat_add, Nat.add_sub_cancel' hk.le]
  have hslid := leads_slide (hentry ▸ slide_of_holds hcode hk.le) htop
  rw [hbody] at hslid
  have hcode' : Holds (answered base k s).mem base mockSimulatedGetc :=
    hcode.congr (eqOn_write32 hapart).symm
  have hregs : ∀ r ∈ Reg.esp :: saved, (answered base k s).regs r = s.regs r := fun r hr =>
    (update_of_saved _ (by decide) r hr).trans (update_of_saved _ (by decide) r hr)
  obtain ⟨t, hcall, hreturned, hregs', hmem⟩ := call_of_leads
    (hslid.trans (leads_answered hcode hapart hk hget)) 3 lists_mockBody rfl
    (body_of_holds hcode').left rfl hregs (read32_congr (eqOn_write32 hstack))
  refine ⟨t, fun turns henough => hcall turns (by omega), hreturned, ?_, hmem⟩
  rw [hregs']
  rfl

end Call

/-! ## The characters -/

/-- A call of `simulated_getc` takes one byte of its input, if there is one. -/
theorem simulatedGetc_snd (stale : CChar) (fd0 : List CChar) :
    (simulatedGetc stale fd0).2 = fd0.drop 1 := by
  cases fd0 with
  | nil => rw [simulatedGetc_nil]; rfl
  | cons b bs => rw [simulatedGetc_cons]; rfl

theorem simulatedGetc_fst (stale stale' : CChar) (fd0 : List CChar) :
    (simulatedGetc stale fd0).1 = (simulatedGetc stale' fd0).1 := by
  cases fd0 with
  | nil => rw [simulatedGetc_nil, simulatedGetc_nil]
  | cons b bs => rw [simulatedGetc_cons, simulatedGetc_cons]

/-- Each byte of the string is what `simulated_getc` returns there: of the
characters the next, and then the end of the file. -/
theorem mockString_eq (stale : CChar) {k : ℕ} (hk : k < 128) :
    (mockString.getD k 0).signExtend 32 = (simulatedGetc stale (heisenberg.drop k)).1 := by
  rcases Nat.lt_or_ge k heisenberg.length with hlt | hge
  · rw [simulatedGetc_fst stale 0]
    have hall : ∀ k < heisenberg.length, (mockString.getD k 0).signExtend 32 =
        (simulatedGetc 0 (heisenberg.drop k)).1 := by decide
    exact hall k hlt
  · have hlast : k - heisenberg.length < (List.replicate 118 (0xff : Byte)).length := by
      rw [List.length_replicate, show heisenberg.length = 10 from rfl]
      omega
    rw [List.drop_eq_nil_of_le hge, simulatedGetc_nil, mockString,
      List.getD_append_right _ _ _ _ hge, List.getD_eq_getElem _ _ hlast, List.getElem_replicate]
    rfl

/-! ## Sessions -/

/-- The reader as it goes on: what a call returns, and how many there have
been. -/
def mockNext (stale : CChar) (k : ℕ) : CInt × ℕ :=
  ((simulatedGetc stale (heisenberg.drop k)).1, k + 1)

/-- **The replacement after `k` calls**, its pointer `k` bytes down the
slide. -/
structure Mocks (base file : Word) (s : State) (k : ℕ) : Prop where
  code : Holds s.mem base mockSimulatedGetc
  get : read32 s.mem (file + 8) = base + BitVec.ofNat 32 k

/-- What the program has to leave alone. -/
def mockKept (base file : Word) : Set Word :=
  span base mockSimulatedGetc.length ∪ span (file + 8) 4

/-- At a call of `file->get(file)`, with a stack that is not in the way. -/
structure AtMock (file : Word) (s : State) : Prop where
  entry : s.eip = read32 s.mem (file + 8)
  arg : s.regs .eax = file
  stack : Disjoint (span (s.regs .esp) 4) (span (file + 8) 4)

section Session

variable {base file : Word} {s t : State} {out : List Word} {k : ℕ}

theorem after_mockNext (stale : CChar) (n k : ℕ) : after (mockNext stale) n k = k + n := by
  induction n with
  | zero => rfl
  | succ n ih => rw [after_succ, ih]; rfl

/-- Successive calls of `simulated_getc`, each on what is left. -/
theorem calls_eq_map (stale : CChar) (stales fd0 : List CChar) :
    calls stales fd0 =
      (List.range stales.length).map fun i => (simulatedGetc stale (fd0.drop i)).1 := by
  induction stales generalizing fd0 with
  | nil => rfl
  | cons stale' stales ih =>
    rw [List.length_cons, List.range_succ_eq_map, List.map_cons, List.map_map]
    show (simulatedGetc stale' fd0).1 :: calls stales (simulatedGetc stale' fd0).2 = _
    rw [ih, simulatedGetc_snd, simulatedGetc_fst stale' stale]
    refine congrArg _ (List.map_congr_left fun i _ => ?_)
    rw [List.drop_drop, Nat.add_comm]
    rfl

theorem calls_eq_results (stale : CChar) (stales : List CChar) :
    calls stales heisenberg = results (mockNext stale) stales.length 0 := by
  rw [calls_eq_map stale]
  refine List.map_congr_left fun i _ => ?_
  rw [after_mockNext, Nat.zero_add]
  rfl

/-- **A call, after `k` of them.** -/
theorem call_mocks (hapart : Disjoint (span base mockSimulatedGetc.length) (span (file + 8) 4))
    (stale : CChar) (h : Mocks base file s k) (hk : k < 128) (hat : AtMock file s) :
    ∃ t, (∀ turns, 133 ≤ turns → call turns s = .ok t) ∧ Returned s t ∧
      t.regs .eax = (mockNext stale k).1 ∧ Mocks base file t (mockNext stale k).2 ∧
      Set.EqOn t.mem s.mem (span (file + 8) 4)ᶜ := by
  obtain ⟨hentry, rfl, hstack⟩ := hat
  obtain ⟨t, hcall, hreturned, heax, hmem⟩ :=
    call_mock h.code hapart hk h.get (hentry.trans h.get) hstack
  refine ⟨t, hcall, hreturned, heax.trans (mockString_eq stale hk), ⟨?_, ?_⟩, ?_⟩
  · rw [hmem]
    exact h.code.congr (eqOn_write32 hapart).symm
  · rw [hmem, read32_write32]
    rfl
  · rw [hmem]
    exact fun q hq => write32_of_notMem hq

theorem simulation_mock (stale : CChar)
    (hapart : Disjoint (span base mockSimulatedGetc.length) (span (file + 8) 4)) :
    Simulation (Mocks base file) (· < 128) (mockNext stale) (Keeps (mockKept base file))
      (Calls (AtMock file)) where
  moved h hkeeps := by
    refine ⟨h.code.congr (hkeeps.mono Set.subset_union_left), ?_⟩
    rw [← read32_congr (hkeeps.mono Set.subset_union_right)]
    exact h.get
  called h hk hcalls := by
    obtain ⟨hat, rfl, turns, hcall⟩ := hcalls
    obtain ⟨t, hreturns, -, heax, ht, -⟩ := call_mocks hapart stale h hk hat
    obtain rfl := call_unique hcall (hreturns 133 (Nat.le_refl 133))
    exact ⟨heax, ht⟩

/-- **The replacement is `simulated_getc`** on the ten characters: in any
session of no more calls than the slide is long it has returned what
`simulated_getc` does, and the next call comes back, with what that returns
next, what it owes its caller, and nothing changed but the pointer. -/
theorem mockSimulatedGetc_refines
    (hapart : Disjoint (span base mockSimulatedGetc.length) (span (file + 8) 4))
    (hcode : Holds s.mem base mockSimulatedGetc) (hget : read32 s.mem (file + 8) = base)
    (hsession : Session (Keeps (mockKept base file)) (Calls (AtMock file)) s out t)
    (hfew : out.length ≤ 128) {stales : List CChar} (hstales : stales.length = out.length) :
    out = calls stales heisenberg ∧
    (out.length < 128 → AtMock file t → ∀ stale,
      ∃ u, (∀ turns, 133 ≤ turns → call turns t = .ok u) ∧ Returned t u ∧
        u.regs .eax = (simulatedGetc stale (heisenberg.drop out.length)).1 ∧
        Set.EqOn u.mem t.mem (span (file + 8) 4)ᶜ) := by
  have hstart : Mocks base file s 0 := ⟨hcode, hget.trans (BitVec.add_zero base).symm⟩
  have hrun : ∀ stale,
      out = results (mockNext stale) out.length 0 ∧ Mocks base file t out.length := by
    intro stale
    obtain ⟨hout, ht⟩ := hsession.refines (simulation_mock stale hapart) hstart fun i hi => by
      rw [after_mockNext, Nat.zero_add]
      omega
    rw [after_mockNext, Nat.zero_add] at ht
    exact ⟨hout, ht⟩
  refine ⟨?_, fun hlt hat stale => ?_⟩
  · rw [calls_eq_results 0, hstales]
    exact (hrun 0).1
  · obtain ⟨u, hcall, hreturned, heax, -, hframe⟩ := call_mocks hapart stale (hrun stale).2 hlt hat
    exact ⟨u, hcall, hreturned, heax, hframe⟩

end Session

/-- A program at its first call, with its `FILE` behind the code. -/
def reader : State :=
  ⟨fun r => if r = .esp then 0xa8010000 else if r = .eax then 0x2000 else 0, 0x1000, false,
    write32 (placed 0x1000 mockSimulatedGetc) 0x2008 0x1000⟩

theorem mockSimulatedGetc_length : mockSimulatedGetc.length = 271 := by
  simp only [mockSimulatedGetc, List.length_append, List.length_replicate]
  rfl

theorem mockSimulatedGetc_refines_sample :
    ∃ t, [0x48] = calls [0] heisenberg ∧
      ([(0x48 : Word)].length < 128 → AtMock 0x2000 t → ∀ stale,
        ∃ u, (∀ turns, 133 ≤ turns → call turns t = .ok u) ∧ Returned t u ∧
          u.regs .eax = (simulatedGetc stale (heisenberg.drop [(0x48 : Word)].length)).1 ∧
          Set.EqOn u.mem t.mem (span (0x2000 + 8) 4)ᶜ) := by
  have hapart : Disjoint (span 0x1000 mockSimulatedGetc.length) (span (0x2000 + 8) 4) := by
    rw [mockSimulatedGetc_length]
    exact disjoint_span (by decide) (by decide)
  have hcode : Holds reader.mem 0x1000 mockSimulatedGetc :=
    (holds_placed (by rw [mockSimulatedGetc_length]; decide)).congr (eqOn_write32 hapart).symm
  have hget : read32 reader.mem (0x2000 + 8) = 0x1000 := read32_write32
  have hat : AtMock 0x2000 reader := ⟨hget.symm, rfl, (disjoint_span (by decide) (by decide)).symm⟩
  have hmocks : Mocks 0x1000 0x2000 reader 0 := ⟨hcode, hget⟩
  obtain ⟨t, hcall, -, heax, -⟩ := call_mocks hapart 0 hmocks (by decide) hat
  exact ⟨t, mockSimulatedGetc_refines hapart hcode hget
    (.called .start ⟨hat, heax, 133, hcall 133 (Nat.le_refl 133)⟩) (by decide) rfl⟩

end I386

end Checklib
