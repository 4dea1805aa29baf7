import Checklib.Stepping

/-!
# A clock that repeats itself: `cheating_rdtsc`

The replacement of a program's clock keeps in a word of memory that it has
been called, where the C source it is written after keeps that it has not.
It returns what the source does, in whatever order the program calls it and
goes on, as long as the program leaves the code and the word alone.
-/

namespace Checklib

namespace I386

open Common

/-- `cheating_rdtsc.s` -/
def cheatingRdtscListing : List (ℕ × Instr × ℕ) :=
  [(0, .mov (.reg .eax) 12345, 5),
    (5, .cmp (.mem none nonsuspiciousSlot) magic, 10),
    (15, .je 15, 2),
    (17, .mov (.mem none nonsuspiciousSlot) magic, 10),
    (27, .mov (.reg .eax) 1234, 5),
    (32, .ret, 1)]

theorem lists_cheatingRdtsc : Lists cheatingRdtsc cheatingRdtscListing := by decide

/-! ## One call -/

section Call

variable {s : State}

/-- The state that has compared the slot. -/
def compared (s : State) : State :=
  ⟨Function.update s.regs .eax 12345, s.eip + BitVec.ofNat 32 15,
    read32 s.mem nonsuspiciousSlot - magic == 0, s.mem⟩

theorem leads_compared (hcode : Holds s.mem s.eip cheatingRdtsc) :
    Leads .stuck (callTurn (s.regs .esp + 4)) 2 s (compared s) := by
  have htop : s.regs .esp ≠ s.regs .esp + 4 := by bv_omega
  have hentry : s.eip = s.eip + BitVec.ofNat 32 0 := (BitVec.add_zero _).symm
  exact (leads_of_exec 0 lists_cheatingRdtsc rfl hcode hentry htop rfl).trans
    (leads_of_exec 1 lists_cheatingRdtsc rfl hcode rfl htop rfl)

/-- A later call takes the jump. -/
theorem call_cheat_later (hcode : Holds s.mem s.eip cheatingRdtsc)
    (hmagic : read32 s.mem nonsuspiciousSlot = magic) :
    ∃ t, (∀ turns, 7 ≤ turns → call turns s = .ok t) ∧ Returned s t ∧ t.regs .eax = 12345 ∧
      t.mem = s.mem := by
  have htop : s.regs .esp ≠ s.regs .esp + 4 := by bv_omega
  have hzf : (compared s).zf = true := beq_iff_eq.2 (sub_eq_zero.2 hmagic)
  have hend : s.eip + BitVec.ofNat 32 17 + 15 = s.eip + BitVec.ofNat 32 32 := BitVec.add_assoc _ _ _
  let jumped : State := ⟨(compared s).regs, s.eip + BitVec.ofNat 32 32, true, s.mem⟩
  have hjumped : Leads .stuck (callTurn (s.regs .esp + 4)) 1 (compared s) jumped := by
    refine leads_of_exec 2 lists_cheatingRdtsc rfl hcode rfl htop ?_
    simp only [exec, hzf, if_true, hend]
    rfl
  obtain ⟨t, hcall, hreturned, hregs, hmem⟩ := call_of_leads
    ((leads_compared hcode).trans hjumped) 5 lists_cheatingRdtsc rfl hcode rfl
    (update_of_saved _ (by decide)) rfl
  refine ⟨t, fun turns henough => hcall turns (by omega), hreturned, ?_, hmem⟩
  rw [hregs]
  rfl

/-- The first call leaves its mark. -/
theorem call_cheat_first (hcode : Holds s.mem s.eip cheatingRdtsc)
    (hapart : Disjoint (span s.eip cheatingRdtsc.length) (span nonsuspiciousSlot 4))
    (hstack : Disjoint (span (s.regs .esp) 4) (span nonsuspiciousSlot 4))
    (hmagic : read32 s.mem nonsuspiciousSlot ≠ magic) :
    ∃ t, (∀ turns, 7 ≤ turns → call turns s = .ok t) ∧ Returned s t ∧ t.regs .eax = 1234 ∧
      t.mem = write32 s.mem nonsuspiciousSlot magic := by
  have htop : s.regs .esp ≠ s.regs .esp + 4 := by bv_omega
  have hzf : (compared s).zf = false :=
    beq_eq_false_iff_ne.2 fun heq => hmagic (sub_eq_zero.1 heq)
  let fallen : State := ⟨(compared s).regs, s.eip + BitVec.ofNat 32 17, false, s.mem⟩
  have hfallen : Leads .stuck (callTurn (s.regs .esp + 4)) 1 (compared s) fallen := by
    refine leads_of_exec 2 lists_cheatingRdtsc rfl hcode rfl htop ?_
    simp only [exec, hzf]
    rfl
  let marked : State := ⟨Function.update (compared s).regs .eax 1234, s.eip + BitVec.ofNat 32 32,
    false, write32 s.mem nonsuspiciousSlot magic⟩
  have hcode' : Holds marked.mem s.eip cheatingRdtsc := hcode.congr (eqOn_write32 hapart).symm
  have hmarked : Leads .stuck (callTurn (s.regs .esp + 4)) 2 fallen marked :=
    (leads_of_exec (s := fallen) 3 lists_cheatingRdtsc rfl hcode rfl htop rfl).trans
      (leads_of_exec 4 lists_cheatingRdtsc rfl hcode' rfl htop rfl)
  have hregs : marked.regs = Function.update s.regs .eax 1234 := Function.update_idem _ _ _
  obtain ⟨t, hcall, hreturned, hregs', hmem⟩ := call_of_leads
    (((leads_compared hcode).trans hfallen).trans hmarked) 5 lists_cheatingRdtsc rfl hcode' rfl
    (hregs ▸ update_of_saved _ (by decide)) (read32_congr (eqOn_write32 hstack))
  refine ⟨t, hcall, hreturned, ?_, hmem⟩
  rw [hregs']
  rfl

end Call

/-! ## Sessions -/

/-- **The replacement in the state the source is in**: its mark is there if
`first` is 0. -/
structure Cheats (base : Word) (s : State) (first : Word) : Prop where
  code : Holds s.mem base cheatingRdtsc
  mark : read32 s.mem nonsuspiciousSlot = magic ↔ first = 0

/-- What the program has to leave alone. -/
def cheatKept (base : Word) : Set Word :=
  span base cheatingRdtsc.length ∪ span nonsuspiciousSlot 4

/-- At a call, with a stack that is not in the way. -/
structure AtCheat (base : Word) (s : State) : Prop where
  entry : s.eip = base
  stack : Disjoint (span (s.regs .esp) 4) (span nonsuspiciousSlot 4)

section Session

variable {base first : Word} {s t : State} {out : List Word}

/-- **A call, in either state.** -/
theorem call_cheat (hapart : Disjoint (span base cheatingRdtsc.length) (span nonsuspiciousSlot 4))
    (h : Cheats base s first) (hat : AtCheat base s) :
    ∃ t, (∀ turns, 7 ≤ turns → call turns s = .ok t) ∧ Returned s t ∧
      t.regs .eax = (cheat first).1 ∧ Cheats base t (cheat first).2 ∧
      Set.EqOn t.mem s.mem (span nonsuspiciousSlot 4)ᶜ := by
  obtain ⟨rfl, hstack⟩ := hat
  by_cases hfirst : first = 0
  · obtain ⟨t, hcall, hreturned, heax, hmem⟩ := call_cheat_later h.code (h.mark.2 hfirst)
    rw [cheat, if_neg (not_not.2 hfirst)]
    exact ⟨t, hcall, hreturned, heax, ⟨hmem ▸ h.code, hmem ▸ h.mark⟩, fun _ _ => by rw [hmem]⟩
  · obtain ⟨t, hcall, hreturned, heax, hmem⟩ :=
      call_cheat_first h.code hapart hstack (mt h.mark.1 hfirst)
    rw [cheat, if_pos hfirst]
    refine ⟨t, hcall, hreturned, heax, ⟨?_, ?_⟩, ?_⟩
    · rw [hmem]
      exact h.code.congr (eqOn_write32 hapart).symm
    · rw [hmem, read32_write32]
      exact iff_of_true rfl rfl
    · rw [hmem]
      exact fun q hq => write32_of_notMem hq

theorem simulation_cheat
    (hapart : Disjoint (span base cheatingRdtsc.length) (span nonsuspiciousSlot 4)) :
    Simulation (Cheats base) (fun _ => True) cheat (Keeps (cheatKept base))
      (Calls (AtCheat base)) where
  moved h hkeeps := by
    refine ⟨h.code.congr (hkeeps.mono Set.subset_union_left), ?_⟩
    rw [← read32_congr (hkeeps.mono Set.subset_union_right)]
    exact h.mark
  called h _ hcalls := by
    obtain ⟨hat, rfl, turns, hcall⟩ := hcalls
    obtain ⟨t, hreturns, -, heax, ht, -⟩ := call_cheat hapart h hat
    obtain rfl := call_unique hcall (hreturns 7 (Nat.le_refl 7))
    exact ⟨heax, ht⟩

/-- **The replacement refines its source**: in any session it has returned
what the source returns in as many calls, and the next call comes back, with
what the source returns next, what it owes its caller, and nothing changed
but its word. -/
theorem cheatingRdtsc_refines
    (hapart : Disjoint (span base cheatingRdtsc.length) (span nonsuspiciousSlot 4))
    (h : Cheats base s first)
    (hsession : Session (Keeps (cheatKept base)) (Calls (AtCheat base)) s out t) :
    out = results cheat out.length first ∧
    (AtCheat base t → ∃ u, (∀ turns, 7 ≤ turns → call turns t = .ok u) ∧ Returned t u ∧
      u.regs .eax = (cheat (after cheat out.length first)).1 ∧
      Set.EqOn u.mem t.mem (span nonsuspiciousSlot 4)ᶜ) := by
  obtain ⟨hout, ht⟩ := hsession.refines (simulation_cheat hapart) h fun _ _ => trivial
  refine ⟨hout, fun hat => ?_⟩
  obtain ⟨u, hcall, hreturned, heax, -, hframe⟩ := call_cheat hapart ht hat
  exact ⟨u, hcall, hreturned, heax, hframe⟩

end Session

/-- A program at its first call, with zeros for the rest of its memory. -/
def clock : State :=
  ⟨fun r => if r = .esp then 0xa8010000 else 0, 0x1000, false, placed 0x1000 cheatingRdtsc⟩

theorem cheats_clock : Cheats 0x1000 clock 1 :=
  ⟨holds_placed (by decide), iff_of_false (by decide) (by decide)⟩

theorem atCheat_clock : AtCheat 0x1000 clock := ⟨rfl, disjoint_span (by decide) (by decide)⟩

theorem cheatingRdtsc_refines_sample :
    ∃ t, [1234] = results cheat [(1234 : Word)].length 1 ∧
      (AtCheat 0x1000 t → ∃ u, (∀ turns, 7 ≤ turns → call turns t = .ok u) ∧ Returned t u ∧
        u.regs .eax = (cheat (after cheat [(1234 : Word)].length 1)).1 ∧
        Set.EqOn u.mem t.mem (span nonsuspiciousSlot 4)ᶜ) := by
  have hapart : Disjoint (span 0x1000 cheatingRdtsc.length) (span nonsuspiciousSlot 4) :=
    disjoint_span (by decide) (by decide)
  obtain ⟨t, hcall, -, heax, -⟩ := call_cheat hapart cheats_clock atCheat_clock
  exact ⟨t, cheatingRdtsc_refines hapart cheats_clock
    (.called .start ⟨atCheat_clock, heax, 7, hcall 7 (Nat.le_refl 7)⟩)⟩

end I386

end Checklib
