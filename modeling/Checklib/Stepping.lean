import Checklib.Model.I386

/-!
# Reading machine code

A piece of code runs wherever its bytes are. An instruction is decoded from
its own bytes, so that what a listing says of the code holds of any memory
that has the code somewhere; and a step there does what the listing's
instruction does.
-/

namespace Checklib

namespace I386

open Common

/-! ## What decoding reads -/

section Decoding

variable {b b' : ℕ → Byte} {k n : ℕ}

theorem imm32_congr (h : ∀ j < n, b' j = b j) (hk : k + 4 ≤ n) : imm32 b' k = imm32 b k := by
  unfold imm32
  rw [h _ (by omega), h _ (by omega), h _ (by omega), h _ (by omega)]

theorem imm8_congr (h : ∀ j < n, b' j = b j) (hk : k < n) : imm8 b' k = imm8 b k := by
  unfold imm8
  rw [h k hk]

theorem field_congr (h : ∀ j < n, b' j = b j) (hk : k < n) : field b' k = field b k := by
  unfold field
  rw [h k hk]

/-- A ModRM byte's operand ends behind it. -/
theorem lt_of_modRM {o : Operand} (h : modRM b k = some (o, n)) : k < n := by
  simp only [modRM] at h
  split_ifs at h <;> cases h <;> omega

/-- **An operand is read from its own bytes.** -/
theorem modRM_congr {o : Operand} (h : modRM b k = some (o, n)) (hb : ∀ j < n, b' j = b j) :
    modRM b' k = some (o, n) := by
  have hk : b' k = b k := hb k (lt_of_modRM h)
  simp only [modRM, hk] at h ⊢
  split_ifs at h ⊢ <;> cases h
  · rfl
  · rw [imm32_congr hb (Nat.le_refl _)]
  · rfl
  · rw [imm8_congr hb (Nat.lt_succ_self _)]
  · rw [imm32_congr hb (Nat.le_refl _)]

/-- What an operand is read from, in an instruction that has one. -/
theorem modRM_bind_congr {f f' : Operand × ℕ → Option (Instr × ℕ)} {i : Instr}
    (h : modRM b k >>= f = some (i, n)) (hb : ∀ j < n, b' j = b j)
    (hf : ∀ o k', k < k' → f (o, k') = some (i, n) → k' ≤ n ∧ f' (o, k') = some (i, n)) :
    modRM b' k >>= f' = some (i, n) := by
  obtain ⟨⟨o, k'⟩, hmod, hrest⟩ := Option.bind_eq_some_iff.1 h
  obtain ⟨hk', hrest'⟩ := hf o k' (lt_of_modRM hmod) hrest
  rw [modRM_congr hmod fun j hj => hb j (hj.trans_le hk')]
  exact hrest'

/-- What reads an operand at `k` is longer than that. -/
theorem lt_of_modRM_bind {f : Operand × ℕ → Option (Instr × ℕ)} {i : Instr}
    (h : modRM b k >>= f = some (i, n)) (hf : ∀ o k', f (o, k') = some (i, n) → k' ≤ n) :
    k < n := by
  obtain ⟨⟨o, k'⟩, hmod, hrest⟩ := Option.bind_eq_some_iff.1 h
  exact (lt_of_modRM hmod).trans_le (hf o k' hrest)

/-- The arithmetic's immediate does not depend on which of it it is. -/
theorem arithmetic_bind {dst : Operand} {imm : Word} {op k' : ℕ} {i : Instr}
    (h : (arithmetic dst imm op >>= fun i => pure (i, k')) = some (i, n)) : k' = n := by
  obtain ⟨_, -, hrest⟩ := Option.bind_eq_some_iff.1 h
  cases hrest
  rfl

/-- An instruction has a byte. -/
theorem pos_of_decode {i : Instr} (h : decode b = some (i, n)) : 0 < n := by
  unfold decode at h
  split at h
  case h_1 =>
    split_ifs at h
    refine (lt_of_modRM_bind h fun o k' ho => ?_).trans' (by decide)
    cases o <;> cases ho
    exact Nat.le_refl _
  case h_2 | h_6 =>
    refine (lt_of_modRM_bind h fun o k' ho => ?_).trans' (by decide)
    cases ho
    exact Nat.le_refl _
  case h_4 | h_5 =>
    refine (lt_of_modRM_bind h fun o k' ho => ?_).trans' (by decide)
    exact (Nat.le_add_right k' _).trans_eq (arithmetic_bind ho)
  case h_9 =>
    split_ifs at h
    refine (lt_of_modRM_bind h fun o k' ho => ?_).trans' (by decide)
    cases ho
    exact Nat.le_add_right _ _
  case h_12 =>
    split_ifs at h
    cases h
    decide
  all_goals
    cases h
    decide

/-- **An instruction is read from its own bytes**, whatever follows. -/
theorem decode_congr {i : Instr} (h : decode b = some (i, n)) (hb : ∀ j < n, b' j = b j) :
    decode b' = some (i, n) := by
  have h₀ : b' 0 = b 0 := hb 0 (pos_of_decode h)
  unfold decode at h ⊢
  rw [h₀]
  split at h
  case h_1 =>
    split_ifs at h with hop
    have hlt : 2 < n := lt_of_modRM_bind h fun o k' ho => by
      cases o <;> cases ho
      exact Nat.le_refl _
    rw [if_pos ((hb 1 (by omega)).trans hop)]
    refine modRM_bind_congr h hb fun o k' _ ho => ?_
    cases o <;> cases ho
    refine ⟨Nat.le_refl _, ?_⟩
    rw [field_congr hb hlt]
  case h_2 | h_6 =>
    refine modRM_bind_congr h hb fun o k' hk' ho => ?_
    cases ho
    refine ⟨Nat.le_refl _, ?_⟩
    rw [field_congr hb hk']
    rfl
  case h_4 =>
    refine modRM_bind_congr h hb fun o k' hk' ho => ?_
    obtain rfl := arithmetic_bind ho
    refine ⟨Nat.le_add_right _ _, ?_⟩
    show (arithmetic o (imm32 b' k') (field b' 1).toNat >>= fun i => pure (i, k' + 4)) = _
    rw [field_congr hb (by omega), imm32_congr hb (Nat.le_refl _)]
    exact ho
  case h_5 =>
    refine modRM_bind_congr h hb fun o k' hk' ho => ?_
    obtain rfl := arithmetic_bind ho
    refine ⟨Nat.le_add_right _ _, ?_⟩
    show (arithmetic o (imm8 b' k') (field b' 1).toNat >>= fun i => pure (i, k' + 1)) = _
    rw [field_congr hb (by omega), imm8_congr hb (Nat.lt_succ_self _)]
    exact ho
  case h_9 =>
    split_ifs at h with hop
    have hlt : 1 < n := lt_of_modRM_bind h fun o k' ho => by
      cases ho
      exact Nat.le_add_right _ _
    rw [if_pos ((field_congr hb hlt).trans hop)]
    refine modRM_bind_congr h hb fun o k' _ ho => ?_
    cases ho
    refine ⟨Nat.le_add_right _ _, ?_⟩
    show some (Instr.mov o (imm32 b' k'), k' + 4) = _
    rw [imm32_congr hb (Nat.le_refl _)]
  case h_12 =>
    split_ifs at h with hop
    cases h
    rw [if_pos hop, imm32_congr hb (by decide)]
  case h_3 =>
    cases h
    rw [imm8_congr hb (by decide)]
  case h_11 =>
    cases h
    rw [hb 1 (by decide)]
  all_goals exact h

end Decoding

/-! ## Listings -/

/-- **A listing of a piece of code**: at each offset it names there is the
instruction it gives, of the length it gives. -/
def Lists (code : List Byte) (listing : List (ℕ × Instr × ℕ)) : Prop :=
  ∀ row ∈ listing, row.1 + row.2.2 ≤ code.length ∧
    decode (fun j => code.getD (row.1 + j) 0) = some row.2

instance (code : List Byte) (listing : List (ℕ × Instr × ℕ)) : Decidable (Lists code listing) :=
  inferInstanceAs (Decidable (∀ row ∈ listing, _))

section Stepping

variable {s s' : State} {base top : Word} {code : List Byte} {listing : List (ℕ × Instr × ℕ)}
  {i : Instr} {k n : ℕ} (r : ℕ)

/-- **A step in listed code** executes the listing's instruction. -/
theorem step_of_lists (h : Lists code listing) (hrow : listing[r]? = some (k, i, n))
    (hcode : Holds s.mem base code) (heip : s.eip = base + BitVec.ofNat 32 k) :
    step s = exec { s with eip := base + BitVec.ofNat 32 (k + n) } i := by
  obtain ⟨hlen, hdecode⟩ := h _ (List.mem_of_getElem? hrow)
  have hfetch : decode (fun j => s.mem (s.eip + BitVec.ofNat 32 j)) = some (i, n) := by
    refine decode_congr hdecode fun j hj => ?_
    have hlt : k + j < code.length := by
      have hbound : k + n ≤ code.length := hlen
      omega
    rw [heip, BitVec.add_assoc, ← BitVec.ofNat_add, hcode _ hlt, List.getD_eq_getElem _ _ hlt]
  rw [step, hfetch]
  simp only [heip, BitVec.add_assoc, ← BitVec.ofNat_add]

/-- **A step of a call**, where the call is not over. -/
theorem leads_of_exec (h : Lists code listing) (hrow : listing[r]? = some (k, i, n))
    (hcode : Holds s.mem base code) (heip : s.eip = base + BitVec.ofNat 32 k)
    (htop : s.regs .esp ≠ top)
    (hexec : exec { s with eip := base + BitVec.ofNat 32 (k + n) } i = .ok s') :
    Leads .stuck (callTurn top) 1 s s' := by
  refine leads_of_next ?_
  rw [callTurn, if_neg htop, step_of_lists r h hrow hcode heip, hexec]
  rfl

theorem lists_nop : Lists [0x90] [(0, .nop, 1)] := by decide

/-- **A slide** leads behind itself, by induction on its length. -/
theorem leads_slide {d : ℕ} (hcode : Holds s.mem s.eip (List.replicate d 0x90))
    (htop : s.regs .esp ≠ top) :
    Leads .stuck (callTurn top) d s { s with eip := s.eip + BitVec.ofNat 32 d } := by
  induction d generalizing s with
  | zero =>
    intro turns
    rw [show s.eip + BitVec.ofNat 32 0 = s.eip from BitVec.add_zero _]
    rfl
  | succ d ih =>
    have hentry : s.eip = s.eip + BitVec.ofNat 32 0 := (BitVec.add_zero _).symm
    let next : State := { s with eip := s.eip + BitVec.ofNat 32 1 }
    have hfirst : Holds s.mem s.eip ([0x90] ++ List.replicate d 0x90) := hcode
    have hnext : Leads .stuck (callTurn top) 1 s next :=
      leads_of_exec 0 lists_nop rfl hfirst.left hentry htop rfl
    have hrest : Leads .stuck (callTurn top) d next
        { next with eip := next.eip + BitVec.ofNat 32 d } := ih (hcode.drop 1) htop
    rw [show next.eip + BitVec.ofNat 32 d = s.eip + BitVec.ofNat 32 (d + 1) by
      rw [BitVec.add_assoc, ← BitVec.ofNat_add, Nat.add_comm]] at hrest
    have hboth := hnext.trans hrest
    rwa [Nat.add_comm 1 d] at hboth

end Stepping

/-! ## Calls -/

/-- The registers a function has to leave as they were. -/
def saved : List Reg := [.ebx, .ebp, .esi, .edi]

/-- What a function owes its caller: it returns to the address on the stack,
takes that off, and leaves those registers. -/
structure Returned (s t : State) : Prop where
  eip : t.eip = read32 s.mem (s.regs .esp)
  esp : t.regs .esp = s.regs .esp + 4
  saved : ∀ r ∈ saved, t.regs r = s.regs r

/-- The others may change. -/
theorem update_of_saved {f : Reg → Word} {r' : Reg} (v : Word) (hr' : r' ∉ Reg.esp :: saved) :
    ∀ r ∈ Reg.esp :: saved, Function.update f r' v r = f r := by
  intro r hr
  refine Function.update_of_ne ?_ _ _
  rintro rfl
  exact hr' hr

/-- **A call that comes to its return** has returned, if the code has kept
what the caller is owed, and returns what is in the registers there. -/
theorem call_of_leads {s s' : State} {base : Word} {code : List Byte}
    {listing : List (ℕ × Instr × ℕ)} {k n : ℕ}
    (hleads : Leads .stuck (callTurn (s.regs .esp + 4)) n s s') (r : ℕ) (h : Lists code listing)
    (hrow : listing[r]? = some (k, .ret, 1)) (hcode : Holds s'.mem base code)
    (heip : s'.eip = base + BitVec.ofNat 32 k)
    (hregs : ∀ r ∈ Reg.esp :: saved, s'.regs r = s.regs r)
    (hstack : read32 s'.mem (s.regs .esp) = read32 s.mem (s.regs .esp)) :
    ∃ t, (∀ turns, n + 2 ≤ turns → call turns s = .ok t) ∧ Returned s t ∧
      t.regs = Function.update s'.regs .esp (s.regs .esp + 4) ∧ t.mem = s'.mem := by
  have hesp : s'.regs .esp = s.regs .esp := hregs .esp List.mem_cons_self
  have hne : s'.regs .esp ≠ s.regs .esp + 4 := by
    rw [hesp]
    bv_omega
  let t : State := { s'.set .esp (s'.regs .esp + 4) with eip := read32 s'.mem (s'.regs .esp) }
  have hover : t.regs .esp = s.regs .esp + 4 := by
    rw [← hesp]
    exact Function.update_self Reg.esp _ s'.regs
  have hret : Leads .stuck (callTurn (s.regs .esp + 4)) 1 s' t :=
    leads_of_exec r h hrow hcode heip hne rfl
  have hcall : call (1 + (n + 1)) s = .ok t :=
    ((hleads.trans hret) 1).trans (loop_of_done 0 (if_pos hover))
  refine ⟨t, fun turns henough => loop_mono hcall (by omega), ⟨?_, hover, fun r hr => ?_⟩, ?_, rfl⟩
  · show read32 s'.mem (s'.regs .esp) = _
    rw [hesp, hstack]
  · have hrne : r ≠ .esp := by
      rintro rfl
      exact absurd hr (by decide)
    exact (Function.update_of_ne hrne _ _).trans (hregs r (List.mem_cons_of_mem _ hr))
  · rw [← hesp]
    rfl

/-! ## Two without a memory -/

theorem lists_return0 : Lists return0
    [(0, .xor (.reg .eax) .eax, 2), (2, .xor (.reg .edx) .edx, 2), (4, .ret, 1)] := by decide

/-- **`return0` returns 0**, in as many as eight bytes, and changes nothing
else. -/
theorem call_return0 {s : State} (hcode : Holds s.mem s.eip return0) :
    ∃ t, (∀ turns, 4 ≤ turns → call turns s = .ok t) ∧ Returned s t ∧ t.regs .eax = 0 ∧
      t.regs .edx = 0 ∧ t.mem = s.mem := by
  have htop : s.regs .esp ≠ s.regs .esp + 4 := by bv_omega
  have hentry : s.eip = s.eip + BitVec.ofNat 32 0 := (BitVec.add_zero _).symm
  let zeroed : State :=
    ⟨Function.update (Function.update s.regs .eax 0) .edx 0, s.eip + BitVec.ofNat 32 4, true, s.mem⟩
  have hzeroed : Leads .stuck (callTurn (s.regs .esp + 4)) 2 s zeroed := by
    refine (leads_of_exec 0 lists_return0 rfl hcode hentry htop rfl).trans
      (leads_of_exec 1 lists_return0 rfl hcode rfl htop ?_)
    simp [exec, State.get, State.put, State.set, zeroed]
  have hregs : ∀ r ∈ Reg.esp :: saved, zeroed.regs r = s.regs r := fun r hr =>
    (update_of_saved _ (by decide) r hr).trans (update_of_saved _ (by decide) r hr)
  obtain ⟨t, hcall, hreturned, hregs', hmem⟩ :=
    call_of_leads hzeroed 2 lists_return0 rfl hcode rfl hregs rfl
  refine ⟨t, hcall, hreturned, ?_, ?_, hmem⟩
  · rw [hregs']
    rfl
  · rw [hregs']
    rfl

theorem lists_exit123 : Lists exit123
    [(0, .mov (.reg .eax) 1, 5), (5, .mov (.reg .ebx) 123, 5), (10, .int 0x80, 2),
      (12, .int 3, 1)] := by decide

/-- **`exit123` asks the system to end the program** with status 123, and
has changed nothing in memory. -/
theorem call_exit123 {s : State} (hcode : Holds s.mem s.eip exit123) (turns : ℕ) :
    ∃ t, call (turns + 3) s = .error (.interrupt 0x80 t) ∧ t.regs .eax = 1 ∧ t.regs .ebx = 123 ∧
      t.mem = s.mem := by
  have htop : s.regs .esp ≠ s.regs .esp + 4 := by bv_omega
  have hentry : s.eip = s.eip + BitVec.ofNat 32 0 := (BitVec.add_zero _).symm
  let asked : State := ⟨Function.update (Function.update s.regs .eax 1) .ebx 123,
    s.eip + BitVec.ofNat 32 10, s.zf, s.mem⟩
  have hasked : Leads .stuck (callTurn (s.regs .esp + 4)) 2 s asked :=
    (leads_of_exec 0 lists_exit123 rfl hcode hentry htop rfl).trans
      (leads_of_exec 1 lists_exit123 rfl hcode rfl htop rfl)
  have hstep : step asked = .error (.interrupt 0x80 { asked with eip := s.eip + 12 }) :=
    step_of_lists 2 lists_exit123 rfl hcode rfl
  have hturn : callTurn (s.regs .esp + 4) asked =
      .error (.interrupt 0x80 { asked with eip := s.eip + 12 }) := by
    rw [callTurn, if_neg (show asked.regs .esp ≠ s.regs .esp + 4 from htop), hstep]
    rfl
  exact ⟨_, (hasked (turns + 1)).trans (loop_of_error turns hturn), rfl, rfl, rfl⟩

/-! ## Calls again and again -/

/-- A call, from a state that is ready for it, that returns `r`. -/
def Calls (Ready : State → Prop) (s : State) (r : Word) (t : State) : Prop :=
  Ready s ∧ t.regs .eax = r ∧ ∃ turns, call turns s = .ok t

/-- What the program around a piece of code does between its calls: anything
but change what is kept. -/
def Keeps (kept : Set Word) (s t : State) : Prop := Set.EqOn s.mem t.mem kept

/-- A call returns in one way. -/
theorem call_unique {s t u : State} {n m : ℕ} (h : call n s = .ok t) (h' : call m s = .ok u) :
    t = u := by
  have hboth : call (max n m) s = .ok t := loop_mono h (Nat.le_max_left n m)
  exact Except.ok.inj (hboth.symm.trans (loop_mono h' (Nat.le_max_right n m)))

end I386

end Checklib
