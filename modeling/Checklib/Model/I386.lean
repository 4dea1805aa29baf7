import Checklib.Common.Session
import Checklib.Common.While
import Checklib.Common.Words

/-!
# The processor the replacements run on

A test may replace a function of its program by one of the pieces of
machine code in `replacements/`. They are read here as the processor reads
them: from the bytes at the instruction pointer. The instructions are those
the replacements consist of, in all their forms but those with an index
register; of the flags there is the one they read. All of memory can be
read, written and run.
-/

namespace Checklib

namespace I386

open Common

/-! ## Instructions -/

/-- The registers, in the order of their encoding. -/
inductive Reg where
  | eax
  | ecx
  | edx
  | ebx
  | esp
  | ebp
  | esi
  | edi
  deriving DecidableEq, Repr

/-- A register by its number. -/
def Reg.ofBits (b : BitVec 3) : Reg :=
  match b.toNat with
  | 0 => .eax
  | 1 => .ecx
  | 2 => .edx
  | 3 => .ebx
  | 4 => .esp
  | 5 => .ebp
  | 6 => .esi
  | _ => .edi

/-- A register, or a word in memory. -/
inductive Operand where
  | reg (r : Reg)
  | mem (base : Option Reg) (disp : Word)
  deriving DecidableEq, Repr

/-- An instruction. A jump is relative to the instruction behind it. -/
inductive Instr where
  | nop
  | ret
  | int (vector : Byte)
  | je (rel : Word)
  | mov (dst : Operand) (imm : Word)
  | cmp (dst : Operand) (imm : Word)
  | add (dst : Operand) (imm : Word)
  | xor (dst : Operand) (src : Reg)
  | load (dst : Reg) (src : Operand)
  | movsbl (dst : Reg) (base : Option Reg) (disp : Word)
  deriving DecidableEq, Repr

/-! ## Decoding -/

variable (b : ℕ → Byte) (k : ℕ)

/-- An immediate of four bytes. -/
def imm32 : Word := b (k + 3) ++ b (k + 2) ++ b (k + 1) ++ b k

/-- An immediate of one byte. -/
def imm8 : Word := (b k).signExtend 32

/-- The middle bits of a ModRM byte, which hold a register or tell
instructions apart. -/
def field : BitVec 3 := (b k).extractLsb' 3 3

/-- The operand of the ModRM byte at `k`, and where it ends. -/
def modRM : Option (Operand × ℕ) :=
  let mode := ((b k).extractLsb' 6 2).toNat
  let rm := Reg.ofBits ((b k).extractLsb' 0 3)
  if mode = 3 then some (.reg rm, k + 1)
  else if rm = .esp then none
  else if mode = 0 then
    if rm = .ebp then some (.mem none (imm32 b (k + 1)), k + 5)
    else some (.mem (some rm) 0, k + 1)
  else if mode = 1 then some (.mem (some rm) (imm8 b (k + 1)), k + 2)
  else some (.mem (some rm) (imm32 b (k + 1)), k + 5)

/-- The arithmetic with an immediate. -/
def arithmetic (dst : Operand) (imm : Word) : ℕ → Option Instr
  | 0 => some (.add dst imm)
  | 7 => some (.cmp dst imm)
  | _ => none

/-- **The instruction that starts with these bytes**, and its length. -/
def decode : Option (Instr × ℕ) :=
  match (b 0).toNat with
  | 0x0f =>
    if b 1 = 0xbe then do
      match ← modRM b 2 with
      | (.mem base disp, k) => some (.movsbl (.ofBits (field b 2)) base disp, k)
      | (.reg _, _) => none
    else none
  | 0x31 => do
    let (dst, k) ← modRM b 1
    return (.xor dst (.ofBits (field b 1)), k)
  | 0x74 => some (.je (imm8 b 1), 2)
  | 0x81 => do
    let (dst, k) ← modRM b 1
    let i ← arithmetic dst (imm32 b k) (field b 1).toNat
    return (i, k + 4)
  | 0x83 => do
    let (dst, k) ← modRM b 1
    let i ← arithmetic dst (imm8 b k) (field b 1).toNat
    return (i, k + 1)
  | 0x8b => do
    let (src, k) ← modRM b 1
    return (.load (.ofBits (field b 1)) src, k)
  | 0x90 => some (.nop, 1)
  | 0xc3 => some (.ret, 1)
  | 0xc7 =>
    if field b 1 = 0 then do
      let (dst, k) ← modRM b 1
      return (.mov dst (imm32 b k), k + 4)
    else none
  | 0xcc => some (.int 3, 1)
  | 0xcd => some (.int (b 1), 2)
  | op =>
    if 0xb8 ≤ op ∧ op ≤ 0xbf then
      some (.mov (.reg (.ofBits ((b 0).extractLsb' 0 3))) (imm32 b 1), 5)
    else none

/-! ## Execution -/

/-- **The state of the processor**, and the memory. -/
structure State where
  regs : Reg → Word
  eip : Word
  zf : Bool
  mem : Word → Byte

/-- Why execution leaves the program: an interrupt, bytes that are none of
the instructions, or no more turns. -/
inductive Stop where
  | interrupt (vector : Byte) (s : State)
  | undecoded
  | stuck

namespace State

variable (s : State)

def set (r : Reg) (v : Word) : State := { s with regs := Function.update s.regs r v }

def address : Option Reg → Word → Word
  | none, disp => disp
  | some r, disp => s.regs r + disp

def get : Operand → Word
  | .reg r => s.regs r
  | .mem base disp => read32 s.mem (s.address base disp)

def put (v : Word) : Operand → State
  | .reg r => s.set r v
  | .mem base disp => { s with mem := write32 s.mem (s.address base disp) v }

end State

/-- What an instruction does, once the pointer is past it. -/
def exec (s : State) : Instr → Except Stop State
  | .nop => .ok s
  | .ret => .ok { s.set .esp (s.regs .esp + 4) with eip := read32 s.mem (s.regs .esp) }
  | .int vector => .error (.interrupt vector s)
  | .je rel => .ok (if s.zf then { s with eip := s.eip + rel } else s)
  | .mov dst imm => .ok (s.put imm dst)
  | .cmp dst imm => .ok { s with zf := s.get dst - imm == 0 }
  | .add dst imm =>
    let v := s.get dst + imm
    .ok { s.put v dst with zf := v == 0 }
  | .xor dst src =>
    let v := s.get dst ^^^ s.regs src
    .ok { s.put v dst with zf := v == 0 }
  | .load dst src => .ok (s.set dst (s.get src))
  | .movsbl dst base disp => .ok (s.set dst ((s.mem (s.address base disp)).signExtend 32))

/-- **A step**: fetch, decode, execute. -/
def step (s : State) : Except Stop State :=
  match decode fun j => s.mem (s.eip + BitVec.ofNat 32 j) with
  | none => .error .undecoded
  | some (i, n) => exec { s with eip := s.eip + BitVec.ofNat 32 n } i

/-- One turn of a call, which is over when the stack is down to `top`. -/
def callTurn (top : Word) (s : State) : Except Stop (State ⊕ State) := do
  if s.regs .esp = top then return .inr s
  return .inl (← step s)

/-- **A call**, from where the caller has pushed the return address and
jumped, to where that address has been taken off the stack again. -/
def call (turns : ℕ) (s : State) : Except Stop State :=
  loop .stuck (callTurn (s.regs .esp + 4)) turns s

/-! ## The replacements -/

/-- `cheating_rdtsc.bin` -/
def cheatingRdtsc : List Byte :=
  [0xb8, 0x39, 0x30, 0x00, 0x00, 0x81, 0x3d, 0xfc, 0x3f, 0x01, 0xa8, 0x17, 0x13, 0x09, 0x90, 0x74,
    0x0f, 0xc7, 0x05, 0xfc, 0x3f, 0x01, 0xa8, 0x17, 0x13, 0x09, 0x90, 0xb8, 0xd2, 0x04, 0x00, 0x00,
    0xc3]

/-- `nonsuspicious_slot` -/
def nonsuspiciousSlot : Word := 0xa8013ffc

/-- `magic` -/
def magic : Word := 0x90091317

/-- **`cheat()` of `cheating_rdtsc.source.c`**, with its static `first`. -/
def cheat (first : Word) : Word × Word :=
  if first ≠ 0 then (1234, 0) else (12345, first)

/-- The characters at `string`. -/
def heisenberg : List Byte := [0x48, 0x65, 0x69, 0x73, 0x65, 0x6e, 0x62, 0x65, 0x72, 0x67]

/-- The code of `mock_simulated_getc_nodata` behind its slide. -/
def mockBody : List Byte :=
  [0x83, 0x40, 0x08, 0x01, 0x8b, 0x48, 0x08, 0x0f, 0xbe, 0x81, 0x8e, 0x00, 0x00, 0x00, 0xc3]

/-- `mock_simulated_getc_nodata.bin` -/
def mockSimulatedGetc : List Byte :=
  List.replicate 128 0x90 ++ (mockBody ++ (heisenberg ++ List.replicate 118 0xff))

/-- `exit123.bin` -/
def exit123 : List Byte :=
  [0xb8, 0x01, 0x00, 0x00, 0x00, 0xbb, 0x7b, 0x00, 0x00, 0x00, 0xcd, 0x80, 0xcc]

/-- `return0.bin` -/
def return0 : List Byte := [0x31, 0xc0, 0x31, 0xd2, 0xc3]

end I386

end Checklib
