import Checklib.Model.Elf
import Checklib.Common.Backtrack

/-!
# `elf.py`: what is read out of a file

`resolve_section_vaddr` recovers an address from a section's header or
name, `iter_relocations` lists a file's relocations, with one body for an
executable and another for a relocatable file, `find_section_for_vaddr`
looks a section up by its address, and `get_main_segments` sorts program
headers into three slots.
-/

namespace Checklib

open Common

/-! ## Addresses from section names -/

variable (rt : Runtime)

/-- The characters `[\w\d.]` matches. -/
def isKindChar (c : Char) : Bool := rt.isWord c || (rt.decimal c).isSome || c == '.'

/-- The characters `[\da-fA-F]` matches. -/
def isHexDigit (c : Char) : Bool :=
  (rt.decimal c).isSome || ('a' ≤ c && c ≤ 'f') || ('A' ≤ c && c ≤ 'F')

/-- `re.match(r'\.[\w\d.]+\.([\da-fA-F]{8})\w?', name)`, as its group 1. -/
def matchName (name : List Char) : Option (List Char) :=
  Backtrack.one (· == '.')
    (Backtrack.plus (isKindChar rt)
      (Backtrack.one (· == '.')
        (Backtrack.group (isHexDigit rt) 8 fun digits =>
          Backtrack.opt rt.isWord fun _ => some digits))) name

/-- The value of one digit to `int`. -/
def hexDigit (c : Char) : ℕ :=
  match rt.decimal c with
  | some d => d
  | none => if 'a' ≤ c ∧ c ≤ 'f' then c.toNat - 'a'.toNat + 10 else c.toNat - 'A'.toNat + 10

/-- `int(digits, 16)`. -/
def hexValue (digits : List Char) : ℕ :=
  digits.foldl (fun acc c => 16 * acc + hexDigit rt c) 0

/-- **`BinFile.resolve_section_vaddr(why, section)`.** -/
def resolveSectionVaddr (why : Why) (s : Section) : Except PyError ℕ :=
  if s.shAddr ≠ 0 then .ok s.shAddr
  else match matchName rt s.name.toList with
    | some digits => .ok (hexValue rt digits)
    | none => .error (.unresolvable why s.name)

/-- **`BinFile.find_section_for_vaddr`**, over the sections of the file.
The address is `None` where a replacement names nothing at all, and then
only the message fails to format. -/
def findSectionForVaddr (vaddr : Option ℕ) : List Section → Except PyError Section
  | [] => match vaddr with
    | some n => .error (.noSectionAt n)
    | none => .error .typeError
  | s :: rest =>
    if s.shFlags &&& SHF_ALLOC = 0 then findSectionForVaddr vaddr rest
    else match resolveSectionVaddr rt (.vaddr (vaddr.getD 0)) s with
      | .ok found => if some found = vaddr then .ok s else findSectionForVaddr vaddr rest
      | .error e => if e.IsValueError then findSectionForVaddr vaddr rest else .error e

/-! ## Relocations -/

/-- A relocation of an executable. -/
structure ExecReloc where
  vaddr : ℕ
  value : ℕ
  type_ : RelocType
  symbol : Symbol
  deriving DecidableEq, Repr

/-- `int | str`: an address, or the name of a special section index. -/
inductive Value where
  | int (n : ℕ)
  | str (s : SpecialIndex)
  deriving DecidableEq, Repr

/-- A relocation of a relocatable file. -/
structure RelReloc where
  vaddr : ℕ
  value : Value
  type_ : RelocType
  symbol : Symbol
  deriving DecidableEq, Repr

/-- The symbol an entry refers to. The index is checked against the
table's length, and the table's length is itself let through. -/
def relSymbol (sec symtab : Section) (rel : Rel) : Except PyError Symbol :=
  match symtab.symtab with
  | none => .error (.attributeError "num_symbols")
  | some t =>
    if rel.rInfoSym > t.numSymbols then .error (.malformed rel sec.name)
    else t.getSymbol rel.rInfoSym

/-- What the loop yields `on == 'elf'`. -/
def execReloc (elf : ElfFile) (_sec : Section) (rel : Rel) (symbol : Symbol)
    (type_ : RelocType) : Except PyError ExecReloc :=
  if elf.eType = .ET_EXEC then .ok ⟨rel.rOffset, symbol.stValue, type_, symbol⟩
  else .error (.assertion "")

/-- What a relocation's symbol refers to in a relocatable file. -/
def relTarget (elf : ElfFile) (symbol : Symbol) : Except PyError Value :=
  match symbol.stShndx with
  | .special .SHN_ABS => .ok (.int symbol.stValue)
  | .special s => .ok (.str s)
  | .index n => do
    let target ← elf.getSection n
    let targetVaddr ← resolveSectionVaddr rt (.symbolName symbol.name) target
    return .int (symbol.stValue + targetVaddr)

/-- What the loop yields `on == 'part'`. -/
def relReloc (elf : ElfFile) (sec : Section) (rel : Rel) (symbol : Symbol)
    (type_ : RelocType) : Except PyError RelReloc :=
  if elf.eType = .ET_REL then do
    let sectionVaddr ← resolveSectionVaddr rt (.relocation rel) sec
    let target ← relTarget rt elf symbol
    return ⟨sectionVaddr + rel.rOffset, target, type_, symbol⟩
  else .error (.assertion "")

/-- What the loop does for one entry: find its symbol and its type, then
yield what the file's kind asks for. -/
def iterEntry {ρ : Type} (emit : Section → Rel → Symbol → RelocType → Except PyError ρ)
    (sec symtab : Section) (rel : Rel) : Except PyError ρ := do
  let symbol ← relSymbol sec symtab rel
  let type_ ← rt.relocType rel.rInfoType
  emit sec rel symbol type_

/-- What the loop does for one relocation section. -/
def iterTable {ρ : Type} (emit : Section → Rel → Symbol → RelocType → Except PyError ρ)
    (elf : ElfFile) (shRel : Section) : Except PyError (List ρ) := do
  let sec ← elf.getSection shRel.shInfo
  let symtab ← elf.getSection shRel.shLink
  shRel.rels.mapM (iterEntry rt emit sec symtab)

/-- `elf.iter_sections('SHT_REL')`. -/
def ElfFile.relSections (elf : ElfFile) : List Section :=
  elf.sections.filter (·.shType = .SHT_REL)

/-- **`BinFile.iter_relocations`**, run to its end: the tables in file
order, and in a table its entries. -/
def iterRelocations {ρ : Type} (emit : Section → Rel → Symbol → RelocType → Except PyError ρ)
    (elf : ElfFile) : Except PyError (List ρ) := do
  let tables ← elf.relSections.mapM (iterTable rt emit elf)
  return tables.flatten

/-- `iter_relocations('elf')` -/
def iterRelocationsElf (elf : ElfFile) : Except PyError (List ExecReloc) :=
  iterRelocations rt (execReloc elf) elf

/-- `iter_relocations('part')` -/
def iterRelocationsPart (elf : ElfFile) : Except PyError (List RelReloc) :=
  iterRelocations rt (relReloc rt elf) elf

/-! ## Segments -/

/-- `MainSegments`: one segment, or none, to a slot. -/
structure MainSegments where
  text : Option Segment := none
  data : Option Segment := none
  bss : Option Segment := none
  deriving DecidableEq, Repr

/-- Where the loop of `get_main_segments` puts a segment. One that fits no
slot is warned about and ignored; one whose slot is taken takes it over. -/
def MainSegments.put (slots : MainSegments) (segment : Segment) : MainSegments :=
  if segment.pFilesz = 0 then { slots with bss := some segment }
  else if segment.pVaddr = 0x40030000 then { slots with text := some segment }
  else if segment.pVaddr = 0xa800a000 ∧ segment.pVaddr ≠ segment.pPaddr then
    { slots with data := some segment }
  else slots

/-- **`BinFile.get_main_segments`**, on the stripped file. -/
def getMainSegments (stripped : ElfFile) : MainSegments :=
  (stripped.segments.filter (·.pType = .PT_LOAD)).foldl MainSegments.put {}

end Checklib
