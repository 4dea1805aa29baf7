import Mathlib.Data.Nat.Notation

/-!
# ELF files, as the checker reads them

The checker sees an ELF file through a reader library and Python's own
string tables. This file holds what it reads of them: sections, symbols,
relocation entries and segments, the exceptions that reading can raise,
and `Runtime`, the two tables that are the library's and the language's.
-/

namespace Checklib

/-! ## Symbols -/

/-- The section indices the library reports by name. -/
inductive SpecialIndex where
  | SHN_UNDEF
  | SHN_ABS
  | SHN_COMMON
  deriving DecidableEq, Repr

/-- `st_shndx`: a name where the index is special, a number otherwise. -/
inductive Shndx where
  | special (s : SpecialIndex)
  | index (n : ℕ)
  deriving DecidableEq, Repr

/-- `st_info['type']`. -/
inductive SymbolType where
  | STT_NOTYPE
  | STT_OBJECT
  | STT_FUNC
  | STT_SECTION
  | STT_FILE
  | other (n : ℕ)
  deriving DecidableEq, Repr

/-- A symbol table entry. -/
structure Symbol where
  name : String
  stValue : ℕ
  stShndx : Shndx
  stType : SymbolType
  deriving DecidableEq, Repr

/-! ## Relocations -/

/-- A member of `RELOC_TYPE_I386`, by its number. -/
structure RelocType where
  code : ℕ
  deriving DecidableEq, Repr

namespace RelocType

abbrev R_386_32 : RelocType := ⟨1⟩
abbrev R_386_PC32 : RelocType := ⟨2⟩
abbrev R_386_PLT32 : RelocType := ⟨4⟩
abbrev R_386_RELATIVE : RelocType := ⟨8⟩
abbrev R_386_GOTPC : RelocType := ⟨10⟩

end RelocType

/-- An entry of a `SHT_REL` section. -/
structure Rel where
  rOffset : ℕ
  rInfoSym : ℕ
  rInfoType : ℕ
  deriving DecidableEq, Repr

/-- A little-endian number. -/
def fromBytes (bytes : List UInt8) : ℕ :=
  bytes.foldr (fun b acc => b.toNat + 256 * acc) 0

/-- The entries of a relocation table, eight bytes each: the offset, then
`r_info`, whose low byte is the type and whose upper three the symbol. A
trailing partial entry is not read. -/
def parseRels : List UInt8 → List Rel
  | o₀ :: o₁ :: o₂ :: o₃ :: t :: s₀ :: s₁ :: s₂ :: rest =>
    ⟨fromBytes [o₀, o₁, o₂, o₃], fromBytes [s₀, s₁, s₂], t.toNat⟩ :: parseRels rest
  | _ => []

/-! ## Exceptions -/

/-- What `resolve_section_vaddr` is asked on behalf of. -/
inductive Why where
  | relocation (rel : Rel)
  | symbolName (name : String)
  | vaddr (n : ℕ)
  deriving DecidableEq, Repr

/-- **The exceptions the checker can raise**, each with what its message
is formatted from. -/
inductive PyError where
  /-- `AssertionError`, with the assertion's text where it has one. -/
  | assertion (text : String)
  /-- `RuntimeError`: "Relocation {rel} for {section.name} is malformed." -/
  | malformed (rel : Rel) (sectionName : String)
  /-- `ValueError`: the number is not a member of the enumeration. -/
  | notRelocType (code : ℕ)
  /-- `ValueError`: "Cannot resolve virtual address for {why} of {section.name}" -/
  | unresolvable (why : Why) (sectionName : String)
  /-- `ZeroDivisionError`. -/
  | zeroDivision
  /-- `KeyError`: "Symbol {self.symbol_name} not found in {c.truth.elf}" -/
  | symbolNotFound (name : String)
  /-- `IndexError`: "No section matching exactly {vaddr=:#x} found in {self}" -/
  | noSectionAt (vaddr : ℕ)
  /-- `KeyError`: "Kind {on} is not present in {self}" -/
  | kindMissing (on : String)
  /-- `ValueError`: a path without a name has no suffix to replace, and not
  every text is one. -/
  | invalidSuffix
  /-- `ValueError`: "Unknown mode {mode}" -/
  | unknownMode (mode : String)
  /-- `TypeError`. -/
  | typeError
  /-- `AttributeError`. -/
  | attributeError (name : String)
  /-- `FileNotFoundError` and the other ways a file cannot be read. -/
  | osError
  /-- `subprocess.TimeoutExpired`. -/
  | timeoutExpired
  /-- `subprocess.CalledProcessError`. -/
  | calledProcess (tool : String)
  /-- Whatever the reader library raises itself, and whether it is a
  `ValueError`. -/
  | library (isValueError : Bool)
  deriving DecidableEq, Repr

/-- The exceptions `except ValueError` catches. -/
def PyError.IsValueError : PyError → Prop
  | .notRelocType _ => True
  | .unresolvable _ _ => True
  | .invalidSuffix => True
  | .unknownMode _ => True
  | .library b => b = true
  | _ => False

instance : DecidablePred PyError.IsValueError := fun e => by
  cases e <;> unfold PyError.IsValueError <;> infer_instance

/-! ## Sections and files -/

/-- `sh_type`. -/
inductive SectionType where
  | SHT_NULL
  | SHT_PROGBITS
  | SHT_SYMTAB
  | SHT_STRTAB
  | SHT_NOBITS
  | SHT_REL
  | SHT_DYNSYM
  | other (n : ℕ)
  deriving DecidableEq, Repr

/-- `SH_FLAGS.SHF_ALLOC`. -/
abbrev SHF_ALLOC : ℕ := 2

/-- **A symbol table.** Its entries, and what the library makes of the
bytes that follow them: it reads entry `i` without asking whether the
table has one. -/
structure SymbolTable where
  symbols : List Symbol
  past : ℕ → Except PyError Symbol

namespace SymbolTable

/-- `symtab.num_symbols()`. -/
def numSymbols (t : SymbolTable) : ℕ := t.symbols.length

/-- `symtab.get_symbol(i)`. -/
def getSymbol (t : SymbolTable) (i : ℕ) : Except PyError Symbol :=
  match t.symbols[i]? with
  | some s => .ok s
  | none => t.past i

end SymbolTable

/-- A section: its header, its bytes, and its table of symbols where it
is one. -/
structure Section where
  name : String
  shType : SectionType
  shFlags : ℕ := 0
  shAddr : ℕ := 0
  shInfo : ℕ := 0
  shLink : ℕ := 0
  shSize : ℕ := 0
  data : List UInt8 := []
  symtab : Option SymbolTable := none

/-- `section.iter_relocations()`. -/
def Section.rels (s : Section) : List Rel := parseRels s.data

/-- `p_type`. -/
inductive SegmentType where
  | PT_LOAD
  | other (n : ℕ)
  deriving DecidableEq, Repr

/-- A program header and the bytes it loads. -/
structure Segment where
  pType : SegmentType
  pOffset : ℕ
  pVaddr : ℕ
  pPaddr : ℕ
  pFilesz : ℕ
  pMemsz : ℕ
  data : List UInt8
  deriving DecidableEq, Repr

/-- `e_type`. -/
inductive ElfType where
  | ET_REL
  | ET_EXEC
  | other (n : ℕ)
  deriving DecidableEq, Repr

/-- **A parsed file.** Like a symbol table, the section table answers for
indices it does not have. -/
structure ElfFile where
  eType : ElfType
  sections : List Section
  segments : List Segment
  pastSection : ℕ → Except PyError Section

/-- `elf.get_section(n)`. -/
def ElfFile.getSection (f : ElfFile) (n : ℕ) : Except PyError Section :=
  match f.sections[n]? with
  | some s => .ok s
  | none => f.pastSection n

theorem ElfFile.getSection_of_getElem? {f : ElfFile} {n : ℕ} {s : Section}
    (h : f.sections[n]? = some s) : f.getSection n = .ok s := by
  rw [getSection, h]

/-- What the library reads past the end of a table here: nothing it can
make sense of. -/
def pastEnd {α : Type} (_ : ℕ) : Except PyError α := .error (.library false)

/-- A file of the given sections, after the null one. -/
def ElfFile.ofSections (eType : ElfType) (sections : List Section) : ElfFile where
  eType := eType
  sections := { name := "", shType := .SHT_NULL } :: sections
  segments := []
  pastSection := pastEnd

/-- A symbol table of the given symbols, after the null one. -/
def Section.ofSymbols (symbols : List Symbol) : Section where
  name := ".symtab"
  shType := .SHT_SYMTAB
  symtab := some ⟨⟨"", 0, .special .SHN_UNDEF, .STT_NOTYPE⟩ :: symbols, pastEnd⟩

/-! ## The language's tables and the library's -/

/-- **What the checker takes from Python and from the reader library**:
the Unicode tables behind `\w`, `\d` and `int`, and which numbers are
relocation types. Both agree with what the checker relies on: the ASCII
rows are the usual ones, and the types it names are members. -/
structure Runtime where
  /-- The characters `\w` matches. -/
  isWord : Char → Bool
  /-- The value of a decimal digit; `\d` matches the characters that have one. -/
  decimal : Char → Option ℕ
  /-- The values of `ENUM_RELOC_TYPE_i386`. -/
  isRelocType : ℕ → Bool
  isWord_ascii : ∀ c : Char, c.toNat < 128 → isWord c = (c.isAlphanum || c == '_')
  decimal_ascii : ∀ c : Char, c.toNat < 128 →
    decimal c = if c.isDigit then some (c.toNat - '0'.toNat) else none
  isRelocType_named : ∀ t ∈ [RelocType.R_386_PC32, .R_386_PLT32, .R_386_RELATIVE, .R_386_GOTPC],
    isRelocType t.code = true

/-- `RELOC_TYPE_I386(code)`. -/
def Runtime.relocType (rt : Runtime) (code : ℕ) : Except PyError RelocType :=
  if rt.isRelocType code then .ok ⟨code⟩ else .error (.notRelocType code)

theorem Runtime.relocType_eq_ok_iff {rt : Runtime} {code : ℕ} {t : RelocType} :
    rt.relocType code = .ok t ↔ rt.isRelocType code = true ∧ t = ⟨code⟩ := by
  unfold relocType
  split
  · next h => simp only [Except.ok.injEq, h, true_and, eq_comm]
  · next h => simp only [reduceCtorEq, h, false_and]

/-- The ASCII rows alone, and the types of the i386 supplement: no others
are needed to read what the checker itself writes. -/
def Runtime.ascii : Runtime where
  isWord c := c.isAlphanum || c == '_'
  decimal c := if c.isDigit then some (c.toNat - '0'.toNat) else none
  isRelocType n := n ≤ 11 || (14 ≤ n && n ≤ 37) || (39 ≤ n && n ≤ 42)
  isWord_ascii _ _ := rfl
  decimal_ascii _ _ := rfl
  isRelocType_named := by decide

end Checklib
