import Checklib.Common.Except
import Checklib.Model.Comparator
import Checklib.Model.Primitives

/-!
# `spec.py`

What a test asks for, and how an answer is scored: the base score from
the relocations, a third of it where relinking does not give the program
back, half of it where the program with replaced sections does not run
as it should. Here too are the parts of `elf.py` that hold files.
-/

namespace Checklib

open Common

/-! ## `BinFile` and `Comparator` -/

/-- **`BinFile`**: an executable, and the relocatable it came from. -/
structure BinFile where
  elf : File
  part : Option File
  linkExtraFlags : List String

/-- `p.with_suffix(suffix)`, as a call. -/
def withSuffixOr (p : Path) (suffix : List Char) : Except PyError Path :=
  match p.withSuffix suffix with
  | some p => .ok p
  | none => .error .invalidSuffix

namespace BinFile

/-- `BinFile.validate`, of a file just built. -/
def validate (bin : BinFile) : Except PyError Unit :=
  match bin.part with
  | none => .ok ()
  | some part => if part.mtime < bin.elf.mtime then .ok () else .error (.assertion "")

/-- **`BinFile.from_relocatable(partial_elf, link_extra_flags)`.** -/
def fromRelocatable (host : Host) (part : File) (linkExtraFlags : ExtraArgs) :
    Except PyError BinFile := do
  let elfPath ← withSuffixOr part.path (part.path.suffix ++ ".elf".toList)
  let (elf, flags) ← linkRelocatable host part elfPath "static" linkExtraFlags
  let res : BinFile := ⟨elf, some part, flags⟩
  res.validate
  return res

/-- **What a linked file is**: where its relocatable's name says, linked from
that, with the flags it was given. -/
theorem of_fromRelocatable {host : Host} {part : File} {extra : ExtraArgs} {bin : BinFile}
    (h : fromRelocatable host part extra = .ok bin) :
    withSuffixOr part.path (part.path.suffix ++ ".elf".toList) = .ok bin.elf.path ∧
      bin.part = some part ∧ bin.linkExtraFlags = extra.flags := by
  obtain ⟨elfPath, hpath, h⟩ := bind_eq_ok_iff.1 h
  obtain ⟨linked, hlink, h⟩ := bind_eq_ok_iff.1 h
  obtain ⟨-, -, h⟩ := bind_eq_ok_iff.1 h
  obtain rfl := Except.ok.inj h
  rw [linkRelocatable, if_pos rfl] at hlink
  obtain ⟨⟨elf, mtime⟩, -, hlink⟩ := bind_eq_ok_iff.1 hlink
  obtain rfl := Except.ok.inj hlink
  exact ⟨hpath, rfl, rfl⟩

/-- `bin.parsed('part')` -/
def parsedPart (bin : BinFile) : Except PyError ElfFile :=
  match bin.part with
  | some part => .ok part.content
  | none => .error (.kindMissing "part")

/-- `bin.parsed('strip')` -/
def parsedStrip (host : Host) (bin : BinFile) : Except PyError ElfFile := do
  let _dst ← withSuffixOr bin.elf.path (bin.elf.path.suffix ++ ".strip".toList)
  host.stripSections bin.elf.content

end BinFile

/-- `Comparator` -/
structure Comparator where
  truth : BinFile
  symbolized : BinFile

namespace Comparator

/-- `c.compare_relocations()` -/
def compareRelocations (host : Host) (c : Comparator) : Except PyError ℚ := do
  let part ← c.symbolized.parsedPart
  Checklib.compareRelocations host.runtime c.truth.elf.content part

/-- `c.compare_segments()` -/
def compareSegments (host : Host) (c : Comparator) : Except PyError Bool := do
  let truth ← c.truth.parsedStrip host
  let symbolized ← c.symbolized.parsedStrip host
  return Checklib.compareSegments truth symbolized

end Comparator

/-! ## `SectionReplacement` -/

/-- `SectionReplacement` -/
structure SectionReplacement where
  binFile : Option String := none
  fromElfSection : Option (String × String) := none
  sectionName : Option String := none
  symbolName : Option String := none
  vaddr : Option ℕ := none
  deriving DecidableEq, Repr

/-- The text, where Python's truth test lets it through. -/
def truthy (s : Option String) : Option String := s.filter (· ≠ "")

/-- `elf.get_section_by_name(name)`: the last section of the name. -/
def ElfFile.getSectionByName (elf : ElfFile) (name : String) : Option Section :=
  elf.sections.reverse.find? (·.name = name)

/-- The search for a symbol, over the symbol tables: a table's first
symbol of the name decides for the table, and is passed over where it is
absolute. -/
def symbolVaddr (name : String) : List Section → Except PyError ℕ
  | [] => .error (.symbolNotFound name)
  | s :: rest =>
    match s.symtab with
    | none => .error (.attributeError "get_symbol_by_name")
    | some t =>
      match t.symbols.find? (·.name = name) with
      | some sym =>
        if sym.stShndx ≠ .special .SHN_ABS then .ok sym.stValue else symbolVaddr name rest
      | none => symbolVaddr name rest

/-- What `objcopy` is told to read: a file that is there, or one the
checker has written. -/
inductive DataFile where
  | path (p : Path)
  | written (bytes : List UInt8)
  deriving DecidableEq, Repr

namespace SectionReplacement

variable (host : Host) (c : Comparator) (r : SectionReplacement)

/-- `get_or_create_bin_file` -/
def getOrCreateBinFile : Except PyError DataFile :=
  match truthy r.binFile with
  | some path => .ok (.path (gitPath host.base path))
  | none =>
    match r.fromElfSection with
    | none => .error .typeError
    | some (path, name) => do
      let path := gitPath host.base path
      let _new ← withSuffixOr path (path.suffix ++ '.' :: name.toList ++ ".bin".toList)
      let elf ← host.loadElf path
      match elf.getSectionByName name with
      | some s => .ok (.written s.data)
      | none => .error (.attributeError "data")

/-- **`get_replaced_section_name`**: the name given, or the section at the
address of the symbol given, or at the address given. -/
def getReplacedSectionName : Except PyError String :=
  match truthy r.sectionName with
  | some name => .ok name
  | none => do
    let vaddr ← match truthy r.symbolName with
      | some name => do
        let vaddr ← symbolVaddr name (c.truth.elf.content.sections.filter (·.shType = .SHT_SYMTAB))
        pure (some vaddr)
      | none => pure r.vaddr
    let part ← c.symbolized.parsedPart
    let found ← findSectionForVaddr host.runtime vaddr part.sections
    return found.name

/-- `replace_section(elf_path, elf_path, section_name, data_file)` -/
def replaceSection (elf : ElfFile) (name : String) (data : DataFile) : Except PyError ElfFile :=
  match data with
  | .written bytes => host.objcopy.updateSection elf name bytes
  | .path p =>
    match host.readBytes p with
    | .ok bytes => host.objcopy.updateSection elf name bytes
    | .error _ => .error (.calledProcess "objcopy")

/-- **`modify_inplace(elf_path, c)`**, on the copy as it is. The table that
goes with the section is looked for, by its name, in the original. -/
def modifyInplace (elf : ElfFile) : Except PyError ElfFile := do
  let dataFile ← r.getOrCreateBinFile host
  let sectionName ← r.getReplacedSectionName host c
  let elf ← replaceSection host elf sectionName dataFile
  let relName := ".rel" ++ sectionName
  let part ← c.symbolized.parsedPart
  match part.getSectionByName relName with
  | some _ => host.objcopy.removeSection elf relName
  | none => .ok elf

end SectionReplacement

/-! ## Running -/

/-- `RunSpec` -/
structure RunSpec where
  exitCode : Option ℤ
  expectedStdout : Option String := none
  stdin : Option String := none
  deriving DecidableEq, Repr

/-- What `compare_output` reports. -/
inductive OutputError where
  /-- "Return code mismatch: {result.returncode} instead of {self.exit_code}" -/
  | returnCode (got expected : ℤ)
  /-- "Stdout mismatch, but the result is a prefix." -/
  | resultIsPrefix
  /-- "Stdout mismatch, but the expected one is a prefix." -/
  | expectedIsPrefix
  /-- "Stdout mismatch." -/
  | stdout
  deriving DecidableEq, Repr

namespace RunSpec

variable (host : Host) (spec : RunSpec)

/-- `self.stdin and Path(self.stdin)` -/
def stdinArg : StdinArg :=
  match spec.stdin with
  | none => .none
  | some s => if s = "" then .emptyText else .path (Path.ofString s)

/-- What is said of the exit code. -/
def checkExitCode (result : CompletedProcess) : List OutputError :=
  match spec.exitCode with
  | some code => if result.returncode ≠ code then [.returnCode result.returncode code] else []
  | none => []

/-- What is said of the output. -/
def checkStdout (data stdout : List UInt8) : List OutputError :=
  if data ≠ stdout then
    if stdout.isPrefixOf data then [.resultIsPrefix]
    else if data.isPrefixOf stdout then [.expectedIsPrefix]
    else [.stdout]
  else []

/-- What `compare_output` makes of a finished run. -/
def judge (result : CompletedProcess) : Except PyError (List OutputError) :=
  match truthy spec.expectedStdout with
  | none => .ok (spec.checkExitCode result)
  | some path => do
    let data ← host.readBytes (gitPath host.base path)
    return spec.checkExitCode result ++ checkStdout data result.stdout

/-- **`compare_output(bin)`**, with what is left on the checker's own
standard input when it is called. -/
def compareOutput (program : Program) (stdin : List UInt8) : Except PyError (List OutputError) := do
  let result ← execute host program spec.stdinArg stdin
  spec.judge host result

end RunSpec

/-! ## Replacing and scoring -/

/-- `ReplacementSpec`; an override is the object file it names. -/
structure ReplacementSpec where
  behavior : RunSpec
  replacements : List SectionReplacement := []
  objOverride : Option String := none
  deriving DecidableEq, Repr

namespace ReplacementSpec

variable (host : Host) (spec : ReplacementSpec) (c : Comparator)

/-- The loop over the replacements, on the copy. -/
def modifyAll (part : ElfFile) : Except PyError ElfFile :=
  spec.replacements.foldlM (fun elf r => r.modifyInplace host c elf) part

/-- **`replace_and_link(c)`.** An override's `prepare` is called with an
argument more than it takes. -/
def replaceAndLink : Except PyError BinFile := do
  let newRel ← withSuffixOr c.symbolized.elf.path ".hax.part".toList
  let linkArgs := c.symbolized.linkExtraFlags
  let part ← c.symbolized.parsedPart
  let patched ← spec.modifyAll host c part
  match spec.objOverride with
  | some _ => .error .typeError
  | none => BinFile.fromRelocatable host ⟨newRel, patched, host.patchedAt patched⟩ (.list linkArgs)

variable {host spec c} in
/-- **A copy that was patched and linked**: of what, where, and with which
flags. -/
theorem exists_of_replaceAndLink {bin : BinFile} (h : spec.replaceAndLink host c = .ok bin) :
    ∃ newRel part patched, withSuffixOr c.symbolized.elf.path ".hax.part".toList = .ok newRel ∧
      c.symbolized.parsedPart = .ok part ∧ spec.modifyAll host c part = .ok patched ∧
      BinFile.fromRelocatable host ⟨newRel, patched, host.patchedAt patched⟩
        (.list c.symbolized.linkExtraFlags) = .ok bin := by
  obtain ⟨newRel, hnewRel, h⟩ := bind_eq_ok_iff.1 h
  obtain ⟨part, hpart, h⟩ := bind_eq_ok_iff.1 h
  obtain ⟨patched, hpatched, h⟩ := bind_eq_ok_iff.1 h
  cases hover : spec.objOverride with
  | some obj =>
    rw [hover] at h
    cases h
  | none =>
    rw [hover] at h
    exact ⟨newRel, part, patched, hnewRel, hpart, hpatched, h⟩

end ReplacementSpec

/-- `link_mode` -/
inductive LinkMode where
  | static
  | dynamic
  deriving DecidableEq, Repr

/-- `TestSpec`, less the fields that only describe how a test was made. -/
structure TestSpec where
  linkMode : LinkMode
  unmodifiedBehavior : RunSpec
  replacement : ReplacementSpec
  deriving DecidableEq, Repr

namespace TestSpec

variable (host : Host) (spec : TestSpec)

/-- `merge_flags` -/
def mergeFlags (extraLdFlags : List String) : Except PyError (List String) :=
  if extraLdFlags = [] then
    .ok (match spec.linkMode with
      | .static => ["static"]
      | .dynamic => [])
  else .error (.assertion "")

/-- `test_validation_sanity_check`; true is a failure, here and below. -/
def testValidationSanityCheck (testBin : BinFile) (stdin : List UInt8) : Except PyError Bool := do
  let errs ← spec.unmodifiedBehavior.compareOutput host (host.behaviour testBin.elf.content) stdin
  return !errs.isEmpty

/-- **`evaluate_relinking`** -/
def evaluateRelinking (c : Comparator) (stdin : List UInt8) : Except PyError Bool := do
  let rebuildFail ← c.compareSegments host
  let errs ← spec.unmodifiedBehavior.compareOutput host
    (host.behaviour c.symbolized.elf.content) stdin
  return rebuildFail || !errs.isEmpty

/-- **`evaluate_replacement`**, whose `except` is around the building and
not around the run. -/
def evaluateReplacement (c : Comparator) (stdin : List UInt8) : Except PyError Bool :=
  match spec.replacement.replaceAndLink host c with
  | .error _ => .ok true
  | .ok newBin => do
    let errs ← spec.replacement.behavior.compareOutput host
      (host.behaviour newBin.elf.content) stdin
    return !errs.isEmpty

/-- The base score, with the errors `except ValueError` takes for zero. -/
def baseScore (c : Comparator) : Except PyError ℚ :=
  match c.compareRelocations host with
  | .ok score => .ok score
  | .error e => if e.IsValueError then .ok 0 else .error e

/-- **`score_symbolization`**: the base score and the two penalties. The
two runs find what `stdin₁` and `stdin₂` are left on the checker's own
standard input. -/
def scoreSymbolization (testBin : BinFile) (symbolized : File) (extraLdFlags : List String)
    (stdin₁ stdin₂ : List UInt8) : Except PyError ℚ := do
  let flags ← spec.mergeFlags extraLdFlags
  let bin ← BinFile.fromRelocatable host symbolized (.list flags)
  let cmp : Comparator := ⟨testBin, bin⟩
  let base ← baseScore host cmp
  let rebuildFail ← spec.evaluateRelinking host cmp stdin₁
  let base := if rebuildFail then base / 3 else base
  let replacementFail ← spec.evaluateReplacement host cmp stdin₂
  let base := if replacementFail then base / 2 else base
  return base

end TestSpec

end Checklib
