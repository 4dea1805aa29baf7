import Checklib.Common.Trial
import Checklib.Model.Spec
import Mathlib.Logic.Function.Basic

/-!
# A check, file by file

`Model/Spec.lean` hands contents from one step to the next. The checker
hands paths: each step reads the files it is told of as they are by then,
and writes its own. `BinFile` remembers besides what it has stripped and
parsed, and does neither twice. Here the same functions are read with a
disk and those memories, up to the two subcommands of `check.py`.
-/

namespace Checklib

open Common Trial

/-! ## The disk -/

/-- What the run has put at a path. -/
inductive Written where
  | elf (f : ElfFile) (mtime : ℕ)
  | bytes (data : List UInt8)

/-- **The host, and what is on its disk before the run.** -/
structure Machine extends Host where
  /-- `path.exists()` -/
  present : Path → Bool
  /-- `path.stat().st_mtime` -/
  mtime : Path → ℕ
  /-- The bytes of an ELF file, and what the reader library makes of bytes. -/
  render : ElfFile → List UInt8
  parse : List UInt8 → Except PyError ElfFile
  /-- `objcopy` with the flags of a level other than `strip`, and when a
  stripped copy has been written. -/
  stripWith : List Arg → ElfFile → Except PyError Written
  strippedAt : ElfFile → ℕ
  /-- What the symbolizer makes of a stripped file and its arguments. -/
  symbolizer : List String → Written → Except PyError Written

/-- `on` -/
inductive Kind where
  | elf
  | part
  | strip
  deriving DecidableEq, Repr

/-- The `BinFile` objects of a run. -/
inductive Side where
  | truth
  | symbolized
  | replaced
  deriving DecidableEq, Repr

/-- What a `BinFile` remembers: `_stripped` and `_parsed`. -/
structure Cache where
  stripped : Option Path := none
  parsed : Kind → Option ElfFile := fun _ => none

/-- **The state of a run**: what it has written, and what it remembers. -/
structure World where
  written : Path → Option Written
  cache : Side → Cache

/-- A computation of the checker. -/
abbrev Run := Trial PyError World

namespace World

variable (m : Machine) (w : World)

/-- `ELFFile.load_from_path(path)` -/
def load (p : Path) : Except PyError ElfFile :=
  match w.written p with
  | some (.elf f _) => .ok f
  | some (.bytes data) => m.parse data
  | none => m.loadElf p

/-- `path.read_bytes()` -/
def readBytes (p : Path) : Except PyError (List UInt8) :=
  match w.written p with
  | some (.elf f _) => .ok (m.render f)
  | some (.bytes data) => .ok data
  | none => m.readBytes p

/-- A file, to be copied or handed on. -/
def contents (p : Path) : Except PyError Written :=
  match w.written p with
  | some x => .ok x
  | none => do
    let f ← m.loadElf p
    return .elf f (m.mtime p)

/-- `path.exists()` -/
def present (p : Path) : Bool := (w.written p).isSome || m.present p

/-- `path.stat().st_mtime`; nothing asks it of a file of bytes. -/
def mtime (p : Path) : ℕ :=
  match w.written p with
  | some (.elf _ t) => t
  | some (.bytes _) => 0
  | none => m.mtime p

/-- The host as the run finds it by now. -/
def host : Host := { m.toHost with readBytes := w.readBytes m, loadElf := w.load m }

/-- A path written. -/
def write (p : Path) (x : Written) : World :=
  { w with written := Function.update w.written p (some x) }

/-- A `BinFile` remembering something else. -/
def remember (side : Side) (c : Cache) : World :=
  { w with cache := Function.update w.cache side c }

end World

/-! ## `primitives.py` -/

/-- The keys of `STRIP_LEVEL_FLAGS`. -/
inductive Level where
  | binary
  | strip
  | sections
  | functionSymbols
  | symbols
  | addRelocations
  deriving DecidableEq, Repr

/-- `['-R', '.rel.*', '-R', '!.rel.dyn']` -/
def symbolsFlags : List Arg := [.str "-R", .str ".rel.*", .str "-R", .str "!.rel.dyn"]

/-- `STRIP_LEVEL_FLAGS`; no flags where the level has a function to make
them. -/
def stripLevelFlags : Level → Option (List Arg)
  | .binary => some [.str "--strip-non-alloc", .str "-O", .str "binary"]
  | .strip => some [.str "--strip-sections"]
  | .sections => some [.str "--strip-all"]
  | .functionSymbols => none
  | .symbols => some symbolsFlags
  | .addRelocations => some []

/-- `objcopy` with the flags of a level. -/
def Machine.stripTool (m : Machine) (flags : List Arg) (f : ElfFile) : Except PyError Written :=
  if flags = [.str "--strip-sections"] then do
    let f' ← m.stripSections f
    return .elf f' (m.strippedAt f')
  else m.stripWith flags f

/-- What `print(sym.name, file=f)` writes for each symbol of a table that
is no function. -/
def nonFunctionLines (t : SymbolTable) : List UInt8 :=
  (t.symbols.filter (·.stType ≠ .STT_FUNC)).flatMap fun sym => (sym.name ++ "\n").toUTF8.toList

namespace OnDisk

variable (m : Machine)

def load (p : Path) : Run ElfFile := do
  let w ← get
  outcome (w.load m p)

/-- A file, as the input of a tool. -/
def toolInput (tool : String) (p : Path) : Run ElfFile := do
  let w ← get
  match w.load m p with
  | .ok f => pure f
  | .error _ => throw (.calledProcess tool)

def write (p : Path) (x : Written) : Run PUnit := modify fun w => w.write p x

/-- `check_call([OBJCOPY] + flags + [elf_path, dst])` -/
def stripWithFlags (flags : List Arg) (elfPath dst : Path) : Run PUnit := do
  let f ← toolInput m "llvm-objcopy" elfPath
  let out ← outcome (m.stripTool flags f)
  write dst out

/-- `f.write`, at the end of a file of bytes. -/
def appendBytes (p : Path) (data : List UInt8) : Run PUnit := modify fun w =>
  match w.written p with
  | some (.bytes before) => w.write p (.bytes (before ++ data))
  | _ => w.write p (.bytes data)

/-- **`built_keep_function_symbols(elf_path)`**, which lists what is to go. -/
def builtKeepFunctionSymbols (elfPath : Path) : Run (List Arg) := do
  let tmpFile ← outcome (withSuffixOr elfPath (elfPath.suffix ++ ".symbols-to-strip".toList))
  write tmpFile (.bytes [])
  let elf ← load m elfPath
  (elf.sections.filter (·.shType = .SHT_SYMTAB)).forM fun s =>
    match s.symtab with
    | none => throw (.attributeError "iter_symbols")
    | some t => appendBytes tmpFile (nonFunctionLines t)
  return [.str "--strip-unneeded-symbols", .path tmpFile]

/-- **`strip_elf_exec_to_level(elf_path, dst, level)`.** The level with a
function strips to `symbols` first, and the result again in its place. -/
def stripElfExecToLevel (elfPath dst : Path) (level : Level) : Run Path := do
  match stripLevelFlags level with
  | some flags => stripWithFlags m flags elfPath dst
  | none => do
    stripWithFlags m symbolsFlags elfPath dst
    let flags ← builtKeepFunctionSymbols m dst
    stripWithFlags m flags dst dst
  return dst

/-- `link_relocatable`, from the path of the relocatable. -/
def linkRelocatable (partialPath dst : Path) (mode : String) (extra : ExtraArgs) :
    Run (List String) :=
  if mode = "static" then do
    let part ← toolInput m m.gccForLd partialPath
    let (elf, mtime) ← outcome (m.link (linkCommand m.toHost partialPath dst) part)
    write dst (.elf elf mtime)
    return extra.flags
  else throw (.unknownMode mode)

/-- `replace_section(src, dst, section_name, data_file)` -/
def replaceSection (src dst : Path) (sectionName : String) (dataFile : Path) : Run PUnit := do
  let w ← get
  match w.load m src, w.readBytes m dataFile with
  | .ok elf, .ok data => do
    let elf ← outcome (m.objcopy.updateSection elf sectionName data)
    write dst (.elf elf (m.patchedAt elf))
  | _, _ => throw (.calledProcess "objcopy")

/-- `remove_section(src, dst, section_name)` -/
def removeSection (src dst : Path) (sectionName : String) : Run PUnit := do
  let elf ← toolInput m "objcopy" src
  let elf ← outcome (m.objcopy.removeSection elf sectionName)
  write dst (.elf elf (m.patchedAt elf))

/-! ## `BinFile` -/

/-- A `BinFile` object: which one it is, and the fields it is made with. -/
structure BinRef where
  side : Side
  elf : Path
  part : Option Path := none
  linkExtraFlags : List String := []
  deriving DecidableEq, Repr

namespace BinRef

variable (bin : BinRef)

/-- `validate`, of an object with nothing stripped yet. -/
def validate : Run PUnit := do
  let w ← get
  if w.present m bin.elf then
    match bin.part with
    | none => pure ⟨⟩
    | some part =>
      if w.present m part ∧ w.mtime m part < w.mtime m bin.elf then pure ⟨⟩
      else throw (.assertion "")
  -- `ValueError`: "ELF file {self.elf} doesn't exist."
  else throw (.library true)

/-- `BinFile(elf=…, part=…, link_extra_flags=…)` -/
def init : Run BinRef := do
  modify fun w => w.remember bin.side {}
  bin.validate m
  return bin

/-- **`BinFile.from_relocatable(partial_elf, link_extra_flags)`.** -/
def fromRelocatable (side : Side) (partialElf : Path) (linkExtraFlags : ExtraArgs) :
    Run BinRef := do
  let elfPath ← outcome (withSuffixOr partialElf (partialElf.suffix ++ ".elf".toList))
  let flags ← linkRelocatable m partialElf elfPath "static" linkExtraFlags
  init m ⟨side, elfPath, some partialElf, flags⟩

/-- **`BinFile.from_test(elf_base)`**: the object file beside it, if there is
one, is its part. -/
def fromTest (side : Side) (elfBase : Path) : Run BinRef := do
  let res ← init m ⟨side, elfBase, none, []⟩
  let partialLink ← outcome (withSuffixOr elfBase ".part".toList)
  let w ← get
  let res := if w.present m partialLink then { res with part := some partialLink } else res
  res.validate m
  return res

/-- **The property `strip`**: the stripped copy, made the first time. -/
def strip : Run Path := do
  let w ← get
  match (w.cache bin.side).stripped with
  | some p => pure p
  | none => do
    let dst ← outcome (withSuffixOr bin.elf (bin.elf.suffix ++ ".strip".toList))
    let dst ← stripElfExecToLevel m bin.elf dst .strip
    modify fun w => w.remember bin.side { w.cache bin.side with stripped := some dst }
    return dst

/-- `kind(on)` -/
def kind : Kind → Run Path
  | .elf => pure bin.elf
  | .part => match bin.part with
    | some p => pure p
    | none => throw (.kindMissing "part")
  | .strip => bin.strip m

/-- **`parsed(on)`**: the file read, the first time it is asked for. -/
def parsed (on : Kind) : Run ElfFile := do
  let w ← get
  match (w.cache bin.side).parsed on with
  | some f => pure f
  | none => do
    let p ← bin.kind m on
    let f ← load m p
    modify fun w => w.remember bin.side
      { w.cache bin.side with parsed := Function.update (w.cache bin.side).parsed on (some f) }
    return f

end BinRef

/-! ## `Comparator` -/

/-- `Comparator` -/
structure Comparator where
  truth : BinRef
  symbolized : BinRef
  deriving DecidableEq, Repr

/-- `c.compare_relocations()` -/
def compareRelocations (c : Comparator) : Run ℚ := do
  let truth ← c.truth.parsed m .elf
  let true_ ← outcome (iterRelocationsElf m.runtime truth)
  let part ← c.symbolized.parsed m .part
  let pred ← outcome (iterRelocationsPart m.runtime part)
  outcome (compareRelocationLists true_ pred)

/-- `c.compare_segments()` -/
def compareSegments (c : Comparator) : Run Bool := do
  let truth ← c.truth.parsed m .strip
  let symbolized ← c.symbolized.parsed m .strip
  return Checklib.compareSegments truth symbolized

/-! ## `SectionReplacement` and `ReplacementSpec` -/

/-- `get_or_create_bin_file` -/
def getOrCreateBinFile (r : SectionReplacement) : Run Path :=
  match truthy r.binFile with
  | some path => pure (gitPath m.base path)
  | none =>
    match r.fromElfSection with
    | none => throw .typeError
    | some (path, name) => do
      let elfPath := gitPath m.base path
      let newBinFile ← outcome
        (withSuffixOr elfPath (elfPath.suffix ++ '.' :: name.toList ++ ".bin".toList))
      let elf ← load m elfPath
      match elf.getSectionByName name with
      | some s => do
        write newBinFile (.bytes s.data)
        return newBinFile
      | none => throw (.attributeError "data")

/-- The address `get_replaced_section_name` looks for. -/
def replacedVaddr (c : Comparator) (r : SectionReplacement) : Run (Option ℕ) :=
  match truthy r.symbolName with
  | some name => do
    let parsed ← c.truth.parsed m .elf
    let vaddr ← outcome (symbolVaddr name (parsed.sections.filter (·.shType = .SHT_SYMTAB)))
    return some vaddr
  | none => pure r.vaddr

/-- `get_replaced_section_name` -/
def getReplacedSectionName (c : Comparator) (r : SectionReplacement) : Run String :=
  match truthy r.sectionName with
  | some name => pure name
  | none => do
    let vaddr ← replacedVaddr m c r
    let part ← c.symbolized.parsed m .part
    let found ← outcome (findSectionForVaddr m.runtime vaddr part.sections)
    return found.name

/-- **`modify_inplace(elf_path, c)`** -/
def modifyInplace (elfPath : Path) (c : Comparator) (r : SectionReplacement) : Run PUnit := do
  let dataFile ← getOrCreateBinFile m r
  let sectionName ← getReplacedSectionName m c r
  replaceSection m elfPath elfPath sectionName dataFile
  let relName := ".rel" ++ sectionName
  let part ← c.symbolized.parsed m .part
  match part.getSectionByName relName with
  | some _ => removeSection m elfPath elfPath relName
  | none => pure ⟨⟩

/-- `shutil.copyfile(c.symbolized.part, new_rel)` -/
def copyPart (bin : BinRef) (dst : Path) : Run PUnit :=
  match bin.part with
  | none => throw .typeError
  | some part => do
    let w ← get
    let x ← outcome (w.contents m part)
    match x with
    | .elf f _ => write dst (.elf f (m.patchedAt f))
    | .bytes data => write dst (.bytes data)

/-- **`replace_and_link(c)`** -/
def replaceAndLink (spec : ReplacementSpec) (c : Comparator) : Run BinRef := do
  let newRel ← outcome (withSuffixOr c.symbolized.elf ".hax.part".toList)
  let linkArgs := c.symbolized.linkExtraFlags
  copyPart m c.symbolized newRel
  spec.replacements.forM fun r => modifyInplace m newRel c r
  match spec.objOverride with
  | some _ => throw .typeError
  | none => BinRef.fromRelocatable m .replaced newRel (.list linkArgs)

/-! ## `RunSpec` and `TestSpec` -/

/-- `compare_output(bin)`, on the file there is by now. -/
def compareOutput (spec : RunSpec) (bin : BinRef) (stdin : List UInt8) :
    Run (List OutputError) := do
  let w ← get
  let elf ← outcome (w.load m bin.elf)
  outcome (spec.compareOutput (w.host m) (m.behaviour elf) stdin)

variable (spec : TestSpec)

/-- `test_validation_sanity_check` -/
def testValidationSanityCheck (testBin : BinRef) (stdin : List UInt8) : Run Bool := do
  let errs ← compareOutput m spec.unmodifiedBehavior testBin stdin
  return !errs.isEmpty

/-- `evaluate_relinking` -/
def evaluateRelinking (c : Comparator) (stdin : List UInt8) : Run Bool := do
  let rebuildFail ← compareSegments m c
  let errs ← compareOutput m spec.unmodifiedBehavior c.symbolized stdin
  return rebuildFail || !errs.isEmpty

/-- `evaluate_replacement` -/
def evaluateReplacement (c : Comparator) (stdin : List UInt8) : Run Bool := do
  match ← attempt (replaceAndLink m spec.replacement c) with
  | .error _ => return true
  | .ok newBin => do
    let errs ← compareOutput m spec.replacement.behavior newBin stdin
    return !errs.isEmpty

/-- The base score. -/
def baseScore (c : Comparator) : Run ℚ := do
  match ← attempt (compareRelocations m c) with
  | .ok score => return score
  | .error e => if e.IsValueError then return 0 else throw e

/-- **`score_symbolization`** -/
def scoreSymbolization (testBin : BinRef) (symbolized : Path) (extraLdFlags : List String)
    (stdin₁ stdin₂ : List UInt8) : Run ℚ := do
  let flags ← outcome (spec.mergeFlags extraLdFlags)
  let bin ← BinRef.fromRelocatable m .symbolized symbolized (.list flags)
  let cmp : Comparator := ⟨testBin, bin⟩
  let base ← baseScore m cmp
  let rebuildFail ← evaluateRelinking m spec cmp stdin₁
  let base := if rebuildFail then base / 3 else base
  let replacementFail ← evaluateReplacement m spec cmp stdin₂
  let base := if replacementFail then base / 2 else base
  return base

/-! ## `check.py` -/

/-- **`check_single`**, on a test of the given executable: the sanity check
of the ground truth, and the score. -/
def checkSingle (elf symbolized : Path) (stdin₀ stdin₁ stdin₂ : List UInt8) : Run ℚ := do
  let gt ← BinRef.init m ⟨.truth, elf, none, []⟩
  let failed ← testValidationSanityCheck m spec gt stdin₀
  if failed then throw (.assertion "")
  else scoreSymbolization m spec gt symbolized [] stdin₁ stdin₂

/-- The test of an executable that no directory describes. -/
def genericSpec : TestSpec where
  linkMode := .static
  unmodifiedBehavior := { exitCode := none }
  replacement :=
    { behavior := { exitCode := some 123 }
      replacements := [{ binFile := some "replacements/exit123.bin", symbolName := some "_exit" }] }

/-- **`check_single`, in the generic case**: of an executable alone. -/
def checkSingleGeneric (elf symbolized : Path) (stdin₀ stdin₁ stdin₂ : List UInt8) : Run ℚ := do
  let gt ← BinRef.fromTest m .truth elf
  let failed ← testValidationSanityCheck m genericSpec gt stdin₀
  if failed then throw (.assertion "")
  else scoreSymbolization m genericSpec gt symbolized [] stdin₁ stdin₂

/-- What `check_call` stands for, the arguments having been parsed: quiet
runs do not trace. -/
def boundCheckCall (verbose : Bool) : CheckCall :=
  if verbose then .traced else untraceCommands .traced

/-- `check_call([args.symbolizer, args.strip_output, symbolized] + args.extra_args)`,
of the wrapper `check.py` has imported. -/
def runSymbolizer (verbose : Bool) (stripOutput symbolized : Path) (extraArgs : List String) :
    Run PUnit := do
  outcome (boundCheckCall verbose).wrapped
  let w ← get
  let stripped ← outcome (w.contents m stripOutput)
  let out ← outcome (m.symbolizer extraArgs stripped)
  write symbolized out

/-- **`check`**: strip the test's executable, have it symbolized, and check
what comes of it. -/
def check (elf : Path) (level : Level) (extraArgs : List String) (verbose : Bool)
    (stdin₀ stdin₁ stdin₂ : List UInt8) : Run ℚ := do
  let stripOutput ← outcome (withSuffixOr elf (elf.suffix ++ ".strip".toList))
  let _dst ← stripElfExecToLevel m elf stripOutput level
  let symbolized ← outcome (withSuffixOr elf ".symbolized".toList)
  runSymbolizer m verbose stripOutput symbolized extraArgs
  checkSingle m spec elf symbolized stdin₀ stdin₁ stdin₂

end OnDisk

/-! ## A machine that obliges -/

/-- A disk as no run has touched it. -/
def World.fresh : World := ⟨fun _ => none, fun _ => {}⟩

/-- A machine whose tools do nothing but succeed, with the given files and
a symbolizer that always gives the same answer. -/
def Machine.obliging (files : List (Path × ElfFile)) (answer : ElfFile) : Machine where
  toHost := { Host.obliging [] fun _ _ => some ⟨0, []⟩ with
    loadElf := fun p => match files.lookup p with
      | some f => .ok f
      | none => .error .osError }
  present p := (files.lookup p).isSome
  mtime _ := 1
  render _ := []
  parse _ := .error .osError
  stripWith _ f := .ok (.elf f 0)
  strippedAt _ := 0
  symbolizer _ _ := .ok (.elf answer 1)

end Checklib
