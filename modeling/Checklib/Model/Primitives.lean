import Checklib.Common.Compact
import Checklib.Model.Elf
import Checklib.Model.Utils

/-!
# `primitives.py`

The commands the checker runs: the linker, `objcopy`, and the program
under test. The tools are parameters, `Host` their record; of `objcopy`
it is assumed only that it does what its options say. A file is its path,
its contents and its modification time.
-/

namespace Checklib

open Common

/-! ## What is run -/

/-- A word of a command line. -/
inductive Arg where
  | str (s : String)
  | path (p : Path)
  deriving DecidableEq, Repr

/-- `CompletedProcess`, as far as it is read. -/
structure CompletedProcess where
  returncode : ℤ
  stdout : List UInt8
  deriving DecidableEq, Repr

/-- **A program**, as what it makes of its standard input; `none` is one
that has not ended when the timeout does. -/
abbrev Program := List UInt8 → Option CompletedProcess

/-- A file of the run. -/
structure File where
  path : Path
  content : ElfFile
  mtime : ℕ

/-! ## `objcopy` -/

/-- The section with other bytes. -/
def Section.withBytes (data : List UInt8) (s : Section) : Section :=
  { s with data := data, shSize := data.length }

/-- The symbol after its section has moved. -/
def Symbol.renumber (ren : ℕ → ℕ) (y : Symbol) : Symbol :=
  match y.stShndx with
  | .index n => { y with stShndx := .index (ren n) }
  | .special _ => y

/-- The section after others have moved: what its header and its symbols
refer to by index. `sh_info` is an index in a relocation section. -/
def Section.renumber (ren : ℕ → ℕ) (s : Section) : Section :=
  { s with
    shInfo := if s.shType = .SHT_REL then ren s.shInfo else s.shInfo
    shLink := ren s.shLink
    symtab := s.symtab.map fun t => { t with symbols := t.symbols.map (Symbol.renumber ren) } }

/-- What `--remove-section` keeps. -/
def notNamed (name : String) (s : Section) : Bool := s.name ≠ name

/-- **`objcopy`, by its two options.** When it succeeds, `--update-section`
has replaced the bytes of the section of that name and `--remove-section`
removed the sections of that name; the rest is kept, and indices follow. -/
structure Objcopy where
  updateSection : ElfFile → String → List UInt8 → Except PyError ElfFile
  removeSection : ElfFile → String → Except PyError ElfFile
  update_ok : ∀ {f f' : ElfFile} {name : String} {data : List UInt8},
    updateSection f name data = .ok f' →
      f'.sections = f.sections.map fun s => if s.name = name then s.withBytes data else s
  remove_ok : ∀ {f f' : ElfFile} {name : String}, removeSection f name = .ok f' →
    ∃ ren, Renumbers (notNamed name) f.sections ren ∧
      f'.sections = (f.sections.filter (notNamed name)).map (Section.renumber ren)

/-! ## The host -/

/-- **Everything the checker reaches outside its own code.** -/
structure Host where
  runtime : Runtime
  base : PathBase
  /-- `GCC_FOR_LD` -/
  gccForLd : String
  /-- `path.read_bytes()` -/
  readBytes : Path → Except PyError (List UInt8)
  /-- `ELFFile.load_from_path(path)` -/
  loadElf : Path → Except PyError ElfFile
  /-- What a linker command makes of the relocatable it names, and when it
  has written it. -/
  link : List Arg → ElfFile → Except PyError (ElfFile × ℕ)
  /-- `objcopy --strip-sections` -/
  stripSections : ElfFile → Except PyError ElfFile
  objcopy : Objcopy
  /-- When a patched copy has been written. -/
  patchedAt : ElfFile → ℕ
  /-- What an executable does when run. -/
  behaviour : ElfFile → Program

/-! ## Tracing -/

/-- **What the name `check_call` stands for** in `primitives.py`: the wrapper
that prints commands, or the function it wraps. -/
inductive CheckCall where
  | traced
  | plain
  deriving DecidableEq, Repr

/-- `untrace_commands`, which binds the name anew. -/
def untraceCommands (_ : CheckCall) : CheckCall := .plain

/-- **A call of the wrapper**, by a module that has imported it: what it
wraps is looked up under the name, as an attribute of what that stands for
by then. -/
def CheckCall.wrapped : CheckCall → Except PyError PUnit
  | .traced => .ok ⟨⟩
  | .plain => .error (.attributeError "__wrapped__")

/-! ## `link_relocatable` -/

/-- `extra_args: Union[list[str], dict[str, str]]` -/
inductive ExtraArgs where
  | list (flags : List String)
  | dict (items : List (String × String))
  | none
  deriving DecidableEq, Repr

/-- `extra_flags` -/
def ExtraArgs.flags : ExtraArgs → List String
  | .list flags => flags
  | .dict items => items.map fun (k, v) => "-Wl," ++ k ++ "=" ++ v
  | .none => []

/-- `LD_BASE_FLAGS` -/
def ldBaseFlags (base : PathBase) : List Arg :=
  [.str "-march=lakemont", .str "-mtune=lakemont", .str "-m32", .str "-miamcu",
   .str "-msoft-float", .str "-nostdlib", .str "-Wl,--no-relax", .str "-Wl,--emit-relocs",
   .str "-Wl,--build-id=none", .str "-Wl,--strip-debug",
   .str "-T", .path (gitPath base "/picolibc/iamcu/lib/picolibc.ld")]

/-- `LD_STATIC_FLAGS` -/
def ldStaticFlags : List Arg := [.str "-Wl,-znorelro,-ztext", .str "-static"]

/-- The command. The extra flags are worked out, and not put on it. -/
def linkCommand (host : Host) (partialPath dst : Path) : List Arg :=
  [.str host.gccForLd] ++ ldBaseFlags host.base ++ ldStaticFlags ++
    [.path partialPath, .str "-o", .path dst]

/-- **`link_relocatable(partial_path, dst, mode, extra_args)`**, with the
executable it writes beside the flags it returns. -/
def linkRelocatable (host : Host) (part : File) (dst : Path) (mode : String)
    (extra : ExtraArgs) : Except PyError (File × List String) :=
  if mode = "static" then do
    let (elf, mtime) ← host.link (linkCommand host part.path dst) part.content
    return (⟨dst, elf, mtime⟩, extra.flags)
  else .error (.unknownMode mode)

/-! ## `execute` -/

/-- What `execute` is handed: `None`, a path, or the empty text, which
`and` hands on as it is. -/
inductive StdinArg where
  | none
  | emptyText
  | path (p : Path)
  deriving DecidableEq, Repr

/-- The keyword arguments `execute` collects. -/
inductive Kwargs where
  | input (bytes : List UInt8)
  | devnull
  deriving DecidableEq, Repr

/-- `kwargs` -/
def executeKwargs (host : Host) : StdinArg → Except PyError Kwargs
  | .none => .ok .devnull
  | .emptyText => .error (.attributeError "read_bytes")
  | .path p => do
    let bytes ← host.readBytes p
    return .input bytes

/-- **`execute(bin, stdin)`.** The keyword arguments are collected and not
passed on, so the program inherits the checker's own standard input,
`stdin` here. -/
def execute (host : Host) (program : Program) (arg : StdinArg) (stdin : List UInt8) :
    Except PyError CompletedProcess := do
  let _kwargs ← executeKwargs host arg
  match program stdin with
  | some result => .ok result
  | none => .error .timeoutExpired

/-! ## A host that obliges -/

/-- An `objcopy` that does what it is asked, of any file. -/
def Objcopy.obliging : Objcopy where
  updateSection f name data :=
    .ok { f with sections := f.sections.map fun s => if s.name = name then s.withBytes data else s }
  removeSection f name :=
    let kept := f.sections.filter (notNamed name)
    let ren i := (position (notNamed name) f.sections i).getD kept.length
    .ok { f with sections := kept.map (Section.renumber ren) }
  update_ok h := by
    obtain rfl := Except.ok.inj h
    rfl
  remove_ok h := by
    obtain rfl := Except.ok.inj h
    exact ⟨_, renumbers_getD, rfl⟩

/-- A host whose tools do nothing but succeed: the linker marks a file
executable, and every file there is holds `contents`. -/
def Host.obliging (contents : List UInt8) (behaviour : ElfFile → Program) : Host where
  runtime := .ascii
  base := ⟨⟨true, []⟩, none⟩
  gccForLd := "x86_64-linux-gnu-gcc-10"
  readBytes _ := .ok contents
  loadElf _ := .error .osError
  link _ f := .ok ({ f with eType := .ET_EXEC }, 2)
  stripSections f := .ok f
  objcopy := .obliging
  patchedAt _ := 1
  behaviour := behaviour

end Checklib
