import Checklib.Common.Except
import Checklib.Model.Spec

/-!
# Running a program

`execute` collects the input a specification names and runs the program
on the checker's own standard input instead. `compareOutput_eq` says what
a comparison is; it comes to what the run that was meant comes to, a
verdict or an exception, exactly where the input is of no consequence
(`Inconsequential`).
-/

namespace Checklib

open Common

variable {host : Host} {spec : RunSpec} {program : Program}

/-- The verdict on the program run with `input` as its input. -/
def RunSpec.verdictOn (host : Host) (spec : RunSpec) (program : Program) (input : List UInt8) :
    Except PyError (List OutputError) :=
  match program input with
  | some result => spec.judge host result
  | none => .error .timeoutExpired

/-- The input the specification names: the bytes of a file, found as the
expected output is, or nothing. -/
def RunSpec.intendedInput (host : Host) (spec : RunSpec) : Except PyError (List UInt8) :=
  match spec.stdin with
  | none => .ok []
  | some s => host.readBytes (gitPath host.base s)

/-- **The outcome that was meant**: the verdict on the program run on the
input the specification names, or what kept that from being given. -/
def RunSpec.intendedOutcome (host : Host) (spec : RunSpec) (program : Program) :
    Except PyError (List OutputError) := do
  let input ← spec.intendedInput host
  spec.verdictOn host program input

/-- **The comparison is of the run that was meant**: no two contents of the
checker's own standard input give two outcomes, and the outcome they all
give is the one that was meant. -/
structure RunSpec.Transparent (host : Host) (spec : RunSpec) (program : Program) : Prop where
  same : ∀ stdin stdin', spec.compareOutput host program stdin =
    spec.compareOutput host program stdin'
  intended : ∀ stdin, spec.compareOutput host program stdin = spec.intendedOutcome host program

/-- The input the specification names, if any, is also found where
`execute` looks for it: at the path as written. -/
def RunSpec.StdinReadable (host : Host) (spec : RunSpec) : Prop :=
  ∀ s, spec.stdin = some s → s ≠ "" ∧ ∃ bytes, host.readBytes (Path.ofString s) = .ok bytes

/-- The input is looked for at the path as written and not found there, or
the text is empty and not a path at all. -/
inductive RunSpec.StdinFails (host : Host) (spec : RunSpec) : PyError → Prop
  | emptyText : spec.stdin = some "" → StdinFails host spec (.attributeError "read_bytes")
  | unread {s : String} {e : PyError} : spec.stdin = some s → s ≠ "" →
      host.readBytes (Path.ofString s) = .error e → StdinFails host spec e

/-- A verdict is on a run that has ended. -/
theorem verdictOn_eq_ok_iff {input : List UInt8} {errs : List OutputError} :
    spec.verdictOn host program input = .ok errs ↔
      ∃ result, program input = some result ∧ spec.judge host result = .ok errs := by
  unfold RunSpec.verdictOn
  cases program input with
  | none => simp only [reduceCtorEq, false_and, exists_false]
  | some result => simp only [Option.some.injEq, exists_eq_left']

/-- The keyword arguments are collected where the named input is read. -/
theorem executeKwargs_isOk_iff :
    (∃ kwargs, executeKwargs host spec.stdinArg = .ok kwargs) ↔ spec.StdinReadable host := by
  unfold RunSpec.StdinReadable RunSpec.stdinArg
  cases spec.stdin with
  | none =>
    constructor
    · intro _ s hs
      cases hs
    · intro _
      exact ⟨_, rfl⟩
  | some s =>
    by_cases hs : s = ""
    · constructor
      · rintro ⟨kwargs, hk⟩
        simp only [if_pos hs] at hk
        cases hk
      · intro h
        exact absurd hs (h s rfl).1
    · simp only [if_neg hs]
      constructor
      · rintro ⟨kwargs, hk⟩ s' hs'
        obtain rfl := Option.some.inj hs'
        obtain ⟨bytes, hbytes, -⟩ := bind_eq_ok_iff.1 hk
        exact ⟨hs, bytes, hbytes⟩
      · intro h
        obtain ⟨-, bytes, hbytes⟩ := h s rfl
        exact ⟨_, bind_eq_ok_iff.2 ⟨bytes, hbytes, rfl⟩⟩

/-- They are not collected where it is not. -/
theorem executeKwargs_eq_error_iff {e : PyError} :
    executeKwargs host spec.stdinArg = .error e ↔ spec.StdinFails host e := by
  unfold RunSpec.stdinArg
  constructor
  · intro h
    cases hstdin : spec.stdin with
    | none =>
      rw [hstdin] at h
      cases h
    | some s =>
      rw [hstdin] at h
      by_cases hs : s = ""
      · simp only [if_pos hs] at h
        cases h
        exact .emptyText (hs ▸ hstdin)
      · simp only [if_neg hs] at h
        rcases bind_eq_error_iff.1 h with h | ⟨bytes, -, h⟩
        · exact .unread hstdin hs h
        · cases h
  · rintro (hstdin | ⟨hstdin, hs, he⟩)
    · rw [hstdin]
      rfl
    · simp only [hstdin, if_neg hs]
      exact bind_eq_error_iff.2 (.inl he)

/-- **What a comparison is**: the verdict on what the checker itself was
given, once the named input has been read and put aside. -/
theorem compareOutput_eq (stdin : List UInt8) :
    spec.compareOutput host program stdin =
      executeKwargs host spec.stdinArg >>= fun _ => spec.verdictOn host program stdin := by
  unfold RunSpec.compareOutput execute RunSpec.verdictOn
  rw [bind_assoc]
  cases program stdin with
  | none => rfl
  | some result => rfl

theorem compareOutput_of_readable (h : spec.StdinReadable host) (stdin : List UInt8) :
    spec.compareOutput host program stdin = spec.verdictOn host program stdin := by
  obtain ⟨kwargs, hkwargs⟩ := executeKwargs_isOk_iff.2 h
  rw [compareOutput_eq, hkwargs, ok_bind]

theorem compareOutput_of_fails {e : PyError} (h : spec.StdinFails host e) (stdin : List UInt8) :
    spec.compareOutput host program stdin = .error e := by
  rw [compareOutput_eq, executeKwargs_eq_error_iff.2 h]
  rfl

/-- The named input is found as written, or is not. -/
theorem stdinReadable_or (host : Host) (spec : RunSpec) :
    spec.StdinReadable host ∨ ∃ e, spec.StdinFails host e := by
  cases hkwargs : executeKwargs host spec.stdinArg with
  | ok kwargs => exact .inl (executeKwargs_isOk_iff.1 ⟨kwargs, hkwargs⟩)
  | error e => exact .inr ⟨e, executeKwargs_eq_error_iff.1 hkwargs⟩

/-- A comparison gives a verdict where the named input is found. -/
theorem compareOutput_eq_ok_iff {stdin : List UInt8} {errs : List OutputError} :
    spec.compareOutput host program stdin = .ok errs ↔
      spec.StdinReadable host ∧ spec.verdictOn host program stdin = .ok errs := by
  rw [compareOutput_eq, bind_eq_ok_iff, exists_and_right, executeKwargs_isOk_iff]

/-! ## Runs a specification cannot tell apart -/

/-- The expected output, if any, can be read. -/
def RunSpec.ExpectedReadable (host : Host) (spec : RunSpec) : Prop :=
  ∀ path, truthy spec.expectedStdout = some path →
    ∃ data, host.readBytes (gitPath host.base path) = .ok data

/-- **Two outputs stand alike to the expected one**: both are it, or both
a beginning of it, or both go on after it, or neither does any of these. -/
structure StandAlike (data stdout stdout' : List UInt8) : Prop where
  same : stdout' = data ↔ stdout = data
  begins : stdout'.isPrefixOf data ↔ stdout.isPrefixOf data
  goesOn : data.isPrefixOf stdout' ↔ data.isPrefixOf stdout

/-- **The specification cannot tell the runs apart**: they have one exit
code, if it asks for one, and outputs that stand alike to the expected
one, if it names one. -/
structure RunSpec.Alike (host : Host) (spec : RunSpec) (result result' : CompletedProcess) :
    Prop where
  exitCode : spec.exitCode ≠ none → result'.returncode = result.returncode
  stdout : ∀ path data, truthy spec.expectedStdout = some path →
    host.readBytes (gitPath host.base path) = .ok data →
      StandAlike data result.stdout result'.stdout

/-- The notes on the exit code give it away, unless it is the right one. -/
theorem checkExitCode_eq_iff {result result' : CompletedProcess} :
    spec.checkExitCode result' = spec.checkExitCode result ↔
      (spec.exitCode ≠ none → result'.returncode = result.returncode) := by
  unfold RunSpec.checkExitCode
  cases spec.exitCode with
  | none => exact ⟨fun _ h => absurd rfl h, fun _ => rfl⟩
  | some code =>
    constructor
    · intro h _
      -- a wrong code is named in the note, and the right one leaves none
      by_cases hcode : result.returncode = code
      · by_cases hcode' : result'.returncode = code
        · exact hcode'.trans hcode.symm
        · simp [hcode, hcode'] at h
      · by_cases hcode' : result'.returncode = code
        · simp [hcode, hcode'] at h
        · simpa [hcode, hcode'] using h
    · intro h
      rw [h (by simp)]

/-- Two texts that begin one another are one text. -/
theorem eq_of_isPrefixOf {data stdout : List UInt8} (h : stdout.isPrefixOf data)
    (h' : data.isPrefixOf stdout) : stdout = data := by
  have hle : stdout <+: data := by simpa using h
  have hge : data <+: stdout := by simpa using h'
  exact hle.eq_of_length (Nat.le_antisymm hle.length_le hge.length_le)

/-- **The note tells where an output stands**: nothing is said of the
expected one, and something else of each other standing. -/
theorem checkStdout_tells (data stdout : List UInt8) :
    (stdout = data ↔ RunSpec.checkStdout data stdout = []) ∧
    (stdout.isPrefixOf data ↔ RunSpec.checkStdout data stdout = [] ∨
      RunSpec.checkStdout data stdout = [.resultIsPrefix]) ∧
    (data.isPrefixOf stdout ↔ RunSpec.checkStdout data stdout = [] ∨
      RunSpec.checkStdout data stdout = [.expectedIsPrefix]) := by
  unfold RunSpec.checkStdout
  by_cases hsame : stdout = data
  · subst hsame
    simp
  have hne : data ≠ stdout := fun h => hsame h.symm
  rw [if_pos hne]
  by_cases hbegins : stdout.isPrefixOf data
  · -- the first test that holds is the only one that could
    have hnot : ¬ data.isPrefixOf stdout := fun h => hsame (eq_of_isPrefixOf hbegins h)
    rw [if_pos hbegins]
    exact ⟨by simp [hsame], by simp [hbegins], by simp [hnot]⟩
  rw [if_neg hbegins]
  by_cases hgoes : data.isPrefixOf stdout
  · rw [if_pos hgoes]
    exact ⟨by simp [hsame], by simp [hbegins], by simp [hgoes]⟩
  · rw [if_neg hgoes]
    exact ⟨by simp [hsame], by simp [hbegins], by simp [hgoes]⟩

/-- The notes on two outputs agree exactly where the outputs stand alike
to the expected one. -/
theorem checkStdout_eq_iff {data stdout stdout' : List UInt8} :
    RunSpec.checkStdout data stdout' = RunSpec.checkStdout data stdout ↔
      StandAlike data stdout stdout' := by
  constructor
  · intro h
    obtain ⟨hsame, hbegins, hgoes⟩ := checkStdout_tells data stdout
    obtain ⟨hsame', hbegins', hgoes'⟩ := checkStdout_tells data stdout'
    rw [h] at hsame' hbegins' hgoes'
    exact ⟨hsame'.trans hsame.symm, hbegins'.trans hbegins.symm, hgoes'.trans hgoes.symm⟩
  · intro h
    have hsame : data ≠ stdout' ↔ data ≠ stdout := by
      rw [ne_comm, Ne, h.same, ne_comm (a := data)]
    simp only [RunSpec.checkStdout, hsame, h.begins, h.goesOn]

/-- The note is on the exit code. -/
def OutputError.onExitCode : OutputError → Bool
  | .returnCode _ _ => true
  | _ => false

theorem filter_checkExitCode (result : CompletedProcess) :
    (spec.checkExitCode result).filter OutputError.onExitCode = spec.checkExitCode result := by
  unfold RunSpec.checkExitCode
  cases spec.exitCode with
  | none => rfl
  | some code =>
    by_cases hcode : result.returncode = code
    · simp only [hcode, ne_eq, not_true_eq_false, if_false, List.filter_nil]
    · simp only [ne_eq, hcode, not_false_eq_true, if_true]
      rfl

theorem filter_checkStdout (data stdout : List UInt8) :
    (RunSpec.checkStdout data stdout).filter OutputError.onExitCode = [] := by
  unfold RunSpec.checkStdout
  split
  · split
    · rfl
    · split <;> rfl
  · rfl

/-- The judgement of a run needs the expected output, and nothing else. -/
theorem judge_isOk_iff (result : CompletedProcess) :
    (∃ errs, spec.judge host result = .ok errs) ↔ spec.ExpectedReadable host := by
  unfold RunSpec.judge RunSpec.ExpectedReadable
  cases truthy spec.expectedStdout with
  | none =>
    constructor
    · intro _ path hpath
      cases hpath
    · intro _
      exact ⟨_, rfl⟩
  | some path =>
    constructor
    · rintro ⟨errs, herrs⟩ path' hpath
      obtain rfl := Option.some.inj hpath
      obtain ⟨data, hdata, -⟩ := bind_eq_ok_iff.1 herrs
      exact ⟨data, hdata⟩
    · intro h
      obtain ⟨data, hdata⟩ := h path rfl
      exact ⟨_, bind_eq_ok_iff.2 ⟨data, hdata, rfl⟩⟩

/-- **Two runs are judged alike** exactly where the specification cannot
tell them apart. -/
theorem judge_eq_iff {result result' : CompletedProcess} (hread : spec.ExpectedReadable host) :
    spec.judge host result' = spec.judge host result ↔ spec.Alike host result result' := by
  unfold RunSpec.judge
  cases hpath : truthy spec.expectedStdout with
  | none =>
    rw [Except.ok.injEq, checkExitCode_eq_iff]
    constructor
    · intro h
      exact ⟨h, fun path data hpath' => by rw [hpath] at hpath'; cases hpath'⟩
    · intro h
      exact h.exitCode
  | some path =>
    obtain ⟨data, hdata⟩ := hread path hpath
    simp only [hdata, ok_bind, pure, Except.pure, Except.ok.injEq]
    constructor
    · -- the notes on the exit code come first, and can be told from the rest
      intro h
      have hexit := congrArg (List.filter OutputError.onExitCode) h
      simp only [List.filter_append, filter_checkExitCode, filter_checkStdout, List.append_nil]
        at hexit
      rw [hexit] at h
      have hstdout := checkStdout_eq_iff.1 (List.append_cancel_left h)
      refine ⟨checkExitCode_eq_iff.1 hexit, fun path' data' hpath' hdata' => ?_⟩
      obtain rfl := Option.some.inj (hpath.symm.trans hpath')
      obtain rfl := Except.ok.inj (hdata.symm.trans hdata')
      exact hstdout
    · intro h
      rw [checkExitCode_eq_iff.2 h.exitCode, checkStdout_eq_iff.2 (h.stdout path data hpath hdata)]

/-! ## Runs that come to nothing -/

/-- **A run that gets no verdict**: it has not ended when the timeout does,
or the output it is to be held against cannot be read. -/
inductive RunSpec.Fails (host : Host) (spec : RunSpec) : Option CompletedProcess → PyError → Prop
  | timeout : Fails host spec none .timeoutExpired
  | expected {result : CompletedProcess} {path : String} {e : PyError} :
      truthy spec.expectedStdout = some path →
        host.readBytes (gitPath host.base path) = .error e → Fails host spec (some result) e

/-- The run that was meant comes to an exception: its input cannot be read,
or it gets no verdict. -/
def RunSpec.IntendedFails (host : Host) (spec : RunSpec) (program : Program) (e : PyError) : Prop :=
  spec.intendedInput host = .error e ∨
    ∃ input, spec.intendedInput host = .ok input ∧ spec.Fails host (program input) e

theorem judge_eq_error_iff {result : CompletedProcess} {e : PyError} :
    spec.judge host result = .error e ↔ spec.Fails host (some result) e := by
  unfold RunSpec.judge
  constructor
  · intro h
    cases hpath : truthy spec.expectedStdout with
    | none =>
      rw [hpath] at h
      cases h
    | some path =>
      rw [hpath] at h
      rcases bind_eq_error_iff.1 h with h | ⟨data, -, h⟩
      · exact .expected hpath h
      · cases h
  · rintro (_ | ⟨hpath, he⟩)
    rw [hpath]
    exact bind_eq_error_iff.2 (.inl he)

theorem verdictOn_eq_error_iff {input : List UInt8} {e : PyError} :
    spec.verdictOn host program input = .error e ↔ spec.Fails host (program input) e := by
  unfold RunSpec.verdictOn
  cases program input with
  | none =>
    constructor
    · intro h
      cases h
      exact .timeout
    · intro h
      cases h
      rfl
  | some result => exact judge_eq_error_iff

theorem intendedOutcome_eq_error_iff {e : PyError} :
    spec.intendedOutcome host program = .error e ↔ spec.IntendedFails host program e := by
  simp only [RunSpec.intendedOutcome, bind_eq_error_iff, verdictOn_eq_error_iff,
    RunSpec.IntendedFails]

/-! ## Where the input is of no consequence -/

/-- **The input is of no consequence**, in one of three ways. It is not
found as written, and the run that was meant fails as that does. It is
found, and whatever the program is given it fails as the run that was
meant. Or that run ends and is judged, and whatever the program is given
it ends so that the specification cannot tell. -/
inductive RunSpec.Inconsequential (host : Host) (spec : RunSpec) (program : Program) : Prop
  | unread {e : PyError} : spec.StdinFails host e → spec.IntendedFails host program e →
      Inconsequential host spec program
  | fails {e : PyError} : spec.StdinReadable host → spec.IntendedFails host program e →
      (∀ stdin, spec.Fails host (program stdin) e) → Inconsequential host spec program
  | judged {input : List UInt8} {result : CompletedProcess} : spec.StdinReadable host →
      spec.intendedInput host = .ok input → program input = some result →
      spec.ExpectedReadable host →
      (∀ stdin, ∃ result', program stdin = some result' ∧ spec.Alike host result result') →
      Inconsequential host spec program

/-- Where the input is found, the outcomes are the verdicts on all inputs. -/
theorem transparent_iff_of_readable (h : spec.StdinReadable host) :
    spec.Transparent host program ↔
      ∀ stdin, spec.verdictOn host program stdin = spec.intendedOutcome host program := by
  constructor
  · intro ht stdin
    rw [← compareOutput_of_readable h]
    exact ht.intended stdin
  · intro hall
    have hintended : ∀ stdin, spec.compareOutput host program stdin =
        spec.intendedOutcome host program := fun stdin => by
      rw [compareOutput_of_readable h, hall stdin]
    exact ⟨fun stdin stdin' => (hintended stdin).trans (hintended stdin').symm, hintended⟩

/-- Where it is not, they are all the exception that says so. -/
theorem transparent_iff_of_fails {e : PyError} (h : spec.StdinFails host e) :
    spec.Transparent host program ↔ spec.IntendedFails host program e := by
  rw [← intendedOutcome_eq_error_iff]
  constructor
  · intro ht
    rw [← ht.intended [], compareOutput_of_fails h]
  · intro he
    refine ⟨fun stdin stdin' => ?_, fun stdin => ?_⟩
    · rw [compareOutput_of_fails h, compareOutput_of_fails h]
    · rw [compareOutput_of_fails h, he]

/-- **The comparison is of the run that was meant exactly where the input
is of no consequence.** -/
theorem compareOutput_transparent_iff (host : Host) (spec : RunSpec) (program : Program) :
    spec.Transparent host program ↔ spec.Inconsequential host program := by
  constructor
  · intro ht
    rcases stdinReadable_or host spec with hstdin | ⟨e, he⟩
    · have hall := (transparent_iff_of_readable hstdin).1 ht
      cases hmeant : spec.intendedOutcome host program with
      | error e =>
        refine .fails hstdin (intendedOutcome_eq_error_iff.1 hmeant) fun stdin => ?_
        exact verdictOn_eq_error_iff.1 ((hall stdin).trans hmeant)
      | ok errs =>
        obtain ⟨input, hinput, hverdict⟩ := bind_eq_ok_iff.1 hmeant
        obtain ⟨result, hresult, hjudge⟩ := verdictOn_eq_ok_iff.1 hverdict
        have hread := (judge_isOk_iff result).1 ⟨errs, hjudge⟩
        refine .judged hstdin hinput hresult hread fun stdin => ?_
        obtain ⟨result', hresult', hjudge'⟩ := verdictOn_eq_ok_iff.1 ((hall stdin).trans hmeant)
        exact ⟨result', hresult', (judge_eq_iff hread).1 (hjudge'.trans hjudge.symm)⟩
    · exact .unread he ((transparent_iff_of_fails he).1 ht)
  · rintro (⟨hstdin, hmeant⟩ | ⟨hstdin, hmeant, hall⟩ | ⟨hstdin, hinput, hresult, hread, hall⟩)
    · exact (transparent_iff_of_fails hstdin).2 hmeant
    · refine (transparent_iff_of_readable hstdin).2 fun stdin => ?_
      rw [intendedOutcome_eq_error_iff.2 hmeant, verdictOn_eq_error_iff.2 (hall stdin)]
    · refine (transparent_iff_of_readable hstdin).2 fun stdin => ?_
      obtain ⟨result', hresult', halike⟩ := hall stdin
      rw [RunSpec.intendedOutcome, hinput, ok_bind, RunSpec.verdictOn, RunSpec.verdictOn, hresult,
        hresult']
      exact (judge_eq_iff hread).2 halike

/-! ## A program that looks at its input -/

/-- It succeeds on no input, and fails on any other. -/
def failOnInput : Program := fun input => some ⟨if input = [] then 0 else 1, []⟩

/-- **Empty input is asked for, and the checker's own is given**: a newline
changes the verdict. -/
theorem not_transparent_failOnInput :
    ¬ RunSpec.Transparent (.obliging [] fun _ => failOnInput) { exitCode := some 0 }
      failOnInput := by
  intro h
  exact absurd (h.same [] [0x0a]) (by decide)

end Checklib
