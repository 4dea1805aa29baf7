import Checklib.Footprint

/-!
# A check over its disk

The checker's steps talk through files, and its `BinFile`s remember what
they have stripped and parsed. Neither is seen in the score. As long as no
two of the names it uses are one, what a `BinFile` remembers of a file is
what the file still holds, and the run over the disk gives what the
functions of `Model/Spec.lean` give on contents, exceptions included.
-/

namespace Checklib

open Common Trial

/-! ## What a `BinFile` stands for -/

/-- `bin.parsed(on)`, without the memory. -/
def BinFile.parsedKind (host : Host) (bin : BinFile) : Kind → Except PyError ElfFile
  | .elf => .ok bin.elf.content
  | .part => bin.parsedPart
  | .strip => bin.parsedStrip host

namespace OnDisk

variable {m : Machine} {w : World} {p q : Path} {ref : BinRef} {bin : BinFile}

/-- The paths a `BinFile` object depends on. -/
def BinRef.Uses (ref : BinRef) (p : Path) : Prop :=
  p = ref.elf ∨ ref.part = some p ∨ ref.StripsTo p

/-- **An object stands for a `BinFile`**: its files hold the contents, and
what it remembers is what they would give now. -/
structure Stands (m : Machine) (w : World) (ref : BinRef) (bin : BinFile) : Prop where
  elf_path : ref.elf = bin.elf.path
  part_path : ref.part = bin.part.map File.path
  flags : ref.linkExtraFlags = bin.linkExtraFlags
  elf : w.load m ref.elf = .ok bin.elf.content
  part : ∀ f, bin.part = some f → w.contents m f.path = .ok (.elf f.content f.mtime)
  parsed : ∀ on f, (w.cache ref.side).parsed on = some f → bin.parsedKind m.toHost on = .ok f
  stripped : ∀ dst, (w.cache ref.side).stripped = some dst →
    ref.StripsTo dst ∧ ∃ f, w.load m dst = .ok f ∧ bin.parsedStrip m.toHost = .ok f

theorem load_of_written {f : ElfFile} {t : ℕ} (h : w.written p = some (.elf f t)) :
    w.load m p = .ok f := by
  rw [World.load, h]

theorem load_of_not_written (h : w.written p = none) : w.load m p = m.loadElf p := by
  rw [World.load, h]

theorem load_of_contents {f : ElfFile} {t : ℕ} (h : w.contents m p = .ok (.elf f t)) :
    w.load m p = .ok f := by
  unfold World.contents at h
  unfold World.load
  cases hw : w.written p with
  | some x =>
    rw [hw] at h
    obtain rfl := Except.ok.inj h
    rfl
  | none =>
    rw [hw] at h
    obtain ⟨f', hf', h⟩ := bind_eq_ok_iff.1 h
    obtain ⟨rfl, -⟩ := Written.elf.inj (Except.ok.inj h)
    exact hf'

theorem written_write_ne {x : Written} (h : p ≠ q) : (w.write q x).written p = w.written p :=
  Function.update_of_ne h _ _

theorem written_write_self {x : Written} : (w.write p x).written p = some x :=
  Function.update_self p _ _

theorem load_congr {w' : World} (h : w'.written p = w.written p) : w'.load m p = w.load m p := by
  rw [World.load, World.load, h]

theorem contents_congr {w' : World} (h : w'.written p = w.written p) :
    w'.contents m p = w.contents m p := by
  rw [World.contents, World.contents, h]

namespace Stands

/-- What the object stands for depends on its own paths and memories. -/
theorem congr (h : Stands m w ref bin) {w' : World}
    (hwritten : ∀ p, ref.Uses p → w'.written p = w.written p)
    (hcache : w'.cache ref.side = w.cache ref.side) : Stands m w' ref bin where
  elf_path := h.elf_path
  part_path := h.part_path
  flags := h.flags
  elf := by rw [load_congr (hwritten _ (.inl rfl)), h.elf]
  part f hf := by
    have hpath : ref.part = some f.path := by rw [h.part_path, hf, Option.map_some]
    rw [contents_congr (hwritten _ (.inr (.inl hpath))), h.part f hf]
  parsed on f hf := h.parsed on f (hcache ▸ hf)
  stripped dst hdst := by
    obtain ⟨hto, f, hload, hstrip⟩ := h.stripped dst (hcache ▸ hdst)
    exact ⟨hto, f, by rw [load_congr (hwritten _ (.inr (.inr hto))), hload], hstrip⟩

theorem write {x : Written} (h : Stands m w ref bin) (hp : ¬ ref.Uses p) :
    Stands m (w.write p x) ref bin := by
  refine h.congr (fun q hq => written_write_ne ?_) rfl
  rintro rfl
  exact hp hq

theorem remember_other {side : Side} {c : Cache} (h : Stands m w ref bin)
    (hside : ref.side ≠ side) : Stands m (w.remember side c) ref bin :=
  h.congr (fun _ _ => rfl) (Function.update_of_ne hside _ _)

end Stands

theorem cache_remember {side : Side} {c : Cache} : (w.remember side c).cache side = c :=
  Function.update_self side _ _

/-! ## Stripping and parsing -/

theorem toolInput_on {tool : String} {f : ElfFile} (h : w.load m p = .ok f) :
    (toolInput m tool p).on w = (.ok f, w) := by
  rw [toolInput, on_get_bind, h]
  rfl

/-- **A stripped copy is written** where the tool succeeds. -/
theorem stripElfExecToLevel_simulates {f : ElfFile} (h : w.load m p = .ok f) :
    Simulates (· = w) (stripElfExecToLevel m p q .strip) (m.stripSections f)
      (fun dst f' w' => dst = q ∧ w' = w.write q (.elf f' (m.strippedAt f'))) (· = w) := by
  have hstrip : stripElfExecToLevel m p q .strip = (do
      let f ← toolInput m "llvm-objcopy" p
      let f' ← outcome (m.stripSections f)
      write q (.elf f' (m.strippedAt f'))
      return q) := by
    show (stripWithFlags m [.str "--strip-sections"] p q >>= fun _ => pure q) = _
    simp only [stripWithFlags, Machine.stripTool, if_pos, outcome_bind, bind_assoc]
    rfl
  rw [hstrip, ← bind_pure (m.stripSections f)]
  refine simulates_bind_of_on (toolInput_on h) (simulates_outcome_bind (fun _ hw => hw) ?_)
  intro f' _
  refine simulates_bind_of_on (t := w.write q (.elf f' (m.strippedAt f'))) rfl ?_
  exact simulates_pure fun _ hw => ⟨rfl, hw⟩

/-- Stripping an object does not overwrite what it is made of. -/
def BinRef.Sound (ref : BinRef) : Prop :=
  ∀ dst, ref.StripsTo dst → dst ≠ ref.elf ∧ ref.part ≠ some dst

section Parsed

variable {I : World → Prop}

/-- What an object's own steps keep: what does not depend on its memories,
nor on its stripped copy. -/
def BinRef.Keeps (ref : BinRef) (I : World → Prop) : Prop :=
  ∀ w, I w → (∀ c, I (w.remember ref.side c)) ∧ ∀ dst x, ref.StripsTo dst → I (w.write dst x)

/-- An object that has just been stripped. -/
theorem Stands.remember_stripped {f : ElfFile} {t : ℕ} {dst : Path} (h : Stands m w ref bin)
    (hsound : ref.Sound) (hto : ref.StripsTo dst) (hf : bin.parsedStrip m.toHost = .ok f) :
    Stands m ((w.write dst (.elf f t)).remember ref.side
      { w.cache ref.side with stripped := some dst }) ref bin where
  elf_path := h.elf_path
  part_path := h.part_path
  flags := h.flags
  elf := by
    rw [← h.elf]
    exact load_congr (written_write_ne (hsound dst hto).1.symm)
  part f' hf' := by
    rw [← h.part f' hf']
    refine contents_congr (written_write_ne ?_)
    rintro rfl
    exact (hsound _ hto).2 (by rw [h.part_path, hf', Option.map_some])
  parsed on f' hf' := by
    rw [cache_remember] at hf'
    exact h.parsed on f' hf'
  stripped dst' hdst' := by
    rw [cache_remember] at hdst'
    obtain rfl := Option.some.inj hdst'
    exact ⟨hto, f, load_of_written written_write_self, hf⟩

/-- An object that has just been parsed. -/
theorem Stands.remember_parsed {f : ElfFile} {on : Kind} (h : Stands m w ref bin)
    (hf : bin.parsedKind m.toHost on = .ok f) :
    Stands m (w.remember ref.side { w.cache ref.side with
      parsed := Function.update (w.cache ref.side).parsed on (some f) }) ref bin where
  elf_path := h.elf_path
  part_path := h.part_path
  flags := h.flags
  elf := h.elf
  part := h.part
  parsed on' f' hf' := by
    rw [cache_remember] at hf'
    change Function.update (w.cache ref.side).parsed on (some f) on' = some f' at hf'
    by_cases hon : on' = on
    · subst hon
      rw [Function.update_self] at hf'
      obtain rfl := Option.some.inj hf'
      exact hf
    · rw [Function.update_of_ne hon] at hf'
      exact h.parsed on' f' hf'
  stripped dst hdst := by
    rw [cache_remember] at hdst
    exact h.stripped dst hdst

/-- **The stripped copy** holds what stripping gives, whether it is made
now or was. -/
theorem strip_simulates (hsound : ref.Sound) (hI : ref.Keeps I) :
    Simulates (fun w => Stands m w ref bin ∧ I w) (ref.strip m) (bin.parsedStrip m.toHost)
      (fun dst f w => (w.load m dst = .ok f ∧ ref.StripsTo dst) ∧ Stands m w ref bin ∧ I w)
      (fun w => Stands m w ref bin ∧ I w) := by
  refine simulates_get_bind fun w hw => ?_
  obtain ⟨hstands, hkept⟩ := hw
  cases hdone : (w.cache ref.side).stripped with
  | some dst =>
    obtain ⟨hto, f, hload, hstrip⟩ := hstands.stripped dst hdone
    rw [hstrip]
    refine simulates_pure ?_
    rintro w' rfl
    exact ⟨⟨hload, hto⟩, hstands, hkept⟩
  | none =>
    have hE : ∀ w', w' = w → Stands m w' ref bin ∧ I w' := by
      rintro w' rfl
      exact ⟨hstands, hkept⟩
    unfold BinFile.parsedStrip
    rw [← hstands.elf_path]
    refine simulates_outcome_bind hE fun dst hto => ?_
    rw [← bind_pure (m.stripSections _)]
    refine ((stripElfExecToLevel_simulates hstands.elf).weaken (fun _ h => h)
      (fun _ _ _ h => h) hE).bind fun dst' f hf => ?_
    refine Simulates.of_forall_eq ?_
    rintro w₁ ⟨rfl, rfl⟩
    have hf : bin.parsedStrip m.toHost = .ok f := by
      unfold BinFile.parsedStrip
      rw [← hstands.elf_path, hto, ok_bind, hf]
    refine simulates_bind_of_on rfl (simulates_pure ?_)
    rintro w₂ rfl
    refine ⟨⟨load_of_written written_write_self, hto⟩, ?_, ?_⟩
    · exact hstands.remember_stripped hsound hto hf
    · exact (hI _ ((hI w hkept).2 _ _ hto)).1 _

/-- **What an object parses** is what its `BinFile` gives, whether it is
read now or was. -/
theorem parsed_simulates {on : Kind} (hsound : ref.Sound) (hI : ref.Keeps I) :
    Simulates (fun w => Stands m w ref bin ∧ I w) (ref.parsed m on) (bin.parsedKind m.toHost on)
      (fun f f' w => f = f' ∧ Stands m w ref bin ∧ I w) (fun w => Stands m w ref bin ∧ I w) := by
  have hkind : Simulates (fun w => Stands m w ref bin ∧ I w) (ref.kind m on)
      (bin.parsedKind m.toHost on)
      (fun p f w => w.load m p = .ok f ∧ Stands m w ref bin ∧ I w)
      (fun w => Stands m w ref bin ∧ I w) := by
    cases on with
    | elf => exact simulates_pure fun w hw => ⟨hw.1.elf, hw⟩
    | strip =>
      exact (strip_simulates hsound hI).weaken (fun _ h => h) (fun _ _ _ h => ⟨h.1.1, h.2⟩)
        fun _ h => h
    | part =>
      refine Simulates.of_forall_eq fun w hw => ?_
      have hpath := hw.1.part_path
      have hpart := hw.1.part
      unfold BinRef.kind BinFile.parsedKind BinFile.parsedPart
      cases hbin : bin.part with
      | none =>
        rw [hbin] at hpath
        simp only [hpath, Option.map_none]
        exact simulates_throw fun _ h => h ▸ hw
      | some f =>
        rw [hbin] at hpath
        simp only [hpath, Option.map_some]
        refine simulates_pure ?_
        rintro w' rfl
        exact ⟨load_of_contents (hpart f hbin), hw⟩
  refine simulates_get_bind fun w hw => ?_
  cases hdone : (w.cache ref.side).parsed on with
  | some f =>
    rw [hw.1.parsed on f hdone]
    refine simulates_pure ?_
    rintro w' rfl
    exact ⟨rfl, hw⟩
  | none =>
    rw [← bind_pure (bin.parsedKind m.toHost on)]
    have hP : ∀ w', w' = w → Stands m w' ref bin ∧ I w' := by
      rintro w' rfl
      exact hw
    refine (hkind.weaken hP (fun _ _ _ h => h) fun _ h => h).bind fun p f hf => ?_
    refine Simulates.of_forall_eq fun w₁ hw₁ => ?_
    have hload : (load m p).on w₁ = (.ok f, w₁) := by
      rw [load, on_get_bind, on_outcome, hw₁.1]
    refine simulates_bind_of_on hload (simulates_bind_of_on rfl (simulates_pure ?_))
    rintro w₂ rfl
    exact ⟨rfl, hw₁.2.1.remember_parsed hf, (hI w₁ hw₁.2.2).1 _⟩

end Parsed

/-! ## Comparing -/

/-- **The sides are apart**: two objects, neither stripped over the other,
over itself or over what the specification reads. -/
structure Comparator.Separate (c : Comparator) (reads : List Path) : Prop where
  sides : c.truth.side ≠ c.symbolized.side
  truth : ∀ dst, c.truth.StripsTo dst →
    (dst ≠ c.truth.elf ∧ c.truth.part ≠ some dst) ∧ ¬ c.symbolized.Uses dst ∧ dst ∉ reads
  symbolized : ∀ dst, c.symbolized.StripsTo dst →
    (dst ≠ c.symbolized.elf ∧ c.symbolized.part ≠ some dst) ∧ ¬ c.truth.Uses dst ∧ dst ∉ reads

/-- **A state in which nothing remembered is stale**, and what the
specification reads is as it was. -/
structure Coherent (m : Machine) (c : Comparator) (c' : Checklib.Comparator) (reads : List Path)
    (w : World) : Prop where
  truth : Stands m w c.truth c'.truth
  symbolized : Stands m w c.symbolized c'.symbolized
  reads : ∀ p ∈ reads, w.written p = none

section Compare

variable {c : Comparator} {c' : Checklib.Comparator} {reads : List Path}

theorem Coherent.write {x : Written} (h : Coherent m c c' reads w) (htruth : ¬ c.truth.Uses p)
    (hsymbolized : ¬ c.symbolized.Uses p) (hreads : p ∉ reads) :
    Coherent m c c' reads (w.write p x) where
  truth := h.truth.write htruth
  symbolized := h.symbolized.write hsymbolized
  reads q hq := by
    rw [written_write_ne, h.reads q hq]
    rintro rfl
    exact hreads hq

theorem parsed_truth_simulates (hsep : c.Separate reads) (on : Kind) :
    Simulates (Coherent m c c' reads) (c.truth.parsed m on) (c'.truth.parsedKind m.toHost on)
      (fun f f' w => f = f' ∧ Coherent m c c' reads w) (Coherent m c c' reads) := by
  have hkeeps : c.truth.Keeps fun w =>
      Stands m w c.symbolized c'.symbolized ∧ ∀ p ∈ reads, w.written p = none := by
    refine fun w hw => ⟨fun _ => ⟨hw.1.remember_other hsep.sides.symm, hw.2⟩, fun dst x hto => ?_⟩
    obtain ⟨-, huses, hreads⟩ := hsep.truth dst hto
    refine ⟨hw.1.write huses, fun p hp => ?_⟩
    rw [written_write_ne, hw.2 p hp]
    rintro rfl
    exact hreads hp
  refine (parsed_simulates (fun dst hto => (hsep.truth dst hto).1) hkeeps).weaken ?_ ?_ ?_
  · exact fun w hw => ⟨hw.truth, hw.symbolized, hw.reads⟩
  · exact fun _ _ w hw => ⟨hw.1, hw.2.1, hw.2.2.1, hw.2.2.2⟩
  · exact fun w hw => ⟨hw.1, hw.2.1, hw.2.2⟩

theorem parsed_symbolized_simulates (hsep : c.Separate reads) (on : Kind) :
    Simulates (Coherent m c c' reads) (c.symbolized.parsed m on)
      (c'.symbolized.parsedKind m.toHost on) (fun f f' w => f = f' ∧ Coherent m c c' reads w)
      (Coherent m c c' reads) := by
  have hkeeps : c.symbolized.Keeps fun w =>
      Stands m w c.truth c'.truth ∧ ∀ p ∈ reads, w.written p = none := by
    refine fun w hw => ⟨fun _ => ⟨hw.1.remember_other hsep.sides, hw.2⟩, fun dst x hto => ?_⟩
    obtain ⟨-, huses, hreads⟩ := hsep.symbolized dst hto
    refine ⟨hw.1.write huses, fun p hp => ?_⟩
    rw [written_write_ne, hw.2 p hp]
    rintro rfl
    exact hreads hp
  refine (parsed_simulates (fun dst hto => (hsep.symbolized dst hto).1) hkeeps).weaken ?_ ?_ ?_
  · exact fun w hw => ⟨hw.symbolized, hw.truth, hw.reads⟩
  · exact fun _ _ w hw => ⟨hw.1, hw.2.2.1, hw.2.1, hw.2.2.2⟩
  · exact fun w hw => ⟨hw.2.1, hw.1, hw.2.2⟩

theorem compareRelocations_simulates (hsep : c.Separate reads) {part : ElfFile}
    (hpart : c'.symbolized.parsedPart = .ok part) :
    Simulates (Coherent m c c' reads) (compareRelocations m c) (c'.compareRelocations m.toHost)
      (fun a b w => a = b ∧ Coherent m c c' reads w) (Coherent m c c' reads) := by
  have hpure : c'.compareRelocations m.toHost = (do
      let truth ← c'.truth.parsedKind m.toHost .elf
      let true_ ← iterRelocationsElf m.runtime truth
      let part ← c'.symbolized.parsedKind m.toHost .part
      let pred ← iterRelocationsPart m.runtime part
      compareRelocationLists true_ pred) := by
    rw [Checklib.Comparator.compareRelocations, hpart]
    show _ = (do
      let true_ ← iterRelocationsElf m.runtime c'.truth.elf.content
      let part ← c'.symbolized.parsedPart
      let pred ← iterRelocationsPart m.runtime part
      compareRelocationLists true_ pred)
    rw [hpart]
    rfl
  rw [hpure]
  refine (parsed_truth_simulates hsep .elf).bind fun truth _ _ => ?_
  refine Simulates.of_forall_eq ?_
  rintro w ⟨rfl, hw⟩
  have hE : ∀ w', w' = w → Coherent m c c' reads w' := fun _ h => h ▸ hw
  refine simulates_outcome_bind hE fun true_ _ => ?_
  refine ((parsed_symbolized_simulates hsep .part).weaken hE (fun _ _ _ h => h) fun _ h => h).bind
    fun part _ _ => ?_
  refine Simulates.of_forall_eq ?_
  rintro w₁ ⟨rfl, hw₁⟩
  have hE₁ : ∀ w', w' = w₁ → Coherent m c c' reads w' := fun _ h => h ▸ hw₁
  refine simulates_outcome_bind hE₁ fun pred _ => ?_
  exact simulates_outcome.weaken hE₁ (fun _ _ _ h => h) fun _ h => h

/-- **The base score**, and a state in which scoring can go on. -/
theorem baseScore_simulates (hsep : c.Separate reads) {part : ElfFile}
    (hpart : c'.symbolized.parsedPart = .ok part) :
    Simulates (Coherent m c c' reads) (baseScore m c) (TestSpec.baseScore m.toHost c')
      (fun a b w => a = b ∧ Coherent m c c' reads w) (Coherent m c c' reads) := by
  unfold TestSpec.baseScore
  refine (compareRelocations_simulates hsep hpart).attempt_bind (fun score _ hok => ?_)
    fun e herror => ?_
  · rw [hok]
    exact simulates_pure fun _ h => h
  · rw [herror]
    by_cases hvalue : e.IsValueError
    · simp only [if_pos hvalue]
      exact simulates_pure fun _ h => ⟨rfl, h⟩
    · simp only [if_neg hvalue]
      exact simulates_throw fun _ h => h

theorem compareSegments_simulates (hsep : c.Separate reads) :
    Simulates (Coherent m c c' reads) (compareSegments m c) (c'.compareSegments m.toHost)
      (fun a b w => a = b ∧ Coherent m c c' reads w) (Coherent m c c' reads) := by
  refine (parsed_truth_simulates hsep .strip).bind fun truth _ _ => ?_
  refine Simulates.of_forall_eq ?_
  rintro w ⟨rfl, hw⟩
  refine ((parsed_symbolized_simulates hsep .strip).weaken (fun _ h => h ▸ hw) (fun _ _ _ h => h)
    fun _ h => h).bind fun symbolized _ _ => ?_
  exact simulates_pure fun _ h => ⟨by rw [h.1], h.2⟩

end Compare

end OnDisk

end Checklib
