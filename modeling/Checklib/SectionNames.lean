import Checklib.Model.Reader

/-!
# Addresses in section names

A section of the checker's format is named by a dot, its kind, a dot,
eight hexadecimal digits and at most one type character. The kind may
hold dots and hexadecimal digits of its own; the run that reads it gives
back characters until the last dot of the name, so the digits it leaves
are the name's last eight. A name outside the format is decoded too, if it
opens as one of the format does: nothing asks that the name end there.
-/

namespace Checklib

open Common Backtrack

variable {rt : Runtime}

/-- **The checker's format**: a name, and the address it stands for. The
classes of characters are the expression's own, digits and word characters
being Unicode's. -/
def NamedAt (rt : Runtime) (name : String) (a : ℕ) : Prop :=
  ∃ kind digits suffix : List Char, name.toList = '.' :: (kind ++ '.' :: (digits ++ suffix)) ∧
    kind ≠ [] ∧ (∀ c ∈ kind, isKindChar rt c) ∧
    digits.length = 8 ∧ (∀ c ∈ digits, isHexDigit rt c) ∧ hexValue rt digits = a ∧
    (suffix = [] ∨ ∃ c, suffix = [c] ∧ rt.isWord c)

theorem isWord_dot : rt.isWord '.' = false := by
  rw [rt.isWord_ascii '.' (by decide)]
  decide

theorem decimal_dot : rt.decimal '.' = none := by
  rw [rt.decimal_ascii '.' (by decide)]
  decide

theorem isHexDigit_dot : isHexDigit rt '.' = false := by
  simp only [isHexDigit, decimal_dot]
  decide

/-- A character that is no digit is not among digits. -/
theorem notMem_digits {digits : List Char} {c : Char} (hc : isHexDigit rt c = false)
    (hhex : ∀ d ∈ digits, isHexDigit rt d) : c ∉ digits := by
  intro hm
  have h := hhex c hm
  rw [hc] at h
  exact Bool.false_ne_true h

/-- There is no dot among digits, nor after them unless there is one. -/
theorem not_dot_mem {digits suffix : List Char} (hhex : ∀ c ∈ digits, isHexDigit rt c)
    (hsuffix : '.' ∉ suffix) : '.' ∉ digits ++ suffix := by
  rw [List.mem_append, not_or]
  exact ⟨notMem_digits isHexDigit_dot hhex, hsuffix⟩

/-- A suffix of the format is a character at most, and no dot. -/
theorem suffix_length_le {suffix : List Char}
    (h : suffix = [] ∨ ∃ c, suffix = [c] ∧ rt.isWord c) : suffix.length ≤ 1 ∧ '.' ∉ suffix := by
  rcases h with rfl | ⟨c, rfl, hc⟩
  · exact ⟨Nat.zero_le _, List.not_mem_nil⟩
  · refine ⟨Nat.le_refl _, fun hm => ?_⟩
    obtain rfl := List.mem_singleton.1 hm
    rw [isWord_dot] at hc
    exact absurd hc (by decide)

/-- A continuation that accepts everything makes the last character
optional indeed. -/
theorem opt_const {p : Char → Bool} {digits cs : List Char} :
    opt p (fun _ => some digits) cs = some digits := by
  cases cs with
  | nil => rfl
  | cons c cs => cases hc : p c <;> simp [opt, hc]

/-- What follows the kind: a dot and eight digits, which are the match. -/
theorem tail_eq_some_iff {rest digits : List Char} :
    one (· == '.') (group (isHexDigit rt) 8 fun digits => opt rt.isWord fun _ => some digits) rest =
        some digits ↔
      ∃ suffix, rest = '.' :: (digits ++ suffix) ∧ digits.length = 8 ∧
        ∀ c ∈ digits, isHexDigit rt c := by
  rw [one_eq_some_iff]
  constructor
  · rintro ⟨c, t, rfl, hc, h⟩
    obtain ⟨g, suffix, rfl, hlen, hhex, hg⟩ := group_eq_some_iff.1 h
    rw [opt_const] at hg
    obtain rfl := Option.some.inj hg
    exact ⟨suffix, by rw [beq_iff_eq.1 hc], hlen, hhex⟩
  · rintro ⟨suffix, rfl, hlen, hhex⟩
    exact ⟨'.', _, rfl, rfl, group_eq_some_iff.2 ⟨digits, suffix, rfl, hlen, hhex, opt_const⟩⟩

/-- **A name opens in the format**: a dot, a kind, a dot and eight digits,
whatever the rest of it is. -/
structure Opens (rt : Runtime) (name kind digits rest : List Char) : Prop where
  eq : name = '.' :: (kind ++ '.' :: (digits ++ rest))
  kind_ne : kind ≠ []
  kind_chars : ∀ c ∈ kind, isKindChar rt c
  digits_length : digits.length = 8
  digits_hex : ∀ c ∈ digits, isHexDigit rt c

/-- **What the expression matches**: the digits after the longest kind the
name opens with. -/
theorem matchName_eq_some_iff {name digits : List Char} :
    matchName rt name = some digits ↔ ∃ kind rest, Opens rt name kind digits rest ∧
      ∀ kind' digits' rest', Opens rt name kind' digits' rest' → kind'.length ≤ kind.length := by
  constructor
  · intro h
    obtain ⟨d, t, rfl, hd, hplus⟩ := one_eq_some_iff.1 h
    obtain rfl : d = '.' := beq_iff_eq.1 hd
    obtain ⟨c, cs, rfl, hc, hstar⟩ := one_eq_some_iff.1 hplus
    obtain ⟨run, rest, rfl, hrun, htail, hlong⟩ := exists_of_star_eq_some hstar
    obtain ⟨suffix, rfl, hlen, hhex⟩ := tail_eq_some_iff.1 htail
    refine ⟨c :: run, suffix, ⟨rfl, List.cons_ne_nil _ _, List.forall_mem_cons.2 ⟨hc, hrun⟩, hlen,
      hhex⟩, ?_⟩
    intro kind' digits' rest' h'
    by_contra hlt
    -- a longer kind is a longer run, and would have been taken
    obtain ⟨c', run', rfl⟩ := List.exists_cons_of_ne_nil h'.kind_ne
    obtain ⟨-, htext⟩ := List.cons.inj h'.eq
    obtain ⟨rfl, he⟩ := List.cons.inj htext
    have hnone := hlong run' _ he (List.forall_mem_cons.1 h'.kind_chars).2 (by simpa using hlt)
    have hsome := tail_eq_some_iff.2 ⟨rest', rfl, h'.digits_length, h'.digits_hex⟩
    exact Option.some_ne_none _ (hsome.symm.trans hnone)
  · rintro ⟨kind, rest, h, hlong⟩
    obtain ⟨c, run, rfl⟩ := List.exists_cons_of_ne_nil h.kind_ne
    obtain ⟨hc, hrun⟩ := List.forall_mem_cons.1 h.kind_chars
    have htail := tail_eq_some_iff.2 ⟨rest, rfl, h.digits_length, h.digits_hex⟩
    rw [h.eq]
    refine one_eq_some_iff.2 ⟨'.', _, rfl, rfl, one_eq_some_iff.2 ⟨c, _, rfl, hc, ?_⟩⟩
    refine star_of_longest hrun htail fun run' rest' he hrun' hlt => ?_
    by_contra hne
    obtain ⟨digits', hsome⟩ := Option.ne_none_iff_exists'.1 hne
    obtain ⟨suffix, rfl, hlen, hhex⟩ := tail_eq_some_iff.1 hsome
    have hle := hlong (c :: run') digits' suffix ⟨by rw [h.eq, List.cons_append, he]; rfl,
      List.cons_ne_nil _ _, List.forall_mem_cons.2 ⟨hc, hrun'⟩, hlen, hhex⟩
    rw [List.length_cons, List.length_cons] at hle
    omega

/-- **What the expression does not match**: a name that opens in no way. -/
theorem matchName_eq_none_iff {name : List Char} :
    matchName rt name = none ↔ ∀ kind digits rest, ¬ Opens rt name kind digits rest := by
  constructor
  · intro hnone kind digits rest h
    obtain ⟨c, run, rfl⟩ := List.exists_cons_of_ne_nil h.kind_ne
    obtain ⟨hc, hrun⟩ := List.forall_mem_cons.1 h.kind_chars
    have htail := tail_eq_some_iff.2 ⟨rest, rfl, h.digits_length, h.digits_hex⟩
    rw [h.eq, List.cons_append, matchName, one, if_pos (beq_self_eq_true _), plus, one, if_pos hc]
      at hnone
    exact Option.some_ne_none _ (htail.symm.trans (star_eq_none_iff.1 hnone run _ rfl hrun))
  · intro hno
    by_contra hne
    obtain ⟨digits, hsome⟩ := Option.ne_none_iff_exists'.1 hne
    obtain ⟨kind, rest, h, -⟩ := matchName_eq_some_iff.1 hsome
    exact hno kind digits rest h

/-- **The match on a name of the format** is its eight digits. -/
theorem matchName_of_format {kind digits suffix : List Char} (hkind : kind ≠ [])
    (hk : ∀ c ∈ kind, isKindChar rt c) (hlen : digits.length = 8)
    (hhex : ∀ c ∈ digits, isHexDigit rt c) (hsuffix : '.' ∉ suffix) :
    matchName rt ('.' :: (kind ++ '.' :: (digits ++ suffix))) = some digits := by
  obtain ⟨c, run, rfl⟩ := List.exists_cons_of_ne_nil hkind
  have hdots := not_dot_mem hhex hsuffix
  have htail := tail_eq_some_iff.2 ⟨suffix, rfl, hlen, hhex⟩
  have hstar := star_of_sep (fun d hd => hk d (List.mem_cons_of_mem _ hd)) htail
    (fun rest w hw => by
      obtain ⟨t, rfl, -⟩ := tail_eq_some_iff.1 hw
      exact ⟨_, rfl⟩) hdots
  refine one_eq_some_iff.2 ⟨'.', _, rfl, rfl, one_eq_some_iff.2 ⟨c, _, rfl, ?_, hstar⟩⟩
  exact hk c List.mem_cons_self

/-- **A section of the format is at the address its name gives.** -/
theorem resolveSectionVaddr_of_namedAt {s : Section} {a : ℕ} (hs : s.shAddr = 0)
    (h : NamedAt rt s.name a) (why : Why) : resolveSectionVaddr rt why s = .ok a := by
  obtain ⟨kind, digits, suffix, hname, hkind, hk, hlen, hhex, rfl, hsuffix⟩ := h
  have hmatch := matchName_of_format hkind hk hlen hhex (suffix_length_le hsuffix).2
  rw [resolveSectionVaddr, if_neg (by simpa using hs), hname, hmatch]

/-! ## Names outside the format -/

/-- A section without an address is a value error. -/
theorem isValueError_of_resolve {why : Why} {s : Section} {e : PyError}
    (h : resolveSectionVaddr rt why s = .error e) : e.IsValueError := by
  rw [resolveSectionVaddr] at h
  split at h
  · cases h
  · split at h
    · cases h
    · obtain rfl := Except.error.inj h
      trivial

/-- **A section without an address** is at the one its name matches. -/
theorem resolveSectionVaddr_eq_ok_iff {s : Section} {a : ℕ} (hs : s.shAddr = 0) (why : Why) :
    resolveSectionVaddr rt why s = .ok a ↔
      ∃ digits, matchName rt s.name.toList = some digits ∧ hexValue rt digits = a := by
  rw [resolveSectionVaddr, if_neg (by simpa using hs)]
  cases matchName rt s.name.toList with
  | none => simp
  | some digits => simp

/-- It has none where the name does not match, and that is a value error. -/
theorem resolveSectionVaddr_of_noMatch {s : Section} (hs : s.shAddr = 0)
    (h : matchName rt s.name.toList = none) (why : Why) :
    resolveSectionVaddr rt why s = .error (.unresolvable why s.name) := by
  rw [resolveSectionVaddr, if_neg (by simpa using hs), h]

/-- **A name of the format ends soon after its last dot**: in the digits and
one character. -/
theorem NamedAt.length_le {name : String} {a : ℕ} (h : NamedAt rt name a) :
    (name.toList.reverse.takeWhile (· != '.')).length ≤ 9 := by
  obtain ⟨kind, digits, suffix, hname, -, -, hlen, hhex, -, hsuffix⟩ := h
  obtain ⟨hone, hdot⟩ := suffix_length_le hsuffix
  have hall : ∀ c ∈ (digits ++ suffix).reverse, (c != '.') = true := by
    intro c hc
    rw [bne_iff_ne]
    rintro rfl
    exact not_dot_mem hhex hdot (List.mem_reverse.1 hc)
  have hrev : name.toList.reverse = (digits ++ suffix).reverse ++ '.' :: ('.' :: kind).reverse := by
    rw [hname]
    simp
  rw [hrev, List.takeWhile_append_of_pos hall, List.takeWhile_cons_of_neg (by decide),
    List.append_nil, List.length_reverse, List.length_append, hlen]
  omega

/-- **Only names of the format are decoded, exactly where** the name is one
or does not even open like one: what follows the digits is not looked at. -/
theorem resolveSectionVaddr_strict_iff (rt : Runtime) (s : Section) (hs : s.shAddr = 0) :
    ((∀ why a, resolveSectionVaddr rt why s = .ok a → NamedAt rt s.name a) ∧
      ((∀ a, ¬ NamedAt rt s.name a) → ∀ why, ∃ e, resolveSectionVaddr rt why s = .error e ∧
        e.IsValueError)) ↔
    (∃ a, NamedAt rt s.name a) ∨
      ∀ kind digits rest, ¬ Opens rt s.name.toList kind digits rest := by
  constructor
  · rintro ⟨hok, -⟩
    cases hmatch : matchName rt s.name.toList with
    | none => exact .inr (matchName_eq_none_iff.1 hmatch)
    | some digits =>
      have hres := (resolveSectionVaddr_eq_ok_iff hs (.vaddr 0)).2 ⟨digits, hmatch, rfl⟩
      exact .inl ⟨_, hok _ _ hres⟩
  · rintro (⟨a, hname⟩ | hno)
    · refine ⟨?_, fun hnot => absurd hname (hnot a)⟩
      intro why a' hres
      obtain rfl := Except.ok.inj ((resolveSectionVaddr_of_namedAt hs hname why).symm.trans hres)
      exact hname
    · have hres := resolveSectionVaddr_of_noMatch hs (matchName_eq_none_iff.2 hno)
      refine ⟨fun why a h => ?_, fun _ why => ⟨_, hres why, trivial⟩⟩
      rw [hres why] at h
      cases h

/-- A section of the format. -/
def formatSection : Section where
  name := ".text.40030000f"
  shType := .SHT_PROGBITS

theorem resolveSectionVaddr_strict_iff_sample : NamedAt .ascii formatSection.name 0x40030000 :=
  ((resolveSectionVaddr_strict_iff .ascii formatSection rfl).2 (.inl ⟨0x40030000, "text".toList,
    "40030000".toList, ['f'], by decide, by decide, List.all_eq_true.1 rfl, rfl,
    List.all_eq_true.1 rfl, by decide, .inr ⟨'f', rfl, by decide⟩⟩)).1 (.vaddr 0) _ (by decide)

/-- A function's section, whose function happens to begin with eight
hexadecimal digits. -/
def functionSection : Section where
  name := ".text.deadbeef_init"
  shType := .SHT_PROGBITS

/-- **It is decoded**, and not of the format. -/
theorem resolveSectionVaddr_functionSection :
    ¬ ((∀ why a, resolveSectionVaddr .ascii why functionSection = .ok a →
        NamedAt .ascii functionSection.name a) ∧
      ((∀ a, ¬ NamedAt .ascii functionSection.name a) → ∀ why, ∃ e,
        resolveSectionVaddr .ascii why functionSection = .error e ∧ e.IsValueError)) := by
  rintro ⟨hok, -⟩
  have hlen := (hok (.vaddr 0) 0xdeadbeef (by decide)).length_le
  exact absurd hlen (by decide)

end Checklib
