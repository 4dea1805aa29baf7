import Checklib.Common.Except
import Checklib.Products
import Mathlib.Tactic.Ring

/-!
# What the convolution benchmark computes

The loops of `conv.c` come back to an output cell once for every input
channel, and the first time they start it with the bias. What is left in
the cell is the bias and the filter's products with a window of the input,
over all channels: the order of the loops does not matter, and nothing is
read beside the window, so that no index leaves its array. The output is
not read otherwise, so a second run makes the same of it.
-/

namespace Checklib

namespace IoTBench

open Common

/-! ## Indices -/

theorem outSize_eq {i k s : ℕ} (h : k ≤ i) : outSize i k s = (i - k) / s + 1 := by
  unfold outSize
  rw [← Nat.cast_sub h, ← Int.ofNat_tdiv]
  rfl

/-- **A window lies in the input.** -/
theorem window_lt {i k s x l : ℕ} (h : k ≤ i) (hx : x < outSize i k s) (hl : l < k) :
    l + x * s < i := by
  rw [outSize_eq h] at hx
  have hstart : x * s ≤ i - k :=
    (Nat.mul_le_mul_right s (Nat.le_of_lt_succ hx)).trans (Nat.div_mul_le_self _ _)
  omega

namespace Shape

variable (d : Shape)

/-- The filter is no larger than the input, and moves. -/
structure Fits : Prop where
  stride : 0 < d.s
  width : d.kw ≤ d.iw
  height : d.kh ≤ d.ih
  depth : d.kd ≤ d.id

/-- How many cells the arrays have. -/
def inCells : ℕ := d.ic * d.id * d.ih * d.iw
def outCells : ℕ := d.oc * d.od * d.oh * d.ow
def filterCells : ℕ := d.oc * d.ic * d.kd * d.kh * d.kw

variable {d} {no no' ni z z' y y' x x' kz ky kx : ℕ}

theorem oIdx_eq : d.oIdx no z y x = ((no * d.od + z) * d.oh + y) * d.ow + x := by
  unfold oIdx
  ring

theorem iIdx_eq : d.iIdx ni z y x = ((ni * d.id + z) * d.ih + y) * d.iw + x := by
  unfold iIdx
  ring

theorem wIdx_eq :
    d.wIdx no ni kz ky kx = (((no * d.ic + ni) * d.kd + kz) * d.kh + ky) * d.kw + kx := by
  unfold wIdx
  ring

theorem oIdx_lt (hno : no < d.oc) (hz : z < d.od) (hy : y < d.oh) (hx : x < d.ow) :
    d.oIdx no z y x < d.outCells := by
  rw [oIdx_eq]
  exact row_lt (row_lt (row_lt hno hz) hy) hx

theorem iIdx_lt (hni : ni < d.ic) (hz : z < d.id) (hy : y < d.ih) (hx : x < d.iw) :
    d.iIdx ni z y x < d.inCells := by
  rw [iIdx_eq]
  exact row_lt (row_lt (row_lt hni hz) hy) hx

theorem wIdx_lt (hno : no < d.oc) (hni : ni < d.ic) (hkz : kz < d.kd) (hky : ky < d.kh)
    (hkx : kx < d.kw) : d.wIdx no ni kz ky kx < d.filterCells := by
  rw [wIdx_eq]
  exact row_lt (row_lt (row_lt (row_lt hno hni) hkz) hky) hkx

/-- **No two outputs share a cell.** -/
theorem oIdx_inj (hz : z < d.od) (hz' : z' < d.od) (hy : y < d.oh) (hy' : y' < d.oh)
    (hx : x < d.ow) (hx' : x' < d.ow) (h : d.oIdx no z y x = d.oIdx no' z' y' x') :
    no = no' ∧ z = z' ∧ y = y' ∧ x = x' := by
  rw [oIdx_eq, oIdx_eq] at h
  obtain ⟨hrow, rfl⟩ := row_inj hx hx' h
  obtain ⟨hlayer, rfl⟩ := row_inj hy hy' hrow
  obtain ⟨rfl, rfl⟩ := row_inj hz hz' hlayer
  exact ⟨rfl, rfl, rfl, rfl⟩

/-! ## A turn of the loops -/

section Pixel

variable {R : Type} [NonUnitalNonAssocSemiring R] {inp out filter bias : ℕ} {m m₀ : Cells R}

/-- What the loops over the filter do to the output cell, in a turn of the
loops around them. -/
def pixel (d : Shape) (inp out filter bias no ni z y x : ℕ) (m : Cells R) : Cells R :=
  let o := out + d.oIdx no z y x
  forRange (fun kz => forRange (fun ky => forRange (fun kx m =>
    store o (m o + m (inp + d.iIdx ni (kz + z * d.s) (ky + y * d.s) (kx + x * d.s)) *
      m (filter + d.wIdx no ni kz ky kx)) m) d.kw) d.kh) d.kd
    (if ni = 0 then store o (m (bias + no)) m else m)

/-- **The filter on a window**, in one channel. -/
def window (d : Shape) (inp filter : ℕ) (m : Cells R) (no ni z y x : ℕ) : R :=
  ∑ kz ∈ Finset.range d.kd, ∑ ky ∈ Finset.range d.kh, ∑ kx ∈ Finset.range d.kw,
    m (inp + d.iIdx ni (kz + z * d.s) (ky + y * d.s) (kx + x * d.s)) *
      m (filter + d.wIdx no ni kz ky kx)

/-- **What an output is**: the bias, and the filter on a window in every
channel. -/
def output (d : Shape) (inp filter bias : ℕ) (m : Cells R) (no z y x : ℕ) : R :=
  m (bias + no) + ∑ ni ∈ Finset.range d.ic, d.window inp filter m no ni z y x

/-- The cells that are read. -/
def operands (d : Shape) (inp filter bias : ℕ) : Set ℕ :=
  {q | (∃ e < d.inCells, q = inp + e) ∨ (∃ e < d.filterCells, q = filter + e) ∨
    ∃ no < d.oc, q = bias + no}

/-- The output is apart from what is read. -/
structure Apart (d : Shape) (inp out filter bias : ℕ) : Prop where
  inp : IoTBench.Apart out d.outCells inp d.inCells
  filter : IoTBench.Apart out d.outCells filter d.filterCells
  bias : IoTBench.Apart out d.outCells bias d.oc

theorem Apart.fresh (h : d.Apart inp out filter bias) {e : ℕ} (he : e < d.outCells) :
    out + e ∉ d.operands inp filter bias := by
  rintro (⟨i, hi, heq⟩ | ⟨i, hi, heq⟩ | ⟨i, hi, heq⟩)
  · exact h.inp e he i hi heq
  · exact h.filter e he i hi heq
  · exact h.bias e he i hi heq

/-- Every index that is read is one of the operands'. -/
theorem Fits.read (h : d.Fits) (hno : no < d.oc) (hni : ni < d.ic) (hz : z < d.od)
    (hy : y < d.oh) (hx : x < d.ow) (hkz : kz < d.kd) (hky : ky < d.kh) (hkx : kx < d.kw) :
    d.iIdx ni (kz + z * d.s) (ky + y * d.s) (kx + x * d.s) < d.inCells ∧
      d.wIdx no ni kz ky kx < d.filterCells :=
  ⟨iIdx_lt hni (window_lt h.depth hz hkz) (window_lt h.height hy hky) (window_lt h.width hx hkx),
    wIdx_lt hno hni hkz hky hkx⟩

/-- **The cell of a turn**: it is set to the bias in the first channel, and
the filter on a window is added. -/
theorem pixel_acts (hfits : d.Fits) (hapart : d.Apart inp out filter bias) (hno : no < d.oc)
    (hni : ni < d.ic) (hz : z < d.od) (hy : y < d.oh) (hx : x < d.ow) :
    Acts (d.operands inp filter bias) m₀ (out + d.oIdx no z y x)
      (d.pixel inp out filter bias no ni z y x)
      (fun v => (if ni = 0 then m₀ (bias + no) else v) +
        d.window inp filter m₀ no ni z y x) := by
  have hfresh := hapart.fresh (oIdx_lt hno hz hy hx)
  have hstart : Acts (d.operands inp filter bias) m₀ (out + d.oIdx no z y x)
      (fun m => if ni = 0 then store (out + d.oIdx no z y x) (m (bias + no)) m else m)
      (fun v => if ni = 0 then m₀ (bias + no) else v) := by
    by_cases hfirst : ni = 0
    · simp only [if_pos hfirst]
      exact acts_store hfresh fun m hm => hm (.inr (.inr ⟨no, hno, rfl⟩))
    · simp only [if_neg hfirst]
      exact fun m hm => ⟨hm, rfl⟩
  refine hstart.seq (acts_forRange_sum fun kz hkz => acts_forRange_sum fun ky hky =>
    acts_accumulate hfresh fun kx hkx m hm => ?_)
  obtain ⟨hin, hfilter⟩ := hfits.read hno hni hz hy hx hkz hky hkx
  rw [hm (.inl ⟨_, hin, rfl⟩), hm (.inr (.inl ⟨_, hfilter, rfl⟩))]

/-- Other cells are left alone. -/
theorem pixel_acts_id {known : Set ℕ} {q : ℕ} (hfresh : out + d.oIdx no z y x ∉ known)
    (hne : q ≠ out + d.oIdx no z y x) :
    Acts known m₀ q (d.pixel inp out filter bias no ni z y x) fun v => v := by
  have hstart : Acts known m₀ q
      (fun m => if ni = 0 then store (out + d.oIdx no z y x) (m (bias + no)) m else m)
      fun v => v := by
    by_cases hfirst : ni = 0
    · simp only [if_pos hfirst]
      exact acts_store_ne hfresh hne
    · simp only [if_neg hfirst]
      exact fun m hm => ⟨hm, rfl⟩
  exact hstart.seq (acts_forRange_id fun kz _ => acts_forRange_id fun ky _ =>
    acts_forRange_id fun kx _ => acts_store_ne hfresh hne)

end Pixel

/-! ## The loops -/

section Loops

variable {R : Type} [NonUnitalNonAssocSemiring R] {inp out filter bias q : ℕ} {m m' m₀ : Cells R}

/-- **A cell in a channel**: one turn of the loops over the output is its. -/
theorem channel_acts (hfits : d.Fits) (hapart : d.Apart inp out filter bias) (hno : no < d.oc)
    (hni : ni < d.ic) (hz : z < d.od) (hy : y < d.oh) (hx : x < d.ow) :
    Acts (d.operands inp filter bias) m₀ (out + d.oIdx no z y x)
      (forRange (fun z => forRange (fun y => forRange (fun x =>
        d.pixel inp out filter bias no ni z y x) d.ow) d.oh) d.od)
      (fun v => (if ni = 0 then m₀ (bias + no) else v) +
        d.window inp filter m₀ no ni z y x) := by
  have hother : ∀ z' < d.od, ∀ y' < d.oh, ∀ x' < d.ow, (z' ≠ z ∨ y' ≠ y ∨ x' ≠ x) →
      Acts (d.operands inp filter bias) m₀ (out + d.oIdx no z y x)
        (d.pixel inp out filter bias no ni z' y' x') fun v => v := by
    intro z' hz' y' hy' x' hx' hne
    refine pixel_acts_id (hapart.fresh (oIdx_lt hno hz' hy' hx')) fun heq => ?_
    obtain ⟨-, rfl, rfl, rfl⟩ := oIdx_inj hz hz' hy hy' hx hx' (Nat.add_left_cancel heq)
    simp at hne
  refine acts_forRange_single hz (fun z' hz' hne => ?_)
    (acts_forRange_single hy (fun y' hy' hne => ?_)
      (acts_forRange_single hx (fun x' hx' hne => ?_)
        (pixel_acts hfits hapart hno hni hz hy hx)))
  · exact acts_forRange_id fun y' hy' => acts_forRange_id fun x' hx' =>
      hother z' hz' y' hy' x' hx' (.inl hne)
  · exact acts_forRange_id fun x' hx' => hother z hz y' hy' x' hx' (.inr (.inl hne))
  · exact hother z hz y hy x' hx' (.inr (.inr hne))

/-- The first channel starts the cell, and all add to it. -/
theorem forRange_channels (b v : R) (c : ℕ → R) {k : ℕ} (hk : 0 < k) :
    forRange (fun i v => (if i = 0 then b else v) + c i) k v = b + ∑ i ∈ Finset.range k, c i := by
  induction k with
  | zero => exact absurd hk (Nat.lt_irrefl 0)
  | succ k ih =>
    show (if k = 0 then b else forRange _ k v) + c k = _
    rw [Finset.sum_range_succ, ← add_assoc]
    rcases Nat.eq_zero_or_pos k with rfl | hpos
    · rw [if_pos rfl, Finset.sum_range_zero, add_zero]
    · rw [if_neg (Nat.ne_of_gt hpos), ih hpos]

theorem conv_apply (hic : 0 < d.ic) (hfits : d.Fits) (hapart : d.Apart inp out filter bias)
    (hno : no < d.oc) (hz : z < d.od) (hy : y < d.oh) (hx : x < d.ow) :
    d.conv inp out filter bias m (out + d.oIdx no z y x) = d.output inp filter bias m no z y x := by
  have hother : ∀ no' < d.oc, no' ≠ no → Acts (d.operands inp filter bias) m
      (out + d.oIdx no z y x) (forRange (fun ni => forRange (fun z => forRange (fun y =>
        forRange (fun x => d.pixel inp out filter bias no' ni z y x) d.ow) d.oh) d.od) d.ic)
      fun v => v := by
    refine fun no' hno' hne => acts_forRange_id fun ni _ => acts_forRange_id fun z' hz' =>
      acts_forRange_id fun y' hy' => acts_forRange_id fun x' hx' =>
        pixel_acts_id (hapart.fresh (oIdx_lt hno' hz' hy' hx')) fun heq => ?_
    exact hne (oIdx_inj hz hz' hy hy' hx hx' (Nat.add_left_cancel heq)).1.symm
  have hacts : Acts (d.operands inp filter bias) m (out + d.oIdx no z y x)
      (d.conv inp out filter bias) fun _ => d.output inp filter bias m no z y x :=
    acts_forRange_single hno hother <|
      (acts_forRange fun ni hni => channel_acts hfits hapart hno hni hz hy hx).congr
        fun v => forRange_channels _ v _ hic
  exact hacts.apply

theorem conv_else (hq : ∀ e < d.outCells, q ≠ out + e) : d.conv inp out filter bias m q = m q := by
  have hacts : Acts ∅ m q (d.conv inp out filter bias) fun v => v :=
    acts_forRange_id fun no hno => acts_forRange_id fun ni _ => acts_forRange_id fun z hz =>
      acts_forRange_id fun y hy => acts_forRange_id fun x hx =>
        pixel_acts_id (Set.notMem_empty _) (hq _ (oIdx_lt hno hz hy hx))
  exact hacts.apply

/-- An output depends on the operands alone. -/
theorem output_congr (hfits : d.Fits) (h : Set.EqOn m' m (d.operands inp filter bias))
    (hno : no < d.oc) (hz : z < d.od) (hy : y < d.oh) (hx : x < d.ow) :
    d.output inp filter bias m' no z y x = d.output inp filter bias m no z y x := by
  unfold output window
  rw [h (.inr (.inr ⟨no, hno, rfl⟩))]
  refine congrArg (m (bias + no) + ·) (Finset.sum_congr rfl fun ni hni =>
    Finset.sum_congr rfl fun kz hkz => Finset.sum_congr rfl fun ky hky =>
      Finset.sum_congr rfl fun kx hkx => ?_)
  rw [Finset.mem_range] at hni hkz hky hkx
  obtain ⟨hin, hfilter⟩ := hfits.read hno hni hz hy hx hkz hky hkx
  rw [h (.inl ⟨_, hin, rfl⟩), h (.inr (.inl ⟨_, hfilter, rfl⟩))]

/-! Any number of runs. -/

theorem runs_else (hq : ∀ e < d.outCells, q ≠ out + e) (t : ℕ) :
    forRange (fun _ => d.conv inp out filter bias) t m q = m q := by
  induction t with
  | zero => rfl
  | succ t ih => exact (conv_else hq).trans ih

theorem runs_apply (hic : 0 < d.ic) (hfits : d.Fits) (hapart : d.Apart inp out filter bias)
    (hno : no < d.oc) (hz : z < d.od) (hy : y < d.oh) (hx : x < d.ow) {t : ℕ} (ht : 0 < t) :
    forRange (fun _ => d.conv inp out filter bias) t m (out + d.oIdx no z y x) =
      d.output inp filter bias m no z y x := by
  cases t with
  | zero => exact absurd ht (Nat.lt_irrefl 0)
  | succ t =>
    refine (conv_apply hic hfits hapart hno hz hy hx).trans
      (output_congr hfits (fun q hq => runs_else (fun e he heq => ?_) t) hno hz hy hx)
    exact hapart.fresh he (heq ▸ hq)

/-- **Runs of a convolution, from any memory**: every output is the bias and
the filter on its window in all channels, however often the loops are run,
and nothing else changes. -/
theorem conv_eq (hic : 0 < d.ic) (hfits : d.Fits) (hapart : d.Apart inp out filter bias)
    (m : Cells R) {t : ℕ} (ht : 0 < t) :
    (∀ no < d.oc, ∀ z < d.od, ∀ y < d.oh, ∀ x < d.ow,
      forRange (fun _ => d.conv inp out filter bias) t m (out + d.oIdx no z y x) =
        d.output inp filter bias m no z y x) ∧
    ∀ q, (∀ e < d.outCells, q ≠ out + e) →
      forRange (fun _ => d.conv inp out filter bias) t m q = m q :=
  ⟨fun _ hno _ hz _ hy _ hx => runs_apply hic hfits hapart hno hz hy hx ht,
    fun _ hq => runs_else hq t⟩

end Loops

/-- An image of three channels under a filter of side 2. -/
def image : Shape := ⟨3, 1, 1, 4, 4, 1, 2, 2, 1⟩

theorem image_fits : image.Fits := ⟨by decide, by decide, by decide, by decide⟩

theorem image_apart : image.Apart 0 48 57 69 :=
  ⟨(apart_of_le (by decide)).symm, apart_of_le (by decide), apart_of_le (by decide)⟩

theorem conv_eq_sample :
    (∀ no < image.oc, ∀ z < image.od, ∀ y < image.oh, ∀ x < image.ow,
      forRange (fun _ => image.conv 0 48 57 69) 10 (fun q => (q : ℤ)) (48 + image.oIdx no z y x) =
        image.output 0 57 69 (fun q => (q : ℤ)) no z y x) ∧
    ∀ q, (∀ e < image.outCells, q ≠ 48 + e) →
      forRange (fun _ => image.conv 0 48 57 69) 10 (fun q => (q : ℤ)) q = q :=
  conv_eq (by decide) image_fits image_apart (fun q => (q : ℤ)) (by decide)

end Shape

/-! ## The block -/

section Block

variable {dim : Dim} {ic oc s k g i j blksize turns : ℕ}

theorem outSide_eq (hi : k ≤ i) (hsmall : i + 1 < 2 ^ 32) :
    outSide k s i = (i - k) / s + 1 := by
  have hdiv := Nat.div_le_self (i - k) s
  have hwrap : wrap (i + (2 ^ 32 - k)) = i - k := by
    unfold wrap
    omega
  unfold outSide
  rw [hwrap]
  exact Nat.mod_eq_of_lt (by omega)

/-- A larger input needs more cells. -/
theorem convCells_mono (hi : k ≤ i) (hij : i ≤ j) (hsmall : j + 1 < 2 ^ 32) :
    convCells dim ic oc s k i ≤ convCells dim ic oc s k j := by
  have hout : outSide k s i ≤ outSide k s j := by
    rw [outSide_eq hi (by omega), outSide_eq (hi.trans hij) hsmall]
    exact Nat.succ_le_succ (Nat.div_le_div_right (Nat.sub_le_sub_right hij k))
  have hin := Nat.mul_le_mul_right ic (size_mono dim hij)
  have hcells := Nat.mul_le_mul_right oc (size_mono dim hout)
  unfold convCells
  omega

/-- The side of a block whose search gets past the filter. -/
theorem convSide_ok (hic : 0 < ic) (hk : 0 < k) (hblk : 0 < blksize) (hg : k < g)
    (hsmall : convBytes dim ic oc s k g < 2 ^ 32) (hfit : blksize ≤ convBytes dim ic oc s k g)
    (hstart : ∀ i ≤ k, 0 < i → wrap (convBytes dim ic oc s k i) < blksize)
    (henough : g < turns) :
    ∃ n, scale blksize (convBytes dim ic oc s k) turns = .ok (n + 1) ∧ k ≤ n ∧ n + 1 < 2 ^ 32 ∧
      convBytes dim ic oc s k n ≤ blksize ∧ blksize ≤ convBytes dim ic oc s k (n + 1) := by
  have hgsmall : g + 1 < 2 ^ 32 := by
    have hside := (le_size dim g).trans (Nat.le_mul_of_pos_right (dim.size g) hic)
    unfold convBytes convCells at hsmall
    omega
  have hbytes : ∀ i, k ≤ i → i ≤ g → wrap (convBytes dim ic oc s k i) = convBytes dim ic oc s k i ∧
      convBytes dim ic oc s k i ≤ convBytes dim ic oc s k g := by
    intro i hki hig
    have hle : convBytes dim ic oc s k i ≤ convBytes dim ic oc s k g :=
      Nat.mul_le_mul_right 4 (convCells_mono hki hig hgsmall)
    exact ⟨Nat.mod_eq_of_lt (Nat.lt_of_le_of_lt hle hsmall), hle⟩
  have hlast : blksize ≤ wrap (convBytes dim ic oc s k g) := by
    rwa [(hbytes g (Nat.le_of_lt hg) (Nat.le_refl g)).1]
  obtain ⟨i, hscale, hpos, hig, hi, hless⟩ :=
    scale_ok hblk hlast (Nat.zero_lt_of_lt hg) (by omega) henough
  have hki : k < i := by
    refine Nat.lt_of_not_le fun hik => ?_
    exact absurd (hstart i hik hpos) (Nat.not_lt.2 hi)
  obtain ⟨n, rfl⟩ : ∃ n, i = n + 1 := ⟨i - 1, by omega⟩
  have hkn : k ≤ n := Nat.le_of_lt_succ hki
  rw [(hbytes (n + 1) (Nat.le_of_lt hki) hig).1] at hi
  have hbefore := hless n (Nat.lt_of_lt_of_le hk hkn) (Nat.lt_succ_self n)
  rw [(hbytes n hkn (by omega)).1] at hbefore
  exact ⟨n, hscale, hkn, by omega, Nat.le_of_lt hbefore, hi⟩

/-- The sizes the arrays of a block are run with. -/
def ConvParams.shape (p : ConvParams) (dim : Dim) : Shape :=
  match dim with
  | .one => ⟨p.inChannel, p.outChannel, p.stride, p.inWidth, 1, 1, p.filterSize, 1, 1⟩
  | .two => ⟨p.inChannel, p.outChannel, p.stride, p.inWidth, p.inHeight, 1, p.filterSize,
      p.filterSize, 1⟩
  | .three => ⟨p.inChannel, p.outChannel, p.stride, p.inWidth, p.inHeight, p.inDepth,
      p.filterSize, p.filterSize, p.filterSize⟩

theorem iterate_eq_conv {R : Type} [Zero R] [Add R] [Mul R] (p : ConvParams) (dim : Dim) :
    p.iterate dim = (p.shape dim).conv (R := R) p.inp p.out p.filter p.bias := by
  cases dim with
  | one => rfl
  | two => rfl
  | three => rfl

section Sizes

variable {memblk n : ℕ}

theorem outSize_one (s : ℕ) : outSize 1 1 s = 1 := by
  rw [outSize_eq (Nat.le_refl 1), Nat.sub_self, Nat.zero_div]

theorem outSide_eq_outSize (hk : k ≤ n) (hn : n + 1 < 2 ^ 32) : outSide k s n = outSize n k s := by
  rw [outSide_eq hk hn, outSize_eq hk]

theorem shape_inCells :
    ((convParams dim ic oc s k memblk n).shape dim).inCells = ic * dim.size n := by
  cases dim with
  | one => show ic * 1 * 1 * n = ic * n; ring
  | two => show ic * 1 * n * n = ic * (n * n); ring
  | three => show ic * n * n * n = ic * (n * n * n); ring

theorem shape_filterCells :
    ((convParams dim ic oc s k memblk n).shape dim).filterCells = dim.size k * ic * oc := by
  cases dim with
  | one => show oc * ic * 1 * 1 * k = k * ic * oc; ring
  | two => show oc * ic * 1 * k * k = k * k * ic * oc; ring
  | three => show oc * ic * k * k * k = k * k * k * ic * oc; ring

theorem shape_outCells (hk : k ≤ n) (hn : n + 1 < 2 ^ 32) :
    ((convParams dim ic oc s k memblk n).shape dim).outCells =
      oc * dim.size (outSide k s n) := by
  rw [outSide_eq_outSize hk hn]
  cases dim with
  | one =>
    show oc * outSize 1 1 s * outSize 1 1 s * outSize n k s = oc * outSize n k s
    rw [outSize_one]
    ring
  | two =>
    show oc * outSize 1 1 s * outSize n k s * outSize n k s = _
    rw [outSize_one]
    show oc * 1 * outSize n k s * outSize n k s = oc * (outSize n k s * outSize n k s)
    ring
  | three =>
    show oc * outSize n k s * outSize n k s * outSize n k s =
      oc * (outSize n k s * outSize n k s * outSize n k s)
    ring

end Sizes

/-! ## Contents -/

section Contents

variable {R : Type} {p n e q : ℕ} {f : ℕ → R} {m : Cells R}

/-- An array is filled. -/
theorem fill_apply (he : e < n) : forRange (fun i => store (p + i) (f i)) n m (p + e) = f e :=
  (acts_sweep (φ := fun _ => f e) (p := fun i => p + i) he (fun _ _ => place_ne)
    (fun _ _ => Set.notMem_empty _) fun _ _ => rfl).apply

theorem fill_else (hq : ∀ e < n, q ≠ p + e) :
    forRange (fun i => store (p + i) (f i)) n m q = m q :=
  (acts_sweep_id hq fun _ _ => Set.notMem_empty _).apply

end Contents

/-- The contents of the input. -/
def inputSeed (dim : Dim) (n : ℕ) (seed : BitVec 32) (e : ℕ) : BitVec 32 :=
  match dim with
  | .one => seed ^^^ word (e / n) ^^^ word (e % n)
  | .two => seed ^^^ word (e / (n * n)) ^^^ word (e / n % n) ^^^ word (e % n)
  | .three => seed ^^^ word e

variable {memblk n : ℕ} {seed : BitVec 32} {m : Cells (BitVec 32)}

theorem inputFill_eq : inputFill dim (convParams dim ic oc s k memblk n) seed m =
    forRange (fun e => store (memblk + e) (inputSeed dim n seed e)) (ic * dim.size n) m := by
  cases dim with
  | one =>
    refine (forRange_forRange (fun i k => store (memblk + (i * n + k))
      (seed ^^^ word i ^^^ word k)) n ic m).trans ?_
    refine forRange_congr (fun e _ m => ?_) m
    rw [Nat.div_add_mod']
    rfl
  | two =>
    refine (forRange_forRange_forRange (fun i j k => store (memblk + (i * n * n + j * n + k))
      (seed ^^^ word i ^^^ word j ^^^ word k)) n n ic m).trans ?_
    refine forRange_congr (fun e _ m => ?_) m
    rw [digits_eq]
    rfl
  | three =>
    show forRange _ (ic * n * n * n) m = forRange _ (ic * (n * n * n)) m
    rw [← Nat.mul_assoc, ← Nat.mul_assoc]
    rfl

/-- **The arrays fill the block** from its front, one behind the other. -/
structure ConvParams.Laid (p : ConvParams) (dim : Dim) (memblk blksize : ℕ) : Prop where
  inp : p.inp = memblk
  out : p.out = p.inp + (p.shape dim).inCells
  filter : p.filter = p.out + (p.shape dim).outCells
  bias : p.bias = p.filter + (p.shape dim).filterCells
  room : 4 * (p.bias + p.outChannel) ≤ 4 * memblk + blksize

/-- The operands are as they were initialised. -/
structure ConvParams.Seeded (p : ConvParams) (dim : Dim) (seed : BitVec 32)
    (m : Cells (BitVec 32)) : Prop where
  inp : ∀ e < (p.shape dim).inCells, m (p.inp + e) = inputSeed dim p.inWidth seed e
  filter : ∀ e < (p.shape dim).filterCells, m (p.filter + e) = seed ^^^ word e
  bias : ∀ e < p.outChannel, m (p.bias + e) = seed ^^^ word e

theorem convParams_fits (hs : 0 < s) (hk : k ≤ n) :
    ((convParams dim ic oc s k memblk n).shape dim).Fits := by
  cases dim with
  | one => exact ⟨hs, hk, Nat.le_refl 1, Nat.le_refl 1⟩
  | two => exact ⟨hs, hk, hk, Nat.le_refl 1⟩
  | three => exact ⟨hs, hk, hk, hk⟩

theorem convParams_laid (hk : k ≤ n) (hn : n + 1 < 2 ^ 32)
    (hroom : convBytes dim ic oc s k n ≤ blksize) :
    (convParams dim ic oc s k memblk n).Laid dim memblk blksize := by
  refine ⟨rfl, ?_, ?_, ?_, ?_⟩
  · rw [shape_inCells]
    rfl
  · rw [shape_outCells hk hn]
    rfl
  · rw [shape_filterCells]
    rfl
  · have hbytes : convBytes dim ic oc s k n = 4 * (ic * dim.size n +
        oc * dim.size (outSide k s n) + dim.size k * ic * oc + oc) := by
      unfold convBytes convCells
      ring
    show 4 * (memblk + ic * dim.size n + oc * dim.size (outSide k s n) + dim.size k * ic * oc +
      oc) ≤ 4 * memblk + blksize
    omega

theorem ConvParams.Laid.apart {p : ConvParams} (h : p.Laid dim memblk blksize) :
    (p.shape dim).Apart p.inp p.out p.filter p.bias := by
  obtain ⟨-, hout, hfilter, hbias, -⟩ := h
  refine ⟨(apart_of_le ?_).symm, apart_of_le ?_, apart_of_le ?_⟩
  · omega
  · omega
  · omega

theorem shape_oc (p : ConvParams) (dim : Dim) : (p.shape dim).oc = p.outChannel := by
  cases dim <;> rfl

theorem shape_ic (p : ConvParams) (dim : Dim) : (p.shape dim).ic = p.inChannel := by
  cases dim <;> rfl

theorem convFill_seeded (hlaid : (convParams dim ic oc s k memblk n).Laid dim memblk blksize) :
    (convParams dim ic oc s k memblk n).Seeded dim seed
      (convFill dim (convParams dim ic oc s k memblk n) seed m) := by
  obtain ⟨hinp, hout, hfilter, hbias, -⟩ := hlaid
  unfold convFill
  refine ⟨fun e he => ?_, fun e he => ?_, fun e he => fill_apply he⟩
  · have hcells := he
    rw [shape_inCells] at hcells
    rw [fill_else fun i _ => by omega]
    rw [fill_else fun i _ => by omega, inputFill_eq]
    exact fill_apply hcells
  · have hcells := he
    rw [shape_filterCells] at hcells
    rw [fill_else fun i _ => by omega]
    exact fill_apply hcells

theorem convFill_else {q : ℕ} (hlaid : (convParams dim ic oc s k memblk n).Laid dim memblk blksize)
    (hq : q < memblk ∨ (convParams dim ic oc s k memblk n).bias + oc ≤ q) :
    convFill dim (convParams dim ic oc s k memblk n) seed m q = m q := by
  obtain ⟨hinp, hout, hfilter, hbias, -⟩ := hlaid
  rw [shape_inCells] at hout
  rw [shape_filterCells] at hbias
  have hoc : (convParams dim ic oc s k memblk n).outChannel = oc := rfl
  have hcells : dim.size (convParams dim ic oc s k memblk n).filterSize *
      (convParams dim ic oc s k memblk n).inChannel *
      (convParams dim ic oc s k memblk n).outChannel = dim.size k * ic * oc := rfl
  unfold convFill
  rw [fill_else fun i hi => by omega]
  rw [fill_else fun i hi => by omega, inputFill_eq, fill_else fun i hi => by omega]

/-- **`conv_init` lays the arrays out** and fills the operands. -/
theorem convInit_ok (hic : 0 < ic) (hs : 0 < s) (hk : 0 < k) (hblk : 0 < blksize) (hg : k < g)
    (hsmall : convBytes dim ic oc s k g < 2 ^ 32) (hfit : blksize ≤ convBytes dim ic oc s k g)
    (hstart : ∀ i ≤ k, 0 < i → wrap (convBytes dim ic oc s k i) < blksize)
    (henough : g < turns) (seed : BitVec 32) (memblk : ℕ) (m : Cells (BitVec 32)) :
    ∃ n, convInit dim ic oc s k turns blksize seed memblk m =
        .ok (convFill dim (convParams dim ic oc s k memblk n) seed m,
          convParams dim ic oc s k memblk n) ∧
      k ≤ n ∧ blksize ≤ convBytes dim ic oc s k (n + 1) ∧
      ((convParams dim ic oc s k memblk n).shape dim).Fits ∧
      (convParams dim ic oc s k memblk n).Laid dim memblk blksize := by
  obtain ⟨n, hscale, hkn, hnsmall, hroom, hnext⟩ :=
    convSide_ok hic hk hblk hg hsmall hfit hstart henough
  refine ⟨n, ?_, hkn, hnext, convParams_fits hs hkn, convParams_laid hkn hnsmall hroom⟩
  have hside : wrap (n + 1 + (2 ^ 32 - 1)) = n := wrap_pred (Nat.succ_pos n) hnsmall
  unfold convInit
  simp only [hscale, ok_bind, hside]
  rfl

/-! ## Iterations -/

section Iterations

variable {p : ConvParams} {q : ℕ}

theorem ConvParams.iterations_else (hq : ∀ e < (p.shape dim).outCells, q ≠ p.out + e) (t : ℕ) :
    p.iterations dim t m q = m q := by
  unfold ConvParams.iterations
  rw [iterate_eq_conv]
  exact Shape.runs_else hq t

theorem ConvParams.Laid.iterations_outside (h : p.Laid dim memblk blksize)
    (hq : q < memblk ∨ p.bias + p.outChannel ≤ q) (t : ℕ) : p.iterations dim t m q = m q := by
  obtain ⟨hinp, hout, hfilter, hbias, -⟩ := h
  exact ConvParams.iterations_else (fun e he => by omega) t

/-- The operands keep their contents. -/
theorem ConvParams.Laid.iterations_seeded (h : p.Laid dim memblk blksize)
    (hseeded : p.Seeded dim seed m) (t : ℕ) : p.Seeded dim seed (p.iterations dim t m) := by
  have hapart := h.apart
  refine ⟨fun e he => ?_, fun e he => ?_, fun e he => ?_⟩
  · rw [ConvParams.iterations_else fun i hi => hapart.inp.symm e he i hi]
    exact hseeded.inp e he
  · rw [ConvParams.iterations_else fun i hi => hapart.filter.symm e he i hi]
    exact hseeded.filter e he
  · rw [ConvParams.iterations_else fun i hi => hapart.bias.symm e (by rwa [shape_oc]) i hi]
    exact hseeded.bias e he

/-- The outputs are those of the operands as they are in the end. -/
theorem ConvParams.Laid.iterations_output (h : p.Laid dim memblk blksize)
    (hfits : (p.shape dim).Fits) (hic : 0 < (p.shape dim).ic) {no z y x t : ℕ} (ht : 0 < t)
    (hno : no < (p.shape dim).oc) (hz : z < (p.shape dim).od) (hy : y < (p.shape dim).oh)
    (hx : x < (p.shape dim).ow) :
    p.iterations dim t m (p.out + (p.shape dim).oIdx no z y x) =
      (p.shape dim).output p.inp p.filter p.bias (p.iterations dim t m) no z y x := by
  have hkept : Set.EqOn (p.iterations dim t m) m
      ((p.shape dim).operands p.inp p.filter p.bias) := by
    intro q hq
    exact ConvParams.iterations_else (fun e he heq => h.apart.fresh he (heq ▸ hq)) t
  rw [Shape.output_congr hfits hkept hno hz hy hx]
  unfold ConvParams.iterations
  rw [iterate_eq_conv]
  exact Shape.runs_apply hic hfits h.apart hno hz hy hx ht

end Iterations

/-- **The convolution benchmark, whole**: in any block that has room for
more than the filter, `conv_init` lays the arrays out one behind the other,
and after any number of iterations the operands are as they were
initialised, every output is the bias and the filter on its window in all
channels, and outside the block nothing has changed. -/
theorem convBenchmark_eq (hic : 0 < ic) (hs : 0 < s) (hk : 0 < k) (hblk : 0 < blksize)
    (hg : k < g) (hsmall : convBytes dim ic oc s k g < 2 ^ 32)
    (hfit : blksize ≤ convBytes dim ic oc s k g)
    (hstart : ∀ i ≤ k, 0 < i → wrap (convBytes dim ic oc s k i) < blksize)
    (henough : g < turns) (seed : BitVec 32) (memblk : ℕ) (m : Cells (BitVec 32)) (t : ℕ) :
    ∃ m' n p, convBenchmark dim ic oc s k turns blksize t seed memblk m = .ok (m', p) ∧
      p = convParams dim ic oc s k memblk n ∧ k ≤ n ∧
      blksize ≤ convBytes dim ic oc s k (n + 1) ∧
      p.Laid dim memblk blksize ∧ p.Seeded dim seed m' ∧
      (0 < t → ∀ no < oc, ∀ z < (p.shape dim).od, ∀ y < (p.shape dim).oh, ∀ x < (p.shape dim).ow,
        m' (p.out + (p.shape dim).oIdx no z y x) =
          (p.shape dim).output p.inp p.filter p.bias m' no z y x) ∧
      ∀ q, q < memblk ∨ p.bias + oc ≤ q → m' q = m q := by
  obtain ⟨n, hinit, hkn, hnext, hfits, hlaid⟩ :=
    convInit_ok hic hs hk hblk hg hsmall hfit hstart henough seed memblk m
  refine ⟨(convParams dim ic oc s k memblk n).iterations dim t
    (convFill dim (convParams dim ic oc s k memblk n) seed m), n, convParams dim ic oc s k memblk n,
    ?_, rfl, hkn, hnext, hlaid, hlaid.iterations_seeded (convFill_seeded hlaid) t,
    fun ht no hno z hz y hy x hx => ?_, fun q hq => ?_⟩
  · unfold convBenchmark
    rw [hinit]
    rfl
  · refine hlaid.iterations_output hfits ?_ ht ?_ hz hy hx
    · rw [shape_ic]
      exact hic
    · rw [shape_oc]
      exact hno
  · rw [hlaid.iterations_outside hq, convFill_else hlaid hq]

theorem convBenchmark_eq_sample :
    ∃ m' n p, convBenchmark .two 3 1 1 2 13 2048 10 0x7 0 (fun _ => 0) = .ok (m', p) ∧
      p = convParams .two 3 1 1 2 0 n ∧ 2 ≤ n ∧ 2048 ≤ convBytes .two 3 1 1 2 (n + 1) ∧
      p.Laid .two 0 2048 ∧ p.Seeded .two 0x7 m' ∧
      (0 < 10 → ∀ no < 1, ∀ z < (p.shape .two).od, ∀ y < (p.shape .two).oh,
        ∀ x < (p.shape .two).ow, m' (p.out + (p.shape .two).oIdx no z y x) =
          (p.shape .two).output p.inp p.filter p.bias m' no z y x) ∧
      ∀ q, q < 0 ∨ p.bias + 1 ≤ q → m' q = 0 :=
  convBenchmark_eq (g := 12) (by decide) (by decide) (by decide) (by decide) (by decide)
    (by decide) (by decide) (by decide) (by decide) 0x7 0 _ 10

end Block

end IoTBench

end Checklib
