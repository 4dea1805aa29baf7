import Checklib.Common.Cellwise
import Checklib.Model.LinkedList
import Mathlib.Data.BitVec
import Mathlib.Data.Int.DivMod

/-!
# The array benchmarks: `matrix.c` and `conv.c`

Both lay arrays out in a block of their own and run nests of loops over
them. A block is read here as cells of `DATA_TYPE`, and an array as the
place of its first cell, so that arrays can be seen to be apart. The loops
leave open what the cells hold; as they are initialised, they are words of
32 bits, whose arithmetic wraps. `DATA_DIM` and `CONV_DIM` are arguments;
of the three accuracies this is `NORMAL`, and of the three types
`INT_TYPE`. The sizes are found in `uint32_t`; within a block so sized no
index wraps, and indices are numbers.
-/

namespace Checklib

namespace IoTBench

open Common

variable {R : Type} [Zero R] [Add R] [Mul R]

/-! ## Blocks -/

/-- A block, cell by cell. -/
abbrev Cells (R : Type) := ℕ → R

/-- `*p = v` -/
def store (p : ℕ) (v : R) (m : Cells R) : Cells R := Function.update m p v

/-- `DATA_DIM` -/
inductive Dim where
  | one
  | two
  | three
  deriving DecidableEq, Repr

/-- The loops over the cells of an array, in the order of their places. -/
def forCells {σ : Type} (dim : Dim) (n : ℕ) (body : ℕ → σ → σ) : σ → σ :=
  match dim with
  | .one => forRange body n
  | .two => forRange (fun i => forRange (fun j => body (i * n + j)) n) n
  | .three => forRange (fun i => forRange (fun j =>
      forRange (fun k => body (i * n * n + j * n + k)) n) n) n

/-- How many cells an array has. -/
def Dim.size (dim : Dim) (n : ℕ) : ℕ :=
  match dim with
  | .one => n
  | .two => n * n
  | .three => n * n * n

/-- A number as an `uint32_t`. -/
def word (i : ℕ) : BitVec 32 := BitVec.ofNat 32 i

/-- `while(j < blksize)`, where `j` is the bytes for an `i`, and the `i` it
ends with. -/
def scale (blksize : ℕ) (bytes : ℕ → ℕ) (turns : ℕ) : Except Fault ℕ :=
  loop .stuck (fun s : ℕ × ℕ =>
    if s.2 < blksize then
      let i := wrap (s.1 + 1)
      return .inl (i, wrap (bytes i))
    else return .inr s.1) turns (0, 0)

/-! ## `matrix.c` -/

/-- `mat_params` -/
structure MatParams where
  n : ℕ
  a : ℕ
  b : ℕ
  c : ℕ
  deriving DecidableEq, Repr

/-- What `matrix_init` writes to `A` and `B`. -/
def matrixFill (dim : Dim) (n a b : ℕ) (seed : BitVec 32) :
    Cells (BitVec 32) → Cells (BitVec 32) :=
  match dim with
  | .one => forRange (fun i m =>
      let tmp := seed ^^^ word i
      store (b + i) (tmp ||| tmp) (store (a + i) (tmp ||| word i) m)) n
  | .two => forRange (fun i => forRange (fun j m =>
      let tmp := seed ^^^ word i
      let tmp2 := seed ^^^ word j
      store (b + (i * n + j)) (tmp2 ||| tmp) (store (a + (i * n + j)) (tmp2 ||| tmp2) m)) n) n
  | .three => forRange (fun i => forRange (fun j => forRange (fun k m =>
      let tmp := seed ^^^ word i
      let tmp2 := seed ^^^ word j
      let tmp3 := seed ^^^ word k
      store (b + (i * n * n + j * n + k)) (tmp3 ||| tmp2)
        (store (a + (i * n * n + j * n + k)) (tmp3 ||| tmp) m)) n) n) n

/-- The bytes of three arrays of side `i`. -/
def matrixBytes (dim : Dim) (i : ℕ) : ℕ := dim.size i * 4 * 3

/-- The `N` of `matrix_init`. -/
def matrixSide (dim : Dim) (turns blksize : ℕ) : Except Fault ℕ :=
  match dim with
  | .one => .ok (blksize / (4 * 3))
  | .two | .three => do
    let i ← scale blksize (matrixBytes dim) turns
    return wrap (i + (2 ^ 32 - 1))

/-- **`matrix_init`**, in a block of memory. -/
def matrixInit (dim : Dim) (turns blksize : ℕ) (seed : BitVec 32) (memblk : ℕ)
    (m : Cells (BitVec 32)) : Except Fault (Cells (BitVec 32) × MatParams) := do
  let n ← matrixSide dim turns blksize
  let a := memblk
  let b := a + dim.size n
  let c := b + dim.size n
  return (matrixFill dim n a b seed m, ⟨n, a, b, c⟩)

/-- **`matrix_add_const`** -/
def matrixAddConst (dim : Dim) (n a : ℕ) (val : R) : Cells R → Cells R :=
  forCells dim n fun e m => store (a + e) (m (a + e) + val) m

/-- **`matrix_mul_const`** -/
def matrixMulConst (dim : Dim) (n a : ℕ) (val : R) (c : ℕ) : Cells R → Cells R :=
  forCells dim n fun e m => store (c + e) (m (a + e) * val) m

/-- **`matrix_mul_matrix`** -/
def matrixMulMatrix (dim : Dim) (n a b c : ℕ) (m : Cells R) : Cells R :=
  match dim with
  | .one =>
    forRange (fun i m => store c (m c + m (a + i) * m (b + i)) m) n (store c 0 m)
  | .two =>
    forRange (fun i => forRange (fun j m =>
      forRange (fun k m => store (c + (i * n + j))
        (m (c + (i * n + j)) + m (a + (i * n + k)) * m (b + (k * n + j))) m) n
        (store (c + (i * n + j)) 0 m)) n) n m
  | .three =>
    forRange (fun i => forRange (fun j => forRange (fun k m =>
      forRange (fun l m => store (c + (i * n * n + j * n + k))
        (m (c + (i * n * n + j * n + k)) +
          m (a + (i * n * n + j * n + l)) * m (b + (i * n * n + l * n + j))) m) n
        (store (c + (i * n * n + j * n + k)) 0 m)) n) n) n m

/-- What `main` does to the matrices in an iteration. -/
def MatParams.iterate (p : MatParams) (dim : Dim) (val : R) (m : Cells R) : Cells R :=
  matrixMulMatrix dim p.n p.a p.b p.c
    (matrixMulConst dim p.n p.a val p.c (matrixAddConst dim p.n p.a val m))

/-- `for(int i = 0; i < NUM_ITERATE; i++)` -/
def MatParams.iterations (p : MatParams) (dim : Dim) (val : R) (n : ℕ) : Cells R → Cells R :=
  forRange (fun _ => p.iterate dim val) n

/-- **`main`**, as far as the matrices go. -/
def matrixBenchmark (dim : Dim) (turns totalDataSize numIterate : ℕ) (seed val : BitVec 32)
    (memblk : ℕ) (m : Cells (BitVec 32)) : Except Fault (Cells (BitVec 32) × MatParams) := do
  let (m, p) ← matrixInit dim turns totalDataSize seed memblk m
  return (p.iterations dim val numIterate m, p)

/-! ## `conv.c` -/

/-- The sizes of a convolution: channels, stride, and the extent of input
and filter in each direction. -/
structure Shape where
  ic : ℕ
  oc : ℕ
  s : ℕ
  iw : ℕ
  ih : ℕ
  id : ℕ
  kw : ℕ
  kh : ℕ
  kd : ℕ
  deriving DecidableEq, Repr

/-- `(I - K)/S + 1`, in `int` -/
def outSize (i k s : ℕ) : ℕ := (((i : ℤ) - k).tdiv s + 1).toNat

namespace Shape

variable (d : Shape)

/-- `Ow`, `Oh` and `Od` -/
def ow : ℕ := outSize d.iw d.kw d.s
def oh : ℕ := outSize d.ih d.kh d.s
def od : ℕ := outSize d.id d.kd d.s

/-- `OIdx`, `IIdx` and `WIdx` -/
def oIdx (no z y x : ℕ) : ℕ := no * d.ow * d.oh * d.od + z * d.ow * d.oh + y * d.ow + x
def iIdx (ni id ih iw : ℕ) : ℕ := ni * d.iw * d.ih * d.id + id * d.ih * d.iw + ih * d.iw + iw
def wIdx (no ni kz ky kx : ℕ) : ℕ :=
  no * d.kd * d.kh * d.kw * d.ic + ni * d.kd * d.kh * d.kw + kz * d.kh * d.kw + ky * d.kw + kx

/-- The loops of a convolution. -/
def conv (inp out filter bias : ℕ) : Cells R → Cells R :=
  forRange (fun no => forRange (fun ni => forRange (fun z => forRange (fun y => forRange
    (fun x m =>
      let o := out + d.oIdx no z y x
      forRange (fun kz => forRange (fun ky => forRange (fun kx m =>
        store o (m o + m (inp + d.iIdx ni (kz + z * d.s) (ky + y * d.s) (kx + x * d.s)) *
          m (filter + d.wIdx no ni kz ky kx)) m) d.kw) d.kh) d.kd
        (if ni = 0 then store o (m (bias + no)) m else m)) d.ow) d.oh) d.od) d.ic) d.oc

end Shape

/-- **`conv1D`** -/
def conv1D (inp out ic iw filter k s bias oc : ℕ) : Cells R → Cells R :=
  Shape.conv ⟨ic, oc, s, iw, 1, 1, k, 1, 1⟩ inp out filter bias

/-- **`conv2D`** -/
def conv2D (inp out ic iw ih filter k s bias oc : ℕ) : Cells R → Cells R :=
  Shape.conv ⟨ic, oc, s, iw, ih, 1, k, k, 1⟩ inp out filter bias

/-- **`conv3D`** -/
def conv3D (inp out ic iw ih id filter k s bias oc : ℕ) : Cells R → Cells R :=
  Shape.conv ⟨ic, oc, s, iw, ih, id, k, k, k⟩ inp out filter bias

/-- `conv_params` -/
structure ConvParams where
  inp : ℕ
  out : ℕ
  filter : ℕ
  bias : ℕ
  stride : ℕ
  inChannel : ℕ
  inWidth : ℕ
  inHeight : ℕ
  outChannel : ℕ
  filterSize : ℕ
  inDepth : ℕ
  deriving DecidableEq, Repr

/-- `(i - p->filter_size)/p->stride + 1`, in `uint32_t` -/
def outSide (k s i : ℕ) : ℕ := wrap (wrap (i + (2 ^ 32 - k)) / s + 1)

/-- The cells of input, filters, output and bias, for an input of side
`i`. -/
def convCells (dim : Dim) (ic oc s k i : ℕ) : ℕ :=
  dim.size i * ic + dim.size k * ic * oc + dim.size (outSide k s i) * oc + oc

/-- Their bytes. -/
def convBytes (dim : Dim) (ic oc s k i : ℕ) : ℕ := convCells dim ic oc s k i * 4

/-- What `conv_init` writes to the input. -/
def inputFill (dim : Dim) (p : ConvParams) (seed : BitVec 32) :
    Cells (BitVec 32) → Cells (BitVec 32) :=
  match dim with
  | .one => forRange (fun i => forRange (fun k =>
      store (p.inp + (i * p.inWidth + k)) (seed ^^^ word i ^^^ word k)) p.inWidth) p.inChannel
  | .two => forRange (fun i => forRange (fun j => forRange (fun k =>
      store (p.inp + (i * p.inWidth * p.inHeight + j * p.inWidth + k))
        (seed ^^^ word i ^^^ word j ^^^ word k)) p.inWidth) p.inHeight) p.inChannel
  | .three => forRange (fun i => store (p.inp + i) (seed ^^^ word i))
      (p.inChannel * p.inHeight * p.inWidth * p.inDepth)

/-- What `conv_init` sets `p` to. A direction that `CONV_DIM` leaves out has
the extent 1. -/
def convParams (dim : Dim) (ic oc s k memblk side : ℕ) : ConvParams :=
  let inp := memblk
  let out := memblk + ic * dim.size side
  let filter := out + oc * dim.size (outSide k s side)
  let bias := filter + dim.size k * ic * oc
  { inp := inp
    out := out
    filter := filter
    bias := bias
    stride := s
    inChannel := ic
    inWidth := side
    inHeight := if dim = .one then 1 else side
    outChannel := oc
    filterSize := k
    inDepth := if dim = .three then side else 1 }

/-- What `conv_init` writes to the block: input, filters and bias. -/
def convFill (dim : Dim) (p : ConvParams) (seed : BitVec 32) (m : Cells (BitVec 32)) :
    Cells (BitVec 32) :=
  let m := inputFill dim p seed m
  let m := forRange (fun i => store (p.filter + i) (seed ^^^ word i))
    (dim.size p.filterSize * p.inChannel * p.outChannel) m
  forRange (fun i => store (p.bias + i) (seed ^^^ word i)) p.outChannel m

/-- **`conv_init`**, in a block of memory. -/
def convInit (dim : Dim) (ic oc s k turns blksize : ℕ) (seed : BitVec 32) (memblk : ℕ)
    (m : Cells (BitVec 32)) : Except Fault (Cells (BitVec 32) × ConvParams) := do
  let i ← scale blksize (convBytes dim ic oc s k) turns
  let p := convParams dim ic oc s k memblk (wrap (i + (2 ^ 32 - 1)))
  return (convFill dim p seed m, p)

/-- What `main` does to the arrays of the convolution in an iteration. -/
def ConvParams.iterate (p : ConvParams) (dim : Dim) : Cells R → Cells R :=
  match dim with
  | .one => conv1D p.inp p.out p.inChannel p.inWidth p.filter p.filterSize p.stride p.bias
      p.outChannel
  | .two => conv2D p.inp p.out p.inChannel p.inWidth p.inHeight p.filter p.filterSize p.stride
      p.bias p.outChannel
  | .three => conv3D p.inp p.out p.inChannel p.inWidth p.inHeight p.inDepth p.filter
      p.filterSize p.stride p.bias p.outChannel

/-- `for(int i = 0; i < NUM_ITERATE; i++)` -/
def ConvParams.iterations (p : ConvParams) (dim : Dim) (n : ℕ) : Cells R → Cells R :=
  forRange (fun _ => p.iterate dim) n

/-- **`main`**, as far as the convolution goes. -/
def convBenchmark (dim : Dim) (ic oc s k turns totalDataSize numIterate : ℕ) (seed : BitVec 32)
    (memblk : ℕ) (m : Cells (BitVec 32)) : Except Fault (Cells (BitVec 32) × ConvParams) := do
  let (m, p) ← convInit dim ic oc s k turns totalDataSize seed memblk m
  return (p.iterations dim numIterate m, p)

end IoTBench

end Checklib
