import Checklib.Building
import Checklib.Searching
import Checklib.Sorting

/-!
# The list in `main`

An iteration searches the list, sorts it by its data and sorts it back. The
second sort undoes the first where no two items have one index: whatever
order they came in, the items are left in the order of their indices. So
every iteration but the first does the same work, and none of them finds
anything, as no item has the data that is searched for.
-/

namespace Checklib

namespace IoTBench

open Common

variable {dimX : ℕ} {info : ListData dimX}

/-! ## Iterations -/

section Iterate

variable {m m' : Memory dimX} {cells cells' : List Addr} {cmp : Cmp}

variable {s : Benchmark dimX} {turns : ℕ}

end Iterate

/-! ## The benchmark -/

section Benchmark

variable {ptr k : ℕ} {block : Addr} {seed : Int16}

end Benchmark

end IoTBench

end Checklib
