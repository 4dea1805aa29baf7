import Checklib.Common.Pointwise
import Checklib.Common.Except
import Checklib.Common.LastWins
import Checklib.Common.Compact
import Checklib.Common.Backtrack
import Checklib.Common.OuterJoin
import Checklib.Common.Trial
import Checklib.Common.While
import Checklib.Common.Chain
import Checklib.Common.StableSort
import Checklib.Common.Cellwise
import Checklib.Common.Words
import Checklib.Common.Session
import Checklib.Model.Elf
import Checklib.Model.Utils
import Checklib.Model.Reader
import Checklib.Model.Comparator
import Checklib.Model.Tally
import Checklib.Model.Primitives
import Checklib.Model.Spec
import Checklib.Model.Disk
import Checklib.Model.LinkedList
import Checklib.Model.Arrays
import Checklib.Model.I386
import Checklib.Merge
import Checklib.Counting
import Checklib.Score
import Checklib.Metric
import Checklib.Gaming
import Checklib.SectionNames
import Checklib.Naming
import Checklib.Entries
import Checklib.Indices
import Checklib.Reading
import Checklib.Placement
import Checklib.Absolute
import Checklib.Segments
import Checklib.Replacement
import Checklib.Lookup
import Checklib.Linking
import Checklib.Overwriting
import Checklib.Execution
import Checklib.Scoring
import Checklib.Console
import Checklib.Footprint
import Checklib.Caching
import Checklib.Relinking
import Checklib.Patching
import Checklib.Checking
import Checklib.Pipeline
import Checklib.Cells
import Checklib.Sorting
import Checklib.Searching
import Checklib.Building
import Checklib.Iterating
import Checklib.Products
import Checklib.Convolving
import Checklib.Stepping
import Checklib.Cheating
import Checklib.Mocking
