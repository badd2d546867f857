import Lookaround.Library.Chain
import Lookaround.Library.Run
import Lookaround.Library.Json
import Lookaround.Library.Buffer
import Lookaround.StrMap
import Lookaround.Enumeration
import Lookaround.Tree
import Lookaround.Cells
import Lookaround.Descent
import Lookaround.Step
import Lookaround.Query
import Lookaround.Counts
import Lookaround.Runs
import Lookaround.Settled
import Lookaround.Handler
import Lookaround.Dispatch
import Lookaround.Calls
import Lookaround.Output
import Lookaround.Workers
import Lookaround.Index
import Lookaround.Geo
import Lookaround.Found
import Lookaround.Levels
import Lookaround.Memory
import Lookaround.Filter
import Lookaround.Degrees
import Lookaround.Ids
import Lookaround.Body
import Lookaround.Args
import Lookaround.Library.Machine
import Lookaround.Server
import Lookaround.Wire
import Lookaround.Select
import Lookaround.Growth
import Lookaround.Library.Pool
import Lookaround.StrHistory
import Lookaround.StrText
import Lookaround.Atomic
import Lookaround.Simulation
import Lookaround.Readers
import Lookaround.Updates
import Lookaround.Answers
