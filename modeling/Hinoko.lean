import Hinoko.Lib.Ring
import Hinoko.Lib.Framing
import Hinoko.Placement
import Hinoko.Lifecycle
import Hinoko.Handover
import Hinoko.Restart
import Hinoko.Atomic
import Hinoko.SingleSlots
import Hinoko.Recycling
import Hinoko.Decoding
import Hinoko.Holding
import Hinoko.Waiting
import Hinoko.NullError
import Hinoko.Generation
import Hinoko.Layout
import Hinoko.Division
import Hinoko.StopInside
import Hinoko.Teardown
import Hinoko.Payloads
import Hinoko.Encoding
import Hinoko.Sizes
import Hinoko.Headers
import Hinoko.Records
import Hinoko.Reassembly
import Hinoko.Slices
import Hinoko.Termination
import Hinoko.Unwrapping
import Hinoko.Reporting
import Hinoko.Candidates
import Hinoko.Channels
import Hinoko.Bandwidth
import Hinoko.CycleMatch
import Hinoko.Cadence
import Hinoko.Blocks
import Hinoko.Lifetime
import Hinoko.Queries
import Hinoko.ResourceSession
import Hinoko.Stamps
import Hinoko.Sources
import Hinoko.Threads
import Hinoko.WaitLoop
import Hinoko.Faults
