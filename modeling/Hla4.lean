import Hla4.Lib.HashMap
import Hla4.Lib.Run
import Hla4.Lib.Checked
import Hla4.Lib.SortedQueue
import Hla4.Lib.Conservative
import Hla4.Lib.Forest
import Hla4.Lib.Numbering
import Hla4.Core
import Hla4.Omt.Fom
import Hla4.Omt.Merge
import Hla4.Omt.Handles
import Hla4.Omt.Union
import Hla4.Omt.Xml
import Hla4.Omt.ClassTree
import Hla4.Rti.Subscription
import Hla4.Rti.Wire
import Hla4.Rti.Request
import Hla4.Rti.Federation
import Hla4.Rti.Routing
import Hla4.Rti.Time
import Hla4.Rti.Dispatch.Declaration
import Hla4.Rti.Dispatch.DataFlow
import Hla4.Rti.Dispatch.TimeMgmt
import Hla4.Rti.Coordination
import Hla4.Rti.Dispatch
import Hla4.Rti.Node
import Hla4.Rti.Safety.Grants
import Hla4.Rti.Safety.TsoOrder
import Hla4.Rti.Safety.Past
import Hla4.Lib.Custody
import Hla4.Rti.Safety.Membership
import Hla4.Lib.Ledger
import Hla4.Lib.Edges
import Hla4.Rti.Safety.Subscribers
import Hla4.Rti.Safety.Delivery
import Hla4.Rti.Safety.Requests
import Hla4.Rti.Safety.Owners
import Hla4.Lib.Watch
import Hla4.Rti.Safety.Discovery
import Hla4.Rti.Safety.Removal
import Hla4.Lib.Poll
import Hla4.Rti.Safety.Keyed
import Hla4.Rti.Safety.Snapshot
import Hla4.Rti.Safety.SyncPoints
import Hla4.Rti.Safety.Waiting
import Hla4.Lib.Tally
import Hla4.Rti.Safety.Reports
import Hla4.Lib.Sections
import Hla4.Rti.Safety.Saving
import Hla4.Rti.Safety.Names
import Hla4.Lib.Incremental
import Hla4.Wire.Framing
import Hla4.Wire.Codec
import Hla4.Rti.Safety.HandOver
import Hla4.Rti.Safety.Joining
import Hla4.Rti.Safety.AskedNames
import Hla4.Rti.Safety.Granting
import Hla4.Rti.Safety.Resuming
import Hla4.Federate.Calls
import Hla4.Federate.Correlation
import Hla4.Federate.Waiters
import Hla4.Rti.Safety.Isolation
import Hla4.Lib.Locks
import Hla4.Rti.Safety.LockOrder
import Hla4.Rti.Loops
import Hla4.Rti.Safety.Stamping
import Hla4.Lib.Outbox
import Hla4.Rti.Safety.WireOrder
import Hla4.Rti.Safety.Orphans
import Hla4.Rti.Safety.Advisories
import Hla4.Rti.Safety.Publication
import Hla4.Rti.Safety.Handles
import Hla4.Rti.Safety.LeastGrants
import Hla4.Rti.Safety.Promise
import Hla4.Rti.Safety.Audience
import Hla4.Lib.Box
import Hla4.Rti.Safety.Regions
import Hla4.Lib.Counters
import Hla4.Rti.Admission
import Hla4.Rti.Safety.PerIp
import Hla4.Encoding
import Hla4.Lib.Atomic
import Hla4.Lib.TicketQueue
import Hla4.Omt.Conflicts
import Hla4.Omt.ModuleOrder
import Hla4.Rti.Safety.Discoverers
import Hla4.Rti.Safety.InstanceNames
import Hla4.Rti.Safety.Privileges
import Hla4.Wire.Client
import Hla4.Rti.Safety.TsoQueue
import Hla4.Lib.Loop
import Hla4.Omt.Walks
import Hla4.Rti.Safety.Walks
