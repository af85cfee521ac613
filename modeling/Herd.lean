import Herd.Asset.GroupDefinition
import Herd.Asset.Library
import Herd.Asset.Registry
import Herd.Asset.Skin
import Herd.Coordinator
import Herd.Decimal.Binary32
import Herd.Decimal.Shortest
import Herd.Entity
import Herd.Fault
import Herd.Group.Assignment
import Herd.Group.Codec
import Herd.Group.Recovery
import Herd.Group.Report
import Herd.Group.Teardown
import Herd.Hive.Collective
import Herd.Hive.Materialize
import Herd.Hive.Speed
import Herd.Json.Decoder
import Herd.Json.Number
import Herd.Json.Reader
import Herd.Json.Value
import Herd.Random.ChaCha
import Herd.Random.Stream
import Herd.Resource.Codec
import Herd.Resource.Id
import Herd.Run.Actor
import Herd.Run.Codec
import Herd.Run.Collective
import Herd.Run.Script
import Herd.Run.Solo
import Herd.Run.State
import Herd.Run.Step
import Herd.Scenario
import Herd.Settings
import Herd.Table
import Herd.Text.Blank
import Herd.Text.CaseRanges
import Herd.Text.Lower
import Herd.Text.LowerRuns
import Herd.Tree.Address
import Herd.Tree.Codec
import Herd.Tree.Node
import Herd.World.Codec
import Herd.World.Component
import Herd.World.Gate
import Herd.World.Label
import Herd.World.Population
import Herd.World.Store
import Herd.World.Ticking
import Herd.Proofs.Tree.Preorder
import Herd.Proofs.Tree.Search
import Herd.Proofs.Run.Conversation
import Herd.Proofs.Run.Notes
import Herd.Proofs.Run.Simulation
import Herd.Proofs.Run.Refinement
import Herd.Proofs.Run.Frontier
import Herd.Proofs.Run.Mirror
import Herd.Proofs.Run.Passage
import Herd.Proofs.Run.Active
import Herd.Proofs.Run.Delay
import Herd.Proofs.Run.Restart
import Herd.Proofs.Run.Log
import Herd.Proofs.Run.Attest
import Herd.Proofs.Run.Underway
import Herd.Proofs.Run.Course
import Herd.Proofs.Run.History
import Herd.Proofs.Run.Verdict
import Herd.Proofs.Run.Budget
import Herd.Proofs.Run.Lead
import Herd.Proofs.Run.Cursor
import Herd.Proofs.Group.Pass
import Herd.Proofs.Group.Turn
import Herd.Proofs.Group.Accounting
import Herd.Proofs.Group.Standing
import Herd.Proofs.Group.History
import Herd.Proofs.World.Gate
import Herd.Proofs.Group.Refusal
import Herd.Proofs.Text.Case
import Herd.Proofs.Asset.Registry
import Herd.Proofs.Resource.Id
import Herd.Proofs.Asset.Shelf
import Herd.Proofs.Asset.Library
import Herd.Proofs.Run.Lockstep
import Herd.Proofs.Run.Unison
import Herd.Proofs.Run.Reorder
import Herd.Proofs.Run.Interchange
import Herd.Proofs.Run.Duality
import Herd.Proofs.Run.Flattening
import Herd.Proofs.Run.Route
import Herd.Proofs.World.Lawful
import Herd.Proofs.World.Membership
import Herd.Proofs.World.Numbering
import Herd.Proofs.World.Written
import Herd.Proofs.Group.Footprint
import Herd.Proofs.Group.Isolation
import Herd.Proofs.Group.Backup
import Herd.Proofs.Group.Resumable
import Herd.Proofs.Group.Commuting
import Herd.Proofs.Group.Effect
import Herd.Proofs.Hive.Collective
import Herd.Proofs.Group.Noop
import Herd.Proofs.Hive.Lifecycle
import Herd.Proofs.Hive.Materialization
import Herd.Proofs.Json.Decoder
import Herd.Proofs.Run.Codec
import Herd.Proofs.Hive.Broadcast
import Herd.Proofs.Group.Teardown
import Herd.Proofs.Group.Notices
import Herd.Proofs.Run.Performance
import Herd.Proofs.Asset.Resolution
import Herd.Proofs.World.Event
