import PalmEngine.Lib.Runs
import PalmEngine.Lib.Dict
import PalmEngine.Lib.Recent
import PalmEngine.Lib.KeyValue
import PalmEngine.Lib.FileTree
import PalmEngine.Wait.Progress
import PalmEngine.Wait.OwnerIndex
import PalmEngine.Wait.UnreadIndex
import PalmEngine.Events.Payload
import PalmEngine.Orchestration.LostInput
import PalmEngine.Orchestration.Containment
import PalmEngine.Orchestration.Restart
import PalmEngine.Persistence.FlowRevisions
import PalmEngine.Persistence.DefinitionDeletion
import PalmEngine.Persistence.DefinitionStorage
import PalmEngine.Persistence.KindDeletion
import PalmEngine.Persistence.FlowDeletion
import PalmEngine.Persistence.DeletionComplete
import PalmEngine.Work.PendingIndex
import PalmEngine.Work.Cascade
import PalmEngine.Storage.PrefixListing
import PalmEngine.Lib.Pool
import PalmEngine.Lib.Strip
import PalmEngine.Lib.DecimalText
import PalmEngine.Lib.DistinctList
import PalmEngine.Storage.TieredCalls
import PalmEngine.Events.JournalConsumer
import PalmEngine.Events.JournalCalls
import PalmEngine.Events.OutboxRecovery
import PalmEngine.Events.OutboxDelivery
import PalmEngine.Events.OutboxCalls
import PalmEngine.Session.Exclusive
import PalmEngine.Session.AttachCalls
import PalmEngine.Structure.Admission
import PalmEngine.Structure.PlaceCoherence
import PalmEngine.Lib.Framing
import PalmEngine.Lib.Joined
import PalmEngine.Workloads.Idempotency
import PalmEngine.Lib.Until
import PalmEngine.BehaviorTree.BigStep
import PalmEngine.Orchestration.Completion
import PalmEngine.Persistence.StateSnapshot
import PalmEngine.Work.InboundDebounce
import PalmEngine.Parallel.Routing
import PalmEngine.Parallel.Scopes
import PalmEngine.Dag.Schedule
import PalmEngine.BehaviorTree.LeafSequence
import PalmEngine.Wizard.Branch
import PalmEngine.Persistence.InstanceCalls
import PalmEngine.PalmProvider.Chain
import PalmEngine.PalmProvider.RecursionFrames
import PalmEngine.PalmProvider.EventsDelivery
import PalmEngine.Wizard.FreshInput
import PalmEngine.Lib.BigEndian
import PalmEngine.Lib.ChunkedSource
import PalmEngine.Websocket.Frames
import PalmEngine.Events.JournalDelivery
import PalmEngine.Websocket.CatchUp
import PalmEngine.Orchestration.Convergence
import PalmEngine.Session.OwnershipHook
import PalmEngine.Context.Isolation
import PalmEngine.Persistence.InstanceMigration
import PalmEngine.Persistence.MigrationCalls
import PalmEngine.Orchestration.JobLimit
import PalmEngine.Operator.MutationGate
import PalmEngine.Resource.DocumentStorage
import PalmEngine.KvProvider.Invoke
import PalmEngine.KvProvider.Effects
import PalmEngine.KvProvider.Listing
import PalmEngine.Context.ScopeBalance
import PalmEngine.Lib.Fallible
import PalmEngine.Context.Scoping
import PalmEngine.Context.Schema
import PalmEngine.Context.SchemaAgreement
import PalmEngine.Session.Service
import PalmEngine.Session.OwnerGate
import PalmEngine.Websocket.SessionFilter
import PalmEngine.Websocket.FailedSubscribe
import PalmEngine.Session.BoundSurface
import PalmEngine.Websocket.BindingCoherence
import PalmEngine.Lib.StableSort
import PalmEngine.Lib.Lockstep
import PalmEngine.Design.Proposal
import PalmEngine.Design.ProposalAgreement
import PalmEngine.Design.ProposalCalls
import PalmEngine.Design.CommitOnce
import PalmEngine.Persistence.StorageKeys
import PalmEngine.Persistence.FailedSave
import PalmEngine.Persistence.SaveAtomicity
import PalmEngine.Resource.TtlCache
import PalmEngine.Lib.ScriptValues
import PalmEngine.Context.PlainValues
import PalmEngine.Events.StoredEvents
import PalmEngine.Wait.StoredInterests
import PalmEngine.Work.Schedule
import PalmEngine.Work.ScheduleTicks
import PalmEngine.Workloads.StoredSpec
import PalmEngine.Persistence.StoredInstance
import PalmEngine.Persistence.InstanceRoundTrip
import PalmEngine.Compensation.Coordinator
import PalmEngine.Resource.Invoke
import PalmEngine.Resource.EventBracketing
import PalmEngine.Context.Positions
import PalmEngine.Lib.AllOrNothing
import PalmEngine.Transform.Engine
import PalmEngine.Transform.StateWrites
import PalmEngine.Lib.Concatenation
import PalmEngine.BehaviorTree.Ends
import PalmEngine.Lib.Forest
import PalmEngine.BehaviorTree.Construction
import PalmEngine.Persistence.ReconciliationOutcome
import PalmEngine.Persistence.InstanceIndex
import PalmEngine.Persistence.IndexRebuild
import PalmEngine.Persistence.ManagerBounds
import PalmEngine.Wizard.Automatic
import PalmEngine.Wizard.ScopeBinding
import PalmEngine.Wizard.TickTermination
import PalmEngine.Persistence.InstanceManager
import PalmEngine.Dag.Order
import PalmEngine.Transform.MapFields
import PalmEngine.Transform.Jsonpath
import PalmEngine.Transform.JsonpathLaws
import PalmEngine.Parallel.Merge
import PalmEngine.Context.Comparing
import PalmEngine.Transform.Conditional
import PalmEngine.Wizard.BranchPredicate
import PalmEngine.Wizard.Validation
import PalmEngine.Wizard.ValidationRaises
import PalmEngine.Wizard.PreparedInput
import PalmEngine.Wizard.OptionalField
import PalmEngine.Wizard.CollectionEditor
import PalmEngine.Wizard.CollectionRefinement
import PalmEngine.Wizard.FieldCollection
import PalmEngine.Operator.CollectionEdit
import PalmEngine.Operator.EditFeeding
import PalmEngine.Operator.EditLanding
import PalmEngine.Events.Subscriptions
