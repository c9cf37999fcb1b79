import ScriptBridge.Number.Bits
import ScriptBridge.Registry.Description
import ScriptBridge.Scenario.Graph
import ScriptBridge.Scenario.NamedHeap
import ScriptBridge.Scenario.Property
import ScriptBridge.Snapshot.Encoding
import ScriptBridge.Snapshot.Loading
import ScriptBridge.Value.Display
import ScriptBridge.Proofs.Heap.Lifetime
import ScriptBridge.Proofs.Heap.Collection
import ScriptBridge.Proofs.Snapshot.Layout
import ScriptBridge.Proofs.Snapshot.Picture
import ScriptBridge.Proofs.Snapshot.Saving
import ScriptBridge.Proofs.Registry.Declared
import ScriptBridge.Proofs.Registry.Catalog
import ScriptBridge.Proofs.Registry.Resolution
import ScriptBridge.Proofs.Heap.SlotForm
import ScriptBridge.Proofs.Realm.Reachable
import ScriptBridge.Proofs.Snapshot.HalfBuilt
import ScriptBridge.Proofs.Snapshot.Reading
import ScriptBridge.Proofs.Snapshot.Loading
import ScriptBridge.Proofs.Snapshot.PlainGraph
import ScriptBridge.Proofs.Snapshot.RoundTrip
import ScriptBridge.Proofs.Snapshot.ReadBack
import ScriptBridge.Proofs.Realm.Changes
import ScriptBridge.Proofs.Realm.Protection
import ScriptBridge.Proofs.Realm.Calls
import ScriptBridge.Proofs.Snapshot.Building
import ScriptBridge.Proofs.Snapshot.Awakening
import ScriptBridge.Proofs.Snapshot.Isolation
import ScriptBridge.Proofs.Snapshot.Modes
import ScriptBridge.Proofs.Realm.Callbacks
import ScriptBridge.Proofs.Realm.Modes
import ScriptBridge.Proofs.Snapshot.Phases
import ScriptBridge.Proofs.Snapshot.Meaning
import ScriptBridge.Proofs.Heap.Copies
import ScriptBridge.Proofs.Heap.Expansion
import ScriptBridge.Proofs.Heap.Storing
import ScriptBridge.Proofs.Realm.Copying
import ScriptBridge.Proofs.Realm.Fields
import ScriptBridge.Proofs.Realm.ArrayWrites
import ScriptBridge.Proofs.Realm.InstanceTests
import ScriptBridge.Proofs.Realm.Observation
import ScriptBridge.Proofs.Snapshot.Nesting
import ScriptBridge.Proofs.Snapshot.Course
import ScriptBridge.Proofs.Snapshot.Separation
import ScriptBridge.Proofs.Snapshot.Cloning
import ScriptBridge.Proofs.TypedVector.Elements
import ScriptBridge.Proofs.TypedVector.Members
import ScriptBridge.Proofs.TypedVector.Declared
import ScriptBridge.Proofs.TypedVector.Conforming
import ScriptBridge.Proofs.TypedVector.Loading
import ScriptBridge.Proofs.TypedVector.Runs
import ScriptBridge.Proofs.Realm.Singletons
import ScriptBridge.Proofs.Realm.NativeState
import ScriptBridge.Proofs.Realm.Arguments
import ScriptBridge.Proofs.Snapshot.Room
import ScriptBridge.Proofs.Snapshot.Lenient
import ScriptBridge.Proofs.Snapshot.Growth
import ScriptBridge.Proofs.Snapshot.AwakeOrder
import ScriptBridge.Proofs.Snapshot.Renewal
import ScriptBridge.Proofs.Snapshot.Unfolding
import ScriptBridge.Proofs.Snapshot.Rereading
import ScriptBridge.Proofs.Snapshot.Acceptance
import ScriptBridge.Proofs.Snapshot.Functions
import ScriptBridge.Proofs.TypedVector.InPlace
import ScriptBridge.Proofs.TypedVector.Locks
import ScriptBridge.Proofs.TypedVector.Histories
import ScriptBridge.Proofs.TypedVector.Indices
import ScriptBridge.Proofs.TypedVector.RoundTrip
import ScriptBridge.Proofs.TypedVector.Slices
import ScriptBridge.Proofs.Snapshot.Sharing
