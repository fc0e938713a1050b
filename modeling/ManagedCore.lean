import ManagedCore.Code.Function
import ManagedCore.Code.Liveness
import ManagedCore.Collector.Payload
import ManagedCore.Collector.Scan
import ManagedCore.Collector.Visitor
import ManagedCore.CommandLine.Options
import ManagedCore.CommandLine.Run
import ManagedCore.Demonstration.Keys
import ManagedCore.Demonstration.Mutators
import ManagedCore.Dictionary.Basic
import ManagedCore.Dictionary.Chain
import ManagedCore.Dictionary.Edges
import ManagedCore.Dictionary.Hashing
import ManagedCore.Dictionary.Settings
import ManagedCore.Fault
import ManagedCore.Main
import ManagedCore.Numeric.Binary32
import ManagedCore.Numeric.ShortestDecimal
import ManagedCore.Proofs.Collector.Roots
import ManagedCore.Proofs.Stack.Private
import ManagedCore.Proofs.Stack.Sound
import ManagedCore.Proofs.Stack.View
import ManagedCore.Stack.Arena
import ManagedCore.Stack.Basic
import ManagedCore.Stack.Calls
import ManagedCore.Stack.Frame
import ManagedCore.Stack.Variables
import ManagedCore.Text.Invisible
import ManagedCore.Text.Quoted
import ManagedCore.Threads.Registry
import ManagedCore.Threads.World
import ManagedCore.Value
import ManagedCore.Violation
import ManagedCore.Word
import ManagedCore.Proofs.Stack.Refinement
import ManagedCore.Proofs.Stack.Producers
import ManagedCore.Proofs.Stack.Walk
import ManagedCore.Proofs.Collector.ScanRoots
import ManagedCore.Proofs.Stack.Programs
import ManagedCore.Proofs.Collector.ReachableRoots
import ManagedCore.Proofs.Dictionary.Chains
import ManagedCore.Proofs.Dictionary.Buckets
import ManagedCore.Proofs.Dictionary.Operations
import ManagedCore.Proofs.Dictionary.Bindings
import ManagedCore.Proofs.Dictionary.Visits
import ManagedCore.Proofs.Dictionary.Runs
import ManagedCore.Proofs.Dictionary.FiniteMaps
import ManagedCore.Proofs.Threads.Links
import ManagedCore.Proofs.Threads.Registries
import ManagedCore.Proofs.Threads.Runs
import ManagedCore.Proofs.Stack.Geometry
import ManagedCore.Proofs.Stack.Cursors
import ManagedCore.Proofs.Numeric.Magnitudes
import ManagedCore.Proofs.Dictionary.Thresholds
import ManagedCore.Proofs.Dictionary.Growth
import ManagedCore.Proofs.Dictionary.Histories
import ManagedCore.Proofs.Dictionary.Payloads
import ManagedCore.Proofs.Dictionary.Order
import ManagedCore.Proofs.Stack.Footprints
import ManagedCore.Proofs.Stack.Prefixes
import ManagedCore.Proofs.Stack.ArgumentCalls
import ManagedCore.Proofs.Stack.FilledCalls
import ManagedCore.Proofs.Stack.Room
import ManagedCore.Proofs.Stack.Origins
import ManagedCore.Proofs.Stack.OwnFrames
import ManagedCore.Proofs.Stack.Destinations
import ManagedCore.Proofs.Dictionary.Relocations
import ManagedCore.Proofs.Threads.Stacks
import ManagedCore.Proofs.Collector.ThreadScans
import ManagedCore.Proofs.Dictionary.Selections
import ManagedCore.Proofs.Stack.Chunks
import ManagedCore.Proofs.Collector.Sweeps
import ManagedCore.Proofs.Dictionary.SweptEntries
import ManagedCore.Proofs.Demonstration.NumberedKeys
import ManagedCore.Proofs.Numeric.TaggedWords
import ManagedCore.Proofs.Demonstration.CallChains
import ManagedCore.Proofs.Demonstration.ParkedMutators
import ManagedCore.Proofs.Threads.Slots
