import SnapshotStore.Estate.Client
import SnapshotStore.FileTree.Fresh
import SnapshotStore.Listener.Logging
import SnapshotStore.Listener.Stats
import SnapshotStore.Backend.Locked
import SnapshotStore.Backend.Sharded
import SnapshotStore.Nudge.Receiver
import SnapshotStore.Routine.Interleaving
import SnapshotStore.Serializer.Lines
import SnapshotStore.Store.Command
import SnapshotStore.Worker.Run
import SnapshotStore.Proofs.Backend.Buckets
import SnapshotStore.Proofs.Backend.Laws
import SnapshotStore.Proofs.Backend.Shards
import SnapshotStore.Proofs.Backend.FiniteMap
import SnapshotStore.Proofs.FileTree.Plain
import SnapshotStore.Proofs.FileTree.Entry
import SnapshotStore.Proofs.FileTree.Cover
import SnapshotStore.Proofs.Persistence.Stages
import SnapshotStore.Proofs.Persistence.Replacement
import SnapshotStore.Proofs.Persistence.Atomic
import SnapshotStore.Proofs.Store.Saving
import SnapshotStore.Proofs.Store.Commands
import SnapshotStore.Proofs.Store.Settling
import SnapshotStore.Proofs.Threads.Run
import SnapshotStore.Proofs.Threads.Ledger
import SnapshotStore.Proofs.Threads.Lock
import SnapshotStore.Proofs.Threads.Saves
import SnapshotStore.Proofs.Persistence.Load
import SnapshotStore.Proofs.Threads.Files
import SnapshotStore.Proofs.Threads.Settled
import SnapshotStore.Proofs.Store.Opening
import SnapshotStore.Proofs.Store.Concurrent
import SnapshotStore.Proofs.Store.Parts
import SnapshotStore.Proofs.Store.CallerDriven
import SnapshotStore.Proofs.Threads.Alone
import SnapshotStore.Proofs.Store.Sequential
import SnapshotStore.Proofs.Trace
import SnapshotStore.Proofs.Nudge.Delivery
import SnapshotStore.Proofs.Worker.Steps
import SnapshotStore.Proofs.Worker.Lifecycle
import SnapshotStore.Proofs.Listener.Changelog
import SnapshotStore.Proofs.Routine.Ends
import SnapshotStore.Proofs.Store.Telling
import SnapshotStore.Proofs.Store.Tracking
import SnapshotStore.Proofs.Store.Changelog
import SnapshotStore.Proofs.Store.Flushing
import SnapshotStore.Proofs.Threads.Onset
import SnapshotStore.Proofs.Background.System
import SnapshotStore.Proofs.Background.Simulation
import SnapshotStore.Proofs.Background.Durability
import SnapshotStore.Proofs.FileTree.Leads
import SnapshotStore.Proofs.Estate.Opening
import SnapshotStore.Proofs.Routine.Alike
import SnapshotStore.Proofs.Store.Alike
import SnapshotStore.Proofs.Store.Independence
import SnapshotStore.Proofs.Routine.Terms
import SnapshotStore.Proofs.Store.Ownership
import SnapshotStore.Proofs.Threads.Ending
import SnapshotStore.Proofs.Threads.Ownership
import SnapshotStore.Proofs.Store.Looking
import SnapshotStore.Proofs.Store.OneWriter
import SnapshotStore.Proofs.Worker.Turn
import SnapshotStore.Proofs.Estate.Cells
import SnapshotStore.Proofs.Estate.Evolution
import SnapshotStore.Proofs.Estate.Ownership
import SnapshotStore.Proofs.Estate.System
import SnapshotStore.Proofs.Store.Closed
import SnapshotStore.Proofs.Store.SavedFile
import SnapshotStore.Proofs.Estate.Turns
import SnapshotStore.Proofs.Estate.Workers
import SnapshotStore.Proofs.Persistence.Requests
import SnapshotStore.Proofs.Routine.Yields
import SnapshotStore.Proofs.Store.Notices
import SnapshotStore.Proofs.Store.Evaluation
import SnapshotStore.Proofs.Store.Announcing
import SnapshotStore.Proofs.Store.Callbacks
import SnapshotStore.Proofs.Store.Shown
import SnapshotStore.Proofs.Store.Batches
import SnapshotStore.Proofs.Store.Agreement
import SnapshotStore.Proofs.Store.Reports
import SnapshotStore.Proofs.Store.Accounts
import SnapshotStore.Proofs.Store.Interrupted
import SnapshotStore.Proofs.Persistence.Endings
import SnapshotStore.Proofs.Store.Course
import SnapshotStore.Proofs.Store.Efforts
import SnapshotStore.Proofs.Listener.Statistics
import SnapshotStore.Proofs.Background.Courses
import SnapshotStore.Proofs.Background.Counters
import SnapshotStore.Proofs.Background.Latest
import SnapshotStore.Proofs.Background.Tallies
import SnapshotStore.Proofs.Background.Counting
import SnapshotStore.Proofs.Threads.Moments
import SnapshotStore.Proofs.Threads.Copies
import SnapshotStore.Proofs.Threads.Clearing
import SnapshotStore.Proofs.Store.SaveEnds
import SnapshotStore.Proofs.Store.FlushEnds
import SnapshotStore.Proofs.Store.Sightings
import SnapshotStore.Proofs.Store.Watching
import SnapshotStore.Proofs.Store.Sights
import SnapshotStore.Proofs.Store.Timely
import SnapshotStore.Proofs.Text.Numerals
import SnapshotStore.Proofs.KeyCodec
import SnapshotStore.Proofs.Path
import SnapshotStore.Proofs.Threads.Conservation
import SnapshotStore.Proofs.Nudge.Timing
