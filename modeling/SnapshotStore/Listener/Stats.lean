import SnapshotStore.Listener.Basic

namespace SnapshotStore

-- A counter starts again at zero after its greatest value.
structure Stats where
  inserts : UInt64 := 0
  updates : UInt64 := 0
  removes : UInt64 := 0
  clears : UInt64 := 0
  flushes : UInt64 := 0
  flushFailures : UInt64 := 0
  lastFlushEntries : UInt64 := 0
  lastFlushFailed : Bool := false
  deriving DecidableEq, Inhabited

namespace Stats

variable {K V σ : Type}

-- What is written down of an event, each part with a write of its own and in this order.
inductive Part where
  | entries
  | failure
  | count
  deriving DecidableEq

def Part.all : List Part := [.entries, .failure, .count]

def Part.place : Part → Nat
  | .entries => 0
  | .failure => 1
  | .count => 2

theorem Part.getElem?_all (part : Part) : Part.all[part.place]? = some part := by
  cases part <;> rfl

def note (stats : Stats) (part : Part) (event : Event K V) : Stats :=
  match part, event with
  -- The entries of the last good flush stay on record.
  | .entries, .flush entries => { stats with lastFlushEntries := .ofNat entries }
  | .failure, .flush _ => { stats with lastFlushFailed := false }
  | .failure, .flushError _ => { stats with lastFlushFailed := true }
  | .count, .insert _ _ => { stats with inserts := stats.inserts + 1 }
  | .count, .update _ _ _ => { stats with updates := stats.updates + 1 }
  | .count, .remove _ => { stats with removes := stats.removes + 1 }
  | .count, .clear => { stats with clears := stats.clears + 1 }
  | .count, .flush _ => { stats with flushes := stats.flushes + 1 }
  | .count, .flushError _ => { stats with flushFailures := stats.flushFailures + 1 }
  | _, _ => stats

def observe (stats : Stats) (event : Event K V) : Stats :=
  Part.all.foldl (fun stats part => stats.note part event) stats

def reset (_ : Stats) : Stats := {}

def totalMutations (stats : Stats) : UInt64 :=
  stats.inserts + stats.updates + stats.removes + stats.clears

variable (modify : (Stats → Stats) → σ → σ)

-- Keeps its counters where `modify` finds them on the desk.
def listener : Listener K V σ :=
  .recording fun event _ => modify (·.observe event)

-- The same part by part, since others may be told of something between two writes: a listener for
-- each of the parts, in a row.
def listeners : List (Listener K V σ) :=
  Part.all.map fun part => .recording fun event _ => modify (·.note part event)

-- If nothing comes in between, the row does what the listener does.
theorem foldl_listeners (hmodify : ∀ change other desk,
      modify other (modify change desk) = modify (other ∘ change) desk)
    (event : Event K V) (sight : Sight K V) (desk : σ) :
    (listeners modify).foldl (fun desk part => (part.notify event sight desk).2) desk =
      ((listener modify).notify event sight desk).2 := by
  change modify _ (modify _ (modify _ desk)) = modify _ desk
  rw [hmodify, hmodify]
  rfl

end Stats

end SnapshotStore
