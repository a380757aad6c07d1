import Mathlib.Logic.Function.Basic
import SnapshotStore.Listener.Stats
import SnapshotStore.Proofs.Store.Evaluation

namespace SnapshotStore

variable {K V S σ : Type}

-- How the save has ended that an event tells of.
def Event.saved? : Event K V → Option (Except Failure Nat)
  | .flush entries => some (.ok entries)
  | .flushError error => some (.error (.store error))
  | _ => none

namespace Stats

-- What counters say that were at zero, given the saves that each of their parts has been told of
-- since then. They start again at zero after the greatest value.
structure Counts (stats : Stats) (told : Part → List (Except Failure Nat)) : Prop where
  lastFlushEntries : stats.lastFlushEntries =
    .ofNat (((told .entries).filterMap Except.toOption).getLast?.getD 0)
  lastFlushFailed : stats.lastFlushFailed = true ↔
    ∃ failure, (told .failure).getLast? = some (.error failure)
  saves : stats.flushes + stats.flushFailures = .ofNat (told .count).length

section

variable {stats : Stats} {told : Part → List (Except Failure Nat)} (h : stats.Counts told)

include h

end

theorem counts_start : ({} : Stats).Counts fun _ => [] :=
  ⟨rfl, by simp, rfl⟩

variable {stats : Stats} {told : Part → List (Except Failure Nat)}

-- What has been told once a part has been told of an event.
def toldAlso (told : Part → List (Except Failure Nat)) (part : Part) (event : Event K V) :
    Part → List (Except Failure Nat) :=
  Function.update told part (told part ++ event.saved?.toList)

theorem Counts.note_entries (h : stats.Counts told) (event : Event K V) :
    (stats.note .entries event).Counts (toldAlso told .entries event) := by
  have hentries : (stats.note .entries event).lastFlushEntries =
      .ofNat (((toldAlso told .entries event .entries).filterMap
        Except.toOption).getLast?.getD 0) := by
    cases event <;> simp [note, toldAlso, Event.saved?, Except.toOption, h.lastFlushEntries]
  cases event <;> exact ⟨hentries, h.lastFlushFailed, h.saves⟩

theorem Counts.note_failure (h : stats.Counts told) (event : Event K V) :
    (stats.note .failure event).Counts (toldAlso told .failure event) := by
  have hfailed : (stats.note .failure event).lastFlushFailed = true ↔
      ∃ failure, (toldAlso told .failure event .failure).getLast? = some (.error failure) := by
    cases event <;> simp [note, toldAlso, Event.saved?, h.lastFlushFailed]
  cases event <;> exact ⟨h.lastFlushEntries, hfailed, h.saves⟩

theorem Counts.note_count (h : stats.Counts told) (event : Event K V) :
    (stats.note .count event).Counts (toldAlso told .count event) := by
  have hsaves : (stats.note .count event).flushes + (stats.note .count event).flushFailures =
      .ofNat (toldAlso told .count event .count).length := by
    cases event with
    | flush entries =>
        have hadd : stats.flushes + 1 + stats.flushFailures =
            stats.flushes + stats.flushFailures + 1 := by ac_rfl
        simp [note, toldAlso, Event.saved?, hadd, h.saves]
    | flushError error =>
        simp [note, toldAlso, Event.saved?, ← UInt64.add_assoc, h.saves]
    | _ => simpa [note, toldAlso, Event.saved?] using h.saves
  cases event <;> exact ⟨h.lastFlushEntries, h.lastFlushFailed, hsaves⟩

-- Each part keeps to what it is told itself.
theorem Counts.note (h : stats.Counts told) (part : Part) (event : Event K V) :
    (stats.note part event).Counts (toldAlso told part event) := by
  cases part with
  | entries => exact h.note_entries event
  | failure => exact h.note_failure event
  | count => exact h.note_count event

end Stats

end SnapshotStore
