import SnapshotStore.Persistence
import SnapshotStore.Proofs.Routine.Requests

namespace SnapshotStore.Persistence

open SnapshotStore.Action

variable {K V S ω α Φ : Type} {protocol : Protocol K V Φ} {phase : Φ}

structure LeftByFiling (protocol : Protocol K V Φ) (phase : Φ) : Prop where
  copy (segment : Nat) : protocol.Leaves phase (.copy segment)
  serialize (entries : List (K × V)) : protocol.Leaves phase (.serialize entries)
  create (path : Path) : protocol.Leaves phase (.create path)
  append (location : Location) (bytes : Bytes) : protocol.Leaves phase (.append location bytes)
  sync (location : Location) : protocol.Leaves phase (.sync location)
  rename (source target : Path) : protocol.Leaves phase (.rename source target)
  discard (path : Path) : protocol.Leaves phase (.discard path)

-- With the lock around it.
structure LeftBySaving (protocol : Protocol K V Φ) (phase : Φ) : Prop
    extends LeftByFiling protocol phase where
  acquire : protocol.Leaves phase .acquire
  release : protocol.Leaves phase .release

section

variable (hfiling : LeftByFiling protocol phase)

include hfiling

theorem returns_appendAll (location : Location) (chunks : List Bytes) :
    (appendAll location chunks : Routine K V ω _).Returns protocol phase := by
  induction chunks with
  | nil => exact Routine.returns_ask (hfiling.sync location)
  | cons chunk rest ih =>
      apply Routine.returns_bind (Routine.returns_ask (hfiling.append location chunk))
      rintro (reason | _)
      · exact Routine.returns_pure _
      · exact ih

theorem returns_abandon (temporary : Path) (cause : IoCause) :
    (abandon temporary cause : Action K V ω α).Returns protocol phase :=
  returns_bind (returns_ask (hfiling.discard temporary)) fun _ => returns_raise _

theorem returns_replaceFile (path : Path) (chunks : List Bytes) :
    (replaceFile path chunks : Action K V ω Unit).Returns protocol phase := by
  apply returns_bind (returns_ask (hfiling.create path.temporary))
  rintro (reason | location)
  · exact returns_raise _
  · apply returns_bind (returns_ofRoutine (returns_appendAll hfiling location chunks))
    rintro (reason | _)
    · exact returns_abandon hfiling _ _
    · apply returns_bind (returns_ask (hfiling.rename path.temporary path))
      rintro (reason | _)
      · exact returns_abandon hfiling _ _
      · exact returns_pure _

theorem returns_write (persistence : Persistence K V) (entries : List (K × V)) :
    (persistence.write entries : Action K V ω Unit).Returns protocol phase := by
  apply returns_bind (returns_ask (hfiling.serialize entries))
  intro encoded
  exact returns_bind (returns_ofExcept encoded) fun bytes => returns_replaceFile hfiling _ _

-- What a save does while it holds the lock.
theorem returns_writeCopy (persistence : Persistence K V) (backend : Backend K V S) :
    (do
      let entries ← ofRoutine (Memory.snapshot backend)
      persistence.write entries
      pure entries.length : Action K V ω Nat).Returns protocol phase := by
  apply returns_bind (returns_ofRoutine (Routine.returns_snapshotFrom hfiling.copy _))
  intro entries
  exact returns_bind (returns_write hfiling persistence entries) fun _ => returns_pure _

end

theorem returns_saveFrom (hsaving : LeftBySaving protocol phase) (persistence : Persistence K V)
    (backend : Backend K V S) :
    (persistence.saveFrom backend : Action K V ω Nat).Returns protocol phase :=
  returns_exclusively hsaving.acquire hsaving.release
    (returns_writeCopy hsaving.toLeftByFiling persistence backend)

end SnapshotStore.Persistence
