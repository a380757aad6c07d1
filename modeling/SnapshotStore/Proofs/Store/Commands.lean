import SnapshotStore.Proofs.Store.Parts
import SnapshotStore.Proofs.Store.Saving

namespace SnapshotStore

variable {K V S σ ω α β Φ : Type}

-- Nothing is done beside the store, in callbacks neither.
mutual

def Command.Unaided : Command K V ω β → Prop
  | .update _ inner _ => Command.AllUnaided inner
  | .getOrInsertWith _ inner _ => Command.AllUnaided inner
  | .aside _ => False
  | _ => True

def Command.AllUnaided : List (Command K V ω β) → Prop
  | [] => True
  | command :: rest => command.Unaided ∧ Command.AllUnaided rest

end

-- What is run outside of a save and ends there.
abbrev Routine.Stays (segments : Nat) (path : Path) (routine : Routine K V ω α) : Prop :=
  routine.Returns (Store.saving K V segments path) .outside

abbrev Action.Stays (segments : Nat) (path : Path) (action : Action K V ω α) : Prop :=
  action.Returns (Store.saving K V segments path) .outside

-- The protocol of a single phase in which only what is done beside the store is ruled out.
def asking (K V : Type) : Protocol K V Unit where
  Allows _ _ := True
  AllowsAside _ := False
  after _ _ _ := ()

namespace Store

open SnapshotStore.Action

-- What it takes for the commands to leave a phase as it is.
structure LeftByCommands (store : Store K V S σ) (ω : Type) (protocol : Protocol K V Φ) (phase : Φ) :
    Prop extends LeftByWrites store.backend.segments protocol phase where
  flush : (store.flush : Action K V ω Unit).Returns protocol phase
  nudge : protocol.Leaves phase .nudge

section

variable {store : Store K V S σ} {protocol : Protocol K V Φ} {phase : Φ}

-- What is done beside the store has to be allowed, unless there is none of it.
mutual

theorem returns_perform (h : store.LeftByCommands ω protocol phase) (command : Command K V ω β)
    (haside : protocol.AllowsAside phase ∨ command.Unaided) :
    (store.perform command).Returns protocol phase := by
  have hwrites := h.toLeftByWrites
  have hlooks := hwrites.toLeftByLooks
  have hsettle := returns_settle h.flush h.nudge
  cases command with
  | insert key value =>
      rw [perform]
      exact returns_map _ (returns_insert hwrites hsettle key value)
  | remove key =>
      rw [perform]
      exact returns_map _ (returns_remove hwrites hsettle key)
  | clear =>
      rw [perform]
      exact returns_map _ (returns_clear hwrites hsettle)
  | extend entries =>
      rw [perform]
      exact returns_map _ (returns_extend hwrites hsettle entries)
  | update key inner edit =>
      rw [perform]
      rw [Command.Unaided] at haside
      refine returns_map _ (returns_update hwrites hsettle key _ fun value => ?_)
      exact returns_bind (returns_ofRoutine (returns_performFrom h inner [] haside)) fun _ =>
        returns_bind (returns_ofExcept _) fun _ => returns_pure _
  | getOrInsert key value =>
      rw [perform]
      exact returns_map _ (returns_getOrInsert hwrites hsettle key value)
  | getOrInsertWith key inner make =>
      rw [perform]
      rw [Command.Unaided] at haside
      refine returns_map _ (returns_getOrInsertWith hwrites hsettle key _ ?_)
      exact returns_bind (returns_ofRoutine (returns_performFrom h inner [] haside)) fun _ =>
        returns_bind (returns_ofExcept _) fun _ => returns_pure _
  | flush =>
      rw [perform]
      exact returns_map _ h.flush
  | aside act =>
      rw [perform]
      rw [Command.Unaided] at haside
      exact returns_map _ ⟨haside.resolve_right id, fun _ => rfl⟩
  | _ => exact store.returns_perform_of_reads hlooks trivial

theorem returns_performFrom (h : store.LeftByCommands ω protocol phase)
    (commands : List (Command K V ω β)) (before : List (Outcome K V β))
    (haside : protocol.AllowsAside phase ∨ Command.AllUnaided commands) :
    (store.performFrom commands before).Returns protocol phase := by
  cases commands with
  | nil =>
      rw [performFrom]
      exact Routine.returns_pure _
  | cons command rest =>
      rw [performFrom]
      rw [Command.AllUnaided] at haside
      exact Routine.returns_bind (returns_perform h command (haside.imp_right And.left)) fun _ =>
        returns_performFrom h rest _ (haside.imp_right And.right)

end

end

theorem leaves_asking (request : Request K V) : (asking K V).Leaves () request :=
  ⟨trivial, fun _ => rfl⟩

theorem leftByWrites_asking (segments : Nat) : LeftByWrites segments (asking K V) () where
  get _ := leaves_asking _
  contains _ := leaves_asking _
  count _ := leaves_asking _
  copy _ := leaves_asking _
  notify _ _ := leaves_asking _
  insert _ _ := leaves_asking _
  remove _ := leaves_asking _
  wipe _ _ := leaves_asking _

theorem leftBySaving_asking : Persistence.LeftBySaving (asking K V) () where
  copy _ := leaves_asking _
  serialize _ := leaves_asking _
  create _ := leaves_asking _
  append _ _ := leaves_asking _
  sync _ := leaves_asking _
  rename _ _ := leaves_asking _
  discard _ := leaves_asking _
  acquire := leaves_asking _
  release := leaves_asking _

theorem leftByCommands_asking (store : Store K V S σ) :
    store.LeftByCommands ω (asking K V) () where
  toLeftByWrites := leftByWrites_asking _
  flush := store.returns_flush (leftByWrites_asking 0).toLeftByReads leftBySaving_asking
  nudge := leaves_asking _

theorem asks_performAll (store : Store K V S σ) {commands : List (Command K V ω β)}
    (h : Command.AllUnaided commands) : (store.performAll commands).Returns (asking K V) () :=
  returns_performFrom store.leftByCommands_asking commands [] (.inr h)

variable {segments : Nat} {path : Path}

theorem leaves_outside {request : Request K V} (h : Phase.IsPlain segments request) :
    (saving K V segments path).Leaves .outside request := by
  cases request <;> first | exact ⟨h, fun _ => rfl⟩ | exact h.elim

theorem leftByWrites_outside : LeftByWrites segments (saving K V segments path) .outside where
  get _ := leaves_outside trivial
  contains _ := leaves_outside trivial
  count _ := leaves_outside trivial
  copy _ := leaves_outside trivial
  notify _ _ := leaves_outside trivial
  insert _ _ := leaves_outside trivial
  remove _ := leaves_outside trivial
  wipe _ hsegment := leaves_outside hsegment

theorem leftByReads_outside : LeftByReads (saving K V segments path) .outside :=
  leftByWrites_outside.toLeftByReads

variable (store : Store K V S σ)

-- A command of this store begins and ends outside of a save.
abbrev Keeps (action : Action K V ω α) : Prop :=
  action.Stays store.backend.segments store.path

theorem keeps_flush : store.Keeps (store.flush : Action K V ω Unit) := by
  apply returns_bind (returns_ofRoutine (obeys_saveFrom store.persistence store.backend))
  rintro (failure | entries)
  · exact store.returns_report leftByReads_outside failure
  · exact store.returns_tell leftByReads_outside _

theorem leftByCommands_outside : store.LeftByCommands ω
    (saving K V store.backend.segments store.path) .outside where
  toLeftByWrites := leftByWrites_outside
  flush := store.keeps_flush
  nudge := leaves_outside trivial

theorem keeps_performAll (commands : List (Command K V ω β)) :
    (store.performAll commands).Stays store.backend.segments store.path :=
  returns_performFrom store.leftByCommands_outside commands [] (.inl rfl)

end Store

end SnapshotStore
