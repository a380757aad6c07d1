import SnapshotStore.Proofs.Store.Commands
import SnapshotStore.Proofs.Threads.Ownership

namespace SnapshotStore

variable {K V S σ ω α β : Type}

def Command.Looks : Command K V ω β → Prop
  | .get _ => True
  | .containsKey _ => True
  | .length => True
  | .isEmpty => True
  | .entries => True
  | .keys => True
  | .values => True
  | .flush => True
  | _ => False

theorem leaves_looking {request : Request K V} (h : request.WritesOnly fun _ => False) :
    (looking K V).Leaves () request :=
  ⟨h, fun _ => rfl⟩

abbrev Action.Looks (action : Action K V ω α) : Prop :=
  action.Returns (looking K V) ()

-- Without what is done beside the store, no routine opens a channel again.
theorem Routine.run_looks {routine : Routine K V (World S σ) α}
    (h : routine.Returns (looking K V) ()) (setting : Setting K V S σ) (world : World S σ) :
    (routine.run (World.serve setting) world).2.map = world.map ∧
    (routine.run (World.serve setting) world).2.channel.closed = world.channel.closed := by
  induction routine generalizing world with
  | done answer => exact ⟨rfl, rfl⟩
  | call request next ih =>
      obtain ⟨hmap, hclosed⟩ := ih _ (h.2 _) (world.serve setting request).2
      obtain ⟨accepted, hchannel⟩ := World.serve_channel setting request world
      have hwrites : request.WritesOnly fun _ => False := h.1
      refine ⟨hmap.trans (World.serve_map setting request world ?_), hclosed.trans ?_⟩
      · cases request <;> first | rfl | exact hwrites.elim
      · rw [hchannel]
  | aside act next ih => exact h.1.elim

namespace Store

open SnapshotStore.Action

theorem leftByReads_looking : LeftByReads (looking K V) () where
  get _ := leaves_looking trivial
  contains _ := leaves_looking trivial
  count _ := leaves_looking trivial
  copy _ := leaves_looking trivial
  notify _ _ := leaves_looking trivial

theorem valid_serve [DecidableEq K] {store : Store K V S σ} (laws : store.backend.Laws)
    {world : World S σ} (request : Request K V) (hvalid : laws.Valid world.map)
    (hwipe : ∀ segment, request = .wipe segment → segment < store.backend.segments) :
    laws.Valid (world.serve store.setting request).2.map := by
  have hserve := @Threads.valid_serve K V S σ store.setting
  exact hserve laws request hvalid hwipe

variable (store : Store K V S σ)

theorem leftBySaving_looking : Persistence.LeftBySaving (looking K V) () where
  copy _ := leaves_looking trivial
  serialize _ := leaves_looking trivial
  create _ := leaves_looking trivial
  append _ _ := leaves_looking trivial
  sync _ := leaves_looking trivial
  rename _ _ := leaves_looking trivial
  discard _ := leaves_looking trivial
  acquire := leaves_looking trivial
  release := leaves_looking trivial

theorem looks_flush : (store.flush : Action K V ω Unit).Looks :=
  store.returns_flush leftByReads_looking leftBySaving_looking

theorem looks_perform {command : Command K V ω β} (h : command.Looks) :
    (store.perform command).Looks := by
  have hlooks := (leftByReads_looking (K := K) (V := V)).toLeftByLooks
  cases command with
  | flush => exact returns_map _ store.looks_flush
  | _ =>
      first
        | exact store.returns_perform_of_reads hlooks trivial
        | exact h.elim

theorem looks_performAll (commands : List (Command K V ω β))
    (h : ∀ command ∈ commands, command.Looks) :
    (store.performAll commands).Returns (looking K V) () := by
  induction commands with
  | nil =>
      rw [performAll_nil]
      exact Routine.returns_pure _
  | cons command rest ih =>
      rw [List.forall_mem_cons] at h
      rw [performAll_cons]
      refine Routine.returns_bind (store.looks_perform h.1) fun outcome => ?_
      exact (Routine.obeys_map _ _).mpr (ih h.2)

end Store

end SnapshotStore
