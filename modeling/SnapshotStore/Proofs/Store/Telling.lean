import SnapshotStore.Proofs.Listener.Changelog
import SnapshotStore.Proofs.Persistence.Requests
import SnapshotStore.Proofs.Routine.Ends
import SnapshotStore.Proofs.Store.Parts
import SnapshotStore.Proofs.Threads.Lock

namespace SnapshotStore

variable {K V S σ ω α : Type}

def Listener.NeverFails (listener : Listener K V σ) : Prop :=
  ∀ event sight desk, (listener.notify event sight desk).1 = .ok ()

def Request.IsSilent : Request K V → Prop
  | .notify _ _ => False
  | _ => True

-- The protocol of a single phase in which nobody is told anything.
def silence (K V : Type) : Protocol K V Unit where
  Allows _ := Request.IsSilent
  AllowsAside _ := True
  after _ _ _ := ()

def Request.IsQuiet : Request K V → Prop
  | .insert _ _ => False
  | .remove _ => False
  | .wipe _ => False
  | .notify _ _ => False
  | _ => True

-- In this one the map is not changed either.
def quiet (K V : Type) : Protocol K V Unit where
  Allows _ := Request.IsQuiet
  AllowsAside _ := False
  after _ _ _ := ()

theorem Request.IsSilent.told_cons {request : Request K V} (h : request.IsSilent)
    (response : request.Response) (position : Nat) (rest : List (Exchange K V)) :
    told position (⟨request, response⟩ :: rest) = told position rest := by
  cases request <;> first | rfl | exact h.elim

theorem Request.IsQuiet.isSilent {request : Request K V} (h : request.IsQuiet) :
    request.IsSilent := by
  cases request <;> first | exact trivial | exact h

theorem Request.IsQuiet.writes_eq {request : Request K V} (h : request.IsQuiet)
    (response : request.Response) : Exchange.writes ⟨request, response⟩ = false := by
  cases request <;> first | rfl | exact h.elim

theorem Routine.told_silence {routine : Routine K V ω α} (h : routine.Returns (silence K V) ())
    (serve : Server K V ω) (whole : ω) (position : Nat) :
    told position (routine.exchanges serve whole) = [] := by
  induction routine generalizing whole with
  | done answer => rfl
  | call request next ih => exact (h.1.told_cons _ position _).trans (ih _ (h.2 _) _)
  | aside act next ih => exact ih _ (h.2 _) _

theorem Routine.silence_of_quiet {routine : Routine K V ω α}
    (h : routine.Returns (quiet K V) ()) : routine.Returns (silence K V) () := by
  induction routine with
  | done answer => exact h
  | call request next ih => exact ⟨h.1.isSilent, fun response => ih response (h.2 response)⟩
  | aside act next ih => exact h.1.elim

theorem Routine.run_quiet {routine : Routine K V (World S σ) α}
    (h : routine.Returns (quiet K V) ()) (setting : Setting K V S σ) (world : World S σ) :
    (routine.run (World.serve setting) world).2.map = world.map := by
  induction routine generalizing world with
  | done answer => rfl
  | call request next ih =>
      exact (ih _ (h.2 _) _).trans (World.serve_map setting request world (h.1.writes_eq _))
  | aside act next ih => exact h.1.elim

theorem Store.leftByLooks_quiet : LeftByLooks (quiet K V) () where
  get _ := ⟨trivial, fun _ => rfl⟩
  contains _ := ⟨trivial, fun _ => rfl⟩
  count _ := ⟨trivial, fun _ => rfl⟩
  copy _ := ⟨trivial, fun _ => rfl⟩

namespace Persistence

open SnapshotStore.Action

theorem leftBySaving_quiet : LeftBySaving (quiet K V) () where
  acquire := ⟨trivial, fun _ => rfl⟩
  release := ⟨trivial, fun _ => rfl⟩
  copy _ := ⟨trivial, fun _ => rfl⟩
  serialize _ := ⟨trivial, fun _ => rfl⟩
  create _ := ⟨trivial, fun _ => rfl⟩
  append _ _ := ⟨trivial, fun _ => rfl⟩
  sync _ := ⟨trivial, fun _ => rfl⟩
  rename _ _ := ⟨trivial, fun _ => rfl⟩
  discard _ := ⟨trivial, fun _ => rfl⟩

theorem quiet_replaceFile (path : Path) (chunks : List Bytes) :
    (replaceFile path chunks : Action K V ω Unit).Returns (quiet K V) () :=
  returns_replaceFile leftBySaving_quiet.toLeftByFiling path chunks

theorem quiet_saveFrom (persistence : Persistence K V) (backend : Backend K V S) :
    (persistence.saveFrom backend : Action K V ω Nat).Returns (quiet K V) () :=
  returns_saveFrom leftBySaving_quiet persistence backend

end Persistence

namespace Store

open SnapshotStore.Action

variable {store : Store K V S σ}

theorem ends_notify (hlisteners : ∀ listener ∈ store.listeners, listener.NeverFails)
    (position : Nat) (event : Event K V) (world : World S σ) :
    ∃ after, (ask (.notify position event)).Ends (World.serve store.setting) world
      [⟨.notify position event, .ok ()⟩] (.ok (.ok ())) after ∧ after.map = world.map := by
  have hok : (world.serve store.setting (.notify position event)).1 = .ok () := by
    simp only [World.serve, World.notify]
    split
    · next listener hlistener => exact hlisteners listener (List.mem_of_getElem? hlistener) _ _ _
    · rfl
  have hends := ends_ask (World.serve store.setting) (.notify position event) world
  rw [hok] at hends
  exact ⟨_, hends, World.serve_map _ _ _ rfl⟩

theorem ends_tellFrom (hlisteners : ∀ listener ∈ store.listeners, listener.NeverFails)
    (event : Event K V) (positions : List Nat) (world : World S σ) :
    ∃ exchanges after, (tellFrom event positions).Ends (World.serve store.setting) world
      exchanges (.ok ()) after ∧ after.map = world.map ∧
      ∀ position, told position exchanges = List.replicate (positions.count position) event := by
  induction positions generalizing world with
  | nil => exact ⟨[], world, ends_pure (), rfl, fun _ => rfl⟩
  | cons first rest ih =>
      obtain ⟨middle, hfirst, hmiddle⟩ := ends_notify hlisteners first event world
      obtain ⟨exchanges, after, hrest, hafter, htold⟩ := ih middle
      have hall : (tellFrom event (first :: rest)).Ends (World.serve store.setting) world
          _ (.ok ()) after :=
        hfirst.bind (Ends.bind (ends_pure ()) hrest)
      refine ⟨_, after, hall, hafter.trans hmiddle, fun position => ?_⟩
      rw [told_append, List.nil_append, htold position, List.count_cons]
      by_cases hposition : first = position
      · simp [told, hposition, List.replicate_succ]
      · simp [told, hposition]

theorem ends_tell (hlisteners : ∀ listener ∈ store.listeners, listener.NeverFails)
    (event : Event K V) (world : World S σ) :
    ∃ exchanges after, (store.tell event).Ends (World.serve store.setting) world exchanges
      (.ok ()) after ∧ after.map = world.map ∧
      ∀ position < store.listeners.length, told position exchanges = [event] := by
  obtain ⟨exchanges, after, hends, hafter, htold⟩ :=
    ends_tellFrom hlisteners event (List.range store.listeners.length) world
  refine ⟨exchanges, after, hends, hafter, fun position hlt => ?_⟩
  have hcount : (List.range store.listeners.length).count position = 1 :=
    List.count_eq_one_of_mem List.nodup_range (List.mem_range.mpr hlt)
  rw [htold position, hcount]
  rfl

end Store

end SnapshotStore
