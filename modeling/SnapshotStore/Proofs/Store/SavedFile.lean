import SnapshotStore.Proofs.Persistence.Atomic
import SnapshotStore.Proofs.Store.CallerDriven
import SnapshotStore.Proofs.Store.Saving
import SnapshotStore.Proofs.Store.Tracking

namespace SnapshotStore

variable {K V S σ ω α β : Type}

theorem Action.exists_of_exec_bind {serve : Server K V ω} {action : Action K V ω α}
    {next : α → Action K V ω β} {whole after : ω} {answer : β}
    (h : (action >>= next).exec serve whole = (.ok answer, after)) :
    ∃ given middle, action.exec serve whole = (.ok given, middle) ∧
      (next given).exec serve middle = (.ok answer, after) := by
  rw [exec_bind] at h
  rcases hexec : action.exec serve whole with ⟨failure | given, middle⟩
  · rw [hexec] at h
    cases h
  · rw [hexec] at h
    exact ⟨given, middle, rfl, h⟩

-- A routine that nothing interrupts asks the files one request after the other.
theorem Routine.servesAll {routine : Routine K V (World S σ) α}
    (h : routine.Returns (quiet K V) ()) (setting : Setting K V S σ) (world : World S σ) :
    world.files.ServesAll (routine.exchanges (World.serve setting) world)
      (routine.run (World.serve setting) world).2.files := by
  induction routine generalizing world with
  | done answer => rfl
  | call request next ih => exact ⟨_, World.serves setting request world, ih _ (h.2 _) _⟩
  | aside act next ih => exact h.1.elim

namespace Persistence

open FileTree

variable {setting : Setting K V S σ} {world after : World S σ} {persistence : Persistence K V}

theorem fits_replaceFile {path : Path} {chunks : List Bytes} (hclear : world.files.Clear path)
    (h : (replaceFile path chunks : Action K V (World S σ) Unit).exec (World.serve setting) world =
      (.ok (), after)) :
    Fits world.files path chunks.flatten .replaced after.files := by
  have hobeys := obeys_replaceFile (K := K) (V := V) (ω := World S σ) path chunks
  have hfollows := Routine.follows_exchanges (World.serve setting)
    (replaceFile path chunks : Action K V (World S σ) Unit).run world
  have hserves := Routine.servesAll (quiet_replaceFile (ω := World S σ) path chunks) setting world
  have hrun : (replaceFile path chunks : Action K V (World S σ) Unit).run.run
    (World.serve setting) world = (.ok (), after) := h
  rw [hrun] at hfollows hserves
  have hend := hfollows.obeys hobeys
  have hstart : Fits world.files path chunks.flatten .unopened world.files := rfl
  have hfits := hstart.run hclear (hfollows.admits hobeys) hserves
  generalize (replacement K V path chunks.flatten).along .unopened _ = stage at hend hfits
  cases stage with
  | replaced => exact hfits
  | refused => cases (hend : (_ : Except Failure Unit) = _)
  | dropped => rcases hend with hfails | ⟨reason, hfails⟩ <;> cases hfails
  | _ => exact hend.elim

theorem fits_write {entries : List (K × V)}
    (h : (persistence.write entries : Action K V (World S σ) Unit).exec (World.serve setting)
      world = (.ok (), after)) :
    ∃ bytes, setting.serializer.serialize entries = .ok bytes ∧
      (world.files.Clear persistence.path →
        Fits world.files persistence.path bytes .replaced after.files) := by
  obtain ⟨encoded, middle, hencoded, hrest⟩ := Action.exists_of_exec_bind h
  obtain ⟨bytes, last, hbytes, hreplace⟩ := Action.exists_of_exec_bind hrest
  obtain ⟨hanswer, rfl⟩ := Prod.mk.inj hencoded
  obtain rfl := Except.ok.inj hanswer
  obtain ⟨hserialize, rfl⟩ := Prod.mk.inj hbytes
  refine ⟨bytes, ?_, fun hclear => ?_⟩
  · simp only [World.serialize] at hserialize
    split at hserialize
    · cases hserialize
    · exact hserialize
  · have hfits := fits_replaceFile hclear hreplace
    rwa [Store.flatten_chunksOf] at hfits

-- The temporary file matters only for where the bytes are.
theorem fits_saveFrom {written : Nat}
    (h : (persistence.saveFrom setting.backend).exec (World.serve setting) world =
      (.ok written, after)) :
    ∃ bytes, setting.serializer.serialize (setting.backend.snapshot world.map) = .ok bytes ∧
      (world.files.Clear persistence.path →
        Fits world.files persistence.path bytes .replaced after.files) := by
  rw [saveFrom, Action.exec_exclusively] at h
  generalize hexec : Action.exec _ _ _ = result at h
  obtain ⟨outcome, saved⟩ := result
  obtain ⟨rfl, rfl⟩ := Prod.mk.inj h
  obtain ⟨entries, middle, hentries, hrest⟩ := Action.exists_of_exec_bind hexec
  obtain ⟨_, last, hwrite, hcount⟩ := Action.exists_of_exec_bind hrest
  rw [Action.exec_ofRoutine, Memory.snapshot, Memory.run_snapshotFrom] at hentries
  obtain ⟨hanswer, rfl⟩ := Prod.mk.inj hentries
  obtain rfl := Except.ok.inj hanswer
  obtain ⟨bytes, hserialize, hfits⟩ := fits_write hwrite
  obtain ⟨-, rfl⟩ := Prod.mk.inj hcount
  exact ⟨bytes, hserialize, hfits⟩

end Persistence

namespace Store

open Persistence (saveFrom)

variable {store : Store K V S σ} {world : World S σ} {written : Nat} {outcome : Except Failure Unit}
  {after : World S σ}

-- What the listeners do when they are told of it cannot undo a save.
theorem exec_flush_of_save (hsave : (store.persistence.saveFrom store.backend).exec
      (World.serve store.setting) world = (.ok written, after)) :
    (store.flush.exec (World.serve store.setting) world).2.files = after.files ∧
      ((∀ listener ∈ store.listeners, listener.NeverFails) →
        (store.flush.exec (World.serve store.setting) world).1 = .ok ()) := by
  have hflush : store.flush.exec (World.serve store.setting) world =
      (store.tell (.flush written)).exec (World.serve store.setting) after := by
    have hrun : (store.persistence.saveFrom store.backend).run.run (World.serve store.setting)
      world = (.ok written, after) := hsave
    rw [flush, Action.exec_bind, Action.exec_ofRoutine, hrun]
  rw [hflush]
  constructor
  · exact Action.SparesFiles.exec_files _ _
      (store.returns_tell (leftByWrites_sparing 0).toLeftByReads _)
  · intro hlisteners
    obtain ⟨exchanges, last, htell, -⟩ := ends_tell hlisteners (.flush written) after
    exact congrArg Prod.fst htell.exec

end Store

end SnapshotStore
