import SnapshotStore.Proofs.Store.SavedFile

namespace SnapshotStore.Store

variable {K V S σ : Type} {store : Store K V S σ} {world after : World S σ}

-- The file of a store holds just the bytes of the entries of a map.
def ShowsMap (store : Store K V S σ) (files : FileTree) (map : S) : Prop :=
  ∃ bytes, store.persistence.serializer.serialize (store.backend.snapshot map) = .ok bytes ∧
    files.look store.path = .ok (some (.file bytes))

-- The files are such that the file of a store can be replaced and read.
structure Writable (store : Store K V S σ) (files : FileTree) : Prop where
  clear : files.Clear store.path
  readable : files.Readable store.path

theorem ShowsMap.readable {files : FileTree} {map : S} (h : store.ShowsMap files map) :
    files.Readable store.path := by
  obtain ⟨bytes, -, hlook⟩ := h
  exact ⟨_, hlook, by simp⟩

theorem ShowsMap.look_eq {files files' : FileTree} {map : S} (h : store.ShowsMap files map)
    (h' : store.ShowsMap files' map) : files.look store.path = files'.look store.path := by
  obtain ⟨bytes, hbytes, hlook⟩ := h
  obtain ⟨bytes', hbytes', hlook'⟩ := h'
  obtain rfl := Except.ok.inj (hbytes.symm.trans hbytes')
  exact hlook.trans hlook'.symm

theorem shows_saved {written : Nat} (hwritable : store.Writable world.files)
    (h : (store.persistence.saveFrom store.backend).exec (World.serve store.setting) world =
      (.ok written, after)) :
    store.Writable after.files ∧ store.ShowsMap after.files world.map := by
  have hsaved := @Persistence.fits_saveFrom _ _ _ _ store.setting
  obtain ⟨bytes, hbytes, hfits⟩ := hsaved h
  have hreplaced := hfits hwritable.clear
  have hshows : store.ShowsMap after.files world.map :=
    ⟨bytes, hbytes, hreplaced.look_of_readable hwritable.clear hwritable.readable⟩
  exact ⟨⟨hreplaced.clear hwritable.clear, hshows.readable⟩, hshows⟩

-- The failure of a save is never lost, though a listener may raise another one instead.
theorem exec_report_ne_ok (failure : Failure) (world : World S σ) :
    ((store.report failure).exec (World.serve store.setting) world).1 ≠ .ok () := by
  intro hok
  have hreport : (store.report failure).exec (World.serve store.setting) world = (.ok (), _) :=
    Prod.ext hok rfl
  cases failure with
  | store error =>
      obtain ⟨_, middle, -, hraise⟩ := Action.exists_of_exec_bind hreport
      cases (Prod.mk.inj hraise).1
  | exception text => cases (Prod.mk.inj hreport).1
  | unknown => cases (Prod.mk.inj hreport).1

theorem shows_flushed (hwritable : store.Writable world.files)
    (h : store.flush.exec (World.serve store.setting) world = (.ok (), after)) :
    store.Writable after.files ∧ store.ShowsMap after.files world.map := by
  rcases hsave : (store.persistence.saveFrom store.backend).exec (World.serve store.setting) world
    with ⟨failure | written, saved⟩
  · have hrun : (store.persistence.saveFrom store.backend).run.run (World.serve store.setting)
      world = (.error failure, saved) := hsave
    rw [flush, Action.exec_bind, Action.exec_ofRoutine, hrun] at h
    exact absurd (congrArg Prod.fst h) (exec_report_ne_ok failure saved)
  · obtain ⟨hfiles, -⟩ := exec_flush_of_save hsave
    rw [h] at hfiles
    have hshows := shows_saved hwritable hsave
    rwa [← hfiles] at hshows

end SnapshotStore.Store
