import SnapshotStore.Proofs.Estate.Cells
import SnapshotStore.Proofs.Store.Reports
import SnapshotStore.Proofs.Store.SaveEnds

namespace SnapshotStore

variable {K V S σ β : Type}

namespace Store

open SnapshotStore.Action
open Persistence (Renewed Retained SaveEnds)

variable {store : Store K V S σ} {world after : World S σ}

-- How a flush ends, by what it has asked for and what the world is like then.
inductive FlushEnds (store : Store K V S σ) (world : World S σ) :
    Except Failure Unit → List (Exchange K V) → World S σ → Prop
  -- after the save every listener in turn is told how many entries the map has
  | saved {bytes : Bytes} {save : List (Exchange K V)} {after : World S σ} :
      store.persistence.serializer.serialize (store.backend.snapshot world.map) = .ok bytes →
      Renewed world.files store.path bytes after.files →
      (∀ position, told position save = []) →
      FlushEnds store world (.ok ())
        (save ++ store.notices (.flush (store.backend.snapshot world.map).length)) after
  -- every listener in turn is told of the error, which is one of the serializer or of the files
  | reported {error : StoreError} {save : List (Exchange K V)} {after : World S σ} :
      (world.serialize store.setting (store.backend.snapshot world.map) = .error (.store error) ∧
          after.files = world.files ∨
        ∃ cause, error = .io cause ∧ Retained world.files store.path after.files) →
      (∀ position, told position save = []) →
      FlushEnds store world (.error (.store error))
        (save ++ store.notices (.flushError error)) after
  -- nobody is told of any other failure of the serializer
  | raised {failure : Failure} {save : List (Exchange K V)} {after : World S σ} :
      (∀ error, failure ≠ .store error) →
      world.serialize store.setting (store.backend.snapshot world.map) = .error failure →
      after.files = world.files →
      (∀ position, told position save = []) →
      FlushEnds store world (.error failure) save after

-- What listeners are told that never fail, and what is left of a save when they have been told.
theorem ends_conclude (hlisteners : ∀ listener ∈ store.listeners, listener.NeverFails)
    (saved : Except Failure Nat) (world : World S σ) :
    ∃ desk, (store.conclude saved).Ends (World.serve store.setting) world
      ((Event.ofSave? saved).elim [] store.notices) (saved.map fun _ => ())
      { world with desk := desk } := by
  unfold conclude
  cases Event.ofSave? (K := K) (V := V) saved with
  | none => exact ⟨world.desk, rfl, rfl⟩
  | some event =>
      obtain ⟨desk, htell⟩ := ends_notices event world hlisteners
      have hends : (store.tell event >>= fun _ => Action.ofExcept (saved.map fun _ => ())).Ends
          (World.serve store.setting) world (store.notices event ++ []) (saved.map fun _ => ()) _ :=
        htell.bind ⟨rfl, rfl⟩
      rw [List.append_nil] at hends
      exact ⟨desk, hends⟩

-- From how the save ends it follows how the flush does.
theorem FlushEnds.of_save {saved : Except Failure Nat} {files : FileTree}
    {save : List (Exchange K V)} (hclear : world.files.Clear store.path)
    (hends : SaveEnds world.files store.path (store.backend.snapshot world.map)
      (world.serialize store.setting (store.backend.snapshot world.map)) saved files)
    (hfiles : after.files = files) (htold : ∀ position, told position save = []) :
    store.FlushEnds world (saved.map fun _ => ())
      (save ++ (Event.ofSave? saved).elim [] store.notices) after := by
  cases hends with
  | written bytes _ hencoded hfits =>
      exact .saved (World.serialize_eq_ok hencoded) (hfiles ▸ hfits.renewed hclear) htold
  | unencoded failure hencoded =>
      cases failure with
      | store error => exact .reported (.inl ⟨hencoded, hfiles⟩) htold
      | exception text =>
          rw [show (Event.ofSave? _).elim [] store.notices = [] from rfl, List.append_nil]
          exact .raised (by simp) hencoded hfiles htold
      | unknown =>
          rw [show (Event.ofSave? _).elim [] store.notices = [] from rfl, List.append_nil]
          exact .raised (by simp) hencoded hfiles htold
  | unwritten bytes failure stage _ _ hstage hfits =>
      obtain ⟨cause, rfl⟩ := hstage.exists_cause
      exact .reported (.inr ⟨cause, rfl, hfiles ▸ hfits.retained hclear hstage⟩) htold

theorem flush_ends (hlisteners : ∀ listener ∈ store.listeners, listener.NeverFails)
    (hclear : world.files.Clear store.path) :
    ∃ outcome own after, store.flush.Ends (World.serve store.setting) world own outcome after ∧
      store.FlushEnds world outcome own after ∧ after.map = world.map ∧ after.saving = false ∧
      after.files.Clear store.path := by
  rcases hexec : (store.persistence.saveFrom store.backend).exec (World.serve store.setting) world
    with ⟨saved, written⟩
  have hsaveEnds := @SaveEnds.of_saveFrom _ _ _ _ store.setting
  obtain ⟨hends, hworld⟩ := hsaveEnds hclear hexec
  obtain ⟨desk, hconclude⟩ := ends_conclude hlisteners saved written
  have hflush := ends_flush ⟨hexec, rfl⟩ hconclude
  refine ⟨_, _, _, hflush, .of_save hclear hends rfl fun position => ?_, ?_, ?_, ?_⟩
  · exact Persistence.told_saveFrom store.setting store.persistence world position
  · rw [hworld]
  · rw [hworld]
  · exact hends.clear hclear

-- What each of the listeners is told of a flush.
def reports (entries : Nat) : Except Failure Unit → List (Event K V)
  | .ok _ => [.flush entries]
  | .error (.store error) => [.flushError error]
  | .error _ => []

theorem FlushEnds.told {outcome : Except Failure Unit} {own : List (Exchange K V)}
    (h : store.FlushEnds world outcome own after) {position : Nat}
    (hlt : position < store.listeners.length) :
    told position own = reports (store.backend.snapshot world.map).length outcome := by
  cases h with
  | saved _ _ htold => rw [told_append, htold, told_notices hlt]; rfl
  | reported _ htold => rw [told_append, htold, told_notices hlt]; rfl
  | @raised failure _ _ hother _ _ htold =>
      rw [htold]
      cases failure with
      | store error => exact absurd rfl (hother error)
      | exception text => rfl
      | unknown => rfl

-- A flush of any map on any files, whoever asks for it.
theorem flush_ends_one_of_three_ways
    (hlisteners : ∀ listener ∈ store.listeners, listener.NeverFails)
    (hclear : world.files.Clear store.path) :
    ∃ outcome own after, store.FlushEnds world outcome own after ∧
      (∀ position < store.listeners.length,
        told position own = reports (store.backend.snapshot world.map).length outcome) ∧
      -- whichever it is, the map stays, the lock is free, and the files are fit for the next flush
      after.map = world.map ∧ after.saving = false ∧ after.files.Clear store.path ∧
      -- when the caller asks for it
      (store.perform (.flush : Command K V (World S σ) β)).Ends (World.serve store.setting) world
        own (outcome.map fun _ => .nothing) after ∧
      -- after a change, if the store writes through
      (store.policy = .writeThrough →
        store.settle.Ends (World.serve store.setting) world own outcome after) ∧
      -- when a worker does it, which takes note of the outcome and goes on; the files and its own
      -- store are then as the flush leaves them, and the other stores as they were
      (∀ (estate : Estate K V S σ) (position : Nat) (post : Post) (cell : Cell K V S σ),
        estate.posts[position]? = some post → post.worker.phase = .flushing →
        estate.cells[post.store]? = some cell → cell.store = store → estate.world cell = world →
        estate.runFlush position =
          (estate.absorb post.store cell after).stepWorker position post
            (fun worker channel => (worker.finish outcome).takeTurn channel) ∧
        estate.FlushedBy post.store cell after (estate.runFlush position)) := by
  obtain ⟨outcome, own, after, hflush, hends, hmap, hfree, hafter⟩ :=
    flush_ends hlisteners hclear
  refine ⟨outcome, own, after, hends, fun _ => hends.told, hmap, hfree, hafter, ?_, ?_, ?_⟩
  · rw [perform]
    exact hflush.map _
  · intro hpolicy
    rw [settle, hpolicy]
    exact hflush
  · rintro estate position post cell hpost hphase hcell rfl rfl
    have hrun : cell.store.flush.run.run (World.serve cell.store.setting) (estate.world cell) =
      (outcome, after) := hflush.exec
    have hworker := Estate.runFlush_of_flushing hpost hphase hcell
    rw [hrun] at hworker
    exact ⟨hworker, hworker ▸ Estate.flushedBy_stepWorker hcell after _⟩

-- The first save cannot be renamed, and the serializer raises something during the second one.
def troubledPages : World (Shards UInt8 UInt8 4 4) Pages where
  files := ⟨.ofEntries [(["db"], .file [0, 7])], [], []⟩
  channel := default
  mishaps save :=
    if save = 0 then .renaming .accessDenied else if save = 1 then .encoding .unknown else .none
  desk := ([], [])
  map := (noted.backend.insert 0 9 noted.backend.empty).2

def flushed (world : World (Shards UInt8 UInt8 4 4) Pages) :
    Except Failure Unit × World (Shards UInt8 UInt8 4 4) Pages :=
  noted.flush.exec (World.serve noted.setting) world

def onceFlushed : World (Shards UInt8 UInt8 4 4) Pages :=
  (flushed troubledPages).2

def twiceFlushed : World (Shards UInt8 UInt8 4 4) Pages :=
  (flushed onceFlushed).2

def renameRefused : StoreError :=
  .io (.rename ⟨"db.json.tmp"⟩ ⟨"db"⟩ .accessDenied)

-- The third flush succeeds.
theorem flush_ends_one_of_three_ways_troubled :
    (flushed troubledPages).1 = .error (.store renameRefused) ∧
    (flushed onceFlushed).1 = .error .unknown ∧ (flushed twiceFlushed).1 = .ok () ∧
    (flushed twiceFlushed).2.desk.2 = [.flushError renameRefused, .flush 1] ∧
    twiceFlushed.files.look ⟨"db"⟩ = .ok (some (.file [0, 7])) ∧
    (flushed twiceFlushed).2.files.look ⟨"db"⟩ = .ok (some (.file [0, 9])) ∧
    ∃ own, noted.FlushEnds troubledPages (flushed troubledPages).1 own onceFlushed ∧
      onceFlushed.saving = false ∧ told 1 own = reports 1 (flushed troubledPages).1 := by
  have hclear : troubledPages.files.Clear noted.path :=
    FileTree.clear_of_resolve ["db.json.tmp"] (.found ["db"] (.file [0, 7])) rfl
      (FileTree.isPlain_of_none rfl) rfl (by decide)
  obtain ⟨outcome, own, after, hends, htold, -, hfree, -, -, hsettle, -⟩ :=
    @flush_ends_one_of_three_ways _ _ _ _ Unit noted troubledPages neverFails_noted hclear
  have hfirst : flushed troubledPages = (outcome, after) := (hsettle rfl).exec
  refine ⟨rfl, rfl, rfl, rfl, rfl, rfl, own, ?_⟩
  rw [onceFlushed, hfirst]
  exact ⟨hends, hfree, htold 1 (by decide)⟩

end Store

end SnapshotStore
