import SnapshotStore.Proofs.Store.SavedFile

namespace SnapshotStore

variable {K V S σ ω α : Type} {setting : Setting K V S σ} {world : World S σ}

-- The requests of a save while it holds the lock.
def Request.IsFiling : Request K V → Prop
  | .copy _ => True
  | .serialize _ => True
  | .create _ => True
  | .append _ _ => True
  | .sync _ => True
  | .rename _ _ => True
  | .discard _ => True
  | _ => False

def filing (K V : Type) : Protocol K V Unit where
  Allows _ := Request.IsFiling
  AllowsAside _ := False
  after _ _ _ := ()

theorem World.serve_filing (setting : Setting K V S σ) {request : Request K V}
    (h : request.IsFiling) (world : World S σ) :
    (world.serve setting request).2 =
      { world with files := (world.serve setting request).2.files } := by
  have hchange : ∀ outcome, (world.change outcome).2 =
      { world with files := (world.change outcome).2.files } := by
    rintro (reason | files) <;> rfl
  cases request with
  | create path =>
      simp only [serve, create]
      split
      · rfl
      · split <;> rfl
  | append location bytes =>
      simp only [serve, append]
      split
      · exact hchange _
      · exact hchange _
  | rename source target =>
      simp only [serve, rename]
      split
      · rfl
      · exact hchange _
  | _ => first | rfl | exact h.elim

theorem World.serialize_eq_ok {entries : List (K × V)} {bytes : Bytes}
    (h : world.serialize setting entries = .ok bytes) :
    setting.serializer.serialize entries = .ok bytes := by
  unfold World.serialize at h
  split at h
  · cases h
  · exact h

theorem Routine.run_filing {routine : Routine K V (World S σ) α}
    (h : routine.Returns (filing K V) ()) (setting : Setting K V S σ) (world : World S σ) :
    (routine.run (World.serve setting) world).2 =
      { world with files := (routine.run (World.serve setting) world).2.files } := by
  induction routine generalizing world with
  | done answer => rfl
  | call request next ih =>
      have hnext := ih _ (h.2 (world.serve setting request).1) (world.serve setting request).2
      rw [run, hnext, World.serve_filing setting h.1 world]
  | aside act next ih => exact h.1.elim

namespace Persistence

open FileTree

theorem leftByFiling_filing : LeftByFiling (filing K V) () where
  copy _ := ⟨trivial, fun _ => rfl⟩
  serialize _ := ⟨trivial, fun _ => rfl⟩
  create _ := ⟨trivial, fun _ => rfl⟩
  append _ _ := ⟨trivial, fun _ => rfl⟩
  sync _ := ⟨trivial, fun _ => rfl⟩
  rename _ _ := ⟨trivial, fun _ => rfl⟩
  discard _ := ⟨trivial, fun _ => rfl⟩

-- The file has been replaced, and nothing else has changed but for the temporary file, which has
-- gone.
structure Renewed (before : FileTree) (path : Path) (content : Bytes) (after : FileTree) :
    Prop where
  entry : ∃ entry, before.entryOf path = .ok entry ∧ after.node? entry = some (.file content)
  look : ¬before.LeadsOverItself path → after.look path = .ok (some (.file content))
  temporary : after.look path.temporary = .ok none
  elsewhere (location : Location) : before.entryOf path ≠ .ok location →
    before.entryOf path.temporary ≠ .ok location → after.node? location = before.node? location

-- The file is as it was, and all other files are but for the temporary file.
structure Retained (before : FileTree) (path : Path) (after : FileTree) : Prop where
  look : after.look path = before.look path
  elsewhere (location : Location) : before.entryOf path.temporary ≠ .ok location →
    after.node? location = before.node? location
  temporary : after = before ∨ after.look path.temporary = .ok none

variable {before after : FileTree} {path : Path} {content : Bytes} {stage : Stage}

theorem Retained.refl (before : FileTree) (path : Path) : Retained before path before :=
  ⟨rfl, fun _ _ => rfl, .inl rfl⟩

theorem Fits.renewed (hfits : Fits before path content .replaced after)
    (hclear : before.Clear path) : Renewed before path content after :=
  ⟨hfits.node?_replaced, hfits.look_replaced hclear, hfits.look_temporary hclear,
    fun _ => hfits.node?_elsewhere⟩

theorem Fits.retained (hfits : Fits before path content stage after)
    (hclear : before.Clear path) {failure : Failure}
    (hends : stage.EndsWith path (.error failure)) : Retained before path after := by
  cases stage with
  | refused =>
      obtain rfl : after = before := hfits
      exact .refl after path
  | dropped =>
      have hlook := hfits.look_eq hclear (by simp)
      have htemporary := hfits.look_dropped
      obtain ⟨location, hholds, -⟩ := hfits
      refine ⟨hlook, fun other hother => hholds.same.node other ?_, .inr htemporary⟩
      rintro rfl
      exact hother hholds.entry
  | replaced => cases hends
  | _ => exact hends.elim

theorem Stage.EndsWith.exists_cause {failure : Failure}
    (hends : stage.EndsWith path (.error failure)) : ∃ cause, failure = .store (.io cause) := by
  cases stage with
  | refused => exact ⟨_, Except.error.inj hends⟩
  | dropped =>
      rcases hends with hfails | ⟨reason, hfails⟩
      · exact ⟨_, Except.error.inj hfails⟩
      · exact ⟨_, Except.error.inj hfails⟩
  | replaced => cases hends
  | _ => exact hends.elim

-- How a save of some entries ends, given what the serializer makes of them.
inductive SaveEnds (before : FileTree) (path : Path) (entries : List (K × V))
    (encoded : Except Failure Bytes) : Except Failure Nat → FileTree → Prop
  | written (bytes : Bytes) (after : FileTree) : encoded = .ok bytes →
      Fits before path bytes .replaced after →
      SaveEnds before path entries encoded (.ok entries.length) after
  | unencoded (failure : Failure) : encoded = .error failure →
      SaveEnds before path entries encoded (.error failure) before
  | unwritten (bytes : Bytes) (failure : Failure) (stage : Stage) (after : FileTree) :
      encoded = .ok bytes → stage.EndsWith path (.error failure) →
      Fits before path bytes stage after →
      SaveEnds before path entries encoded (.error failure) after

section

variable {entries : List (K × V)} {encoded : Except Failure Bytes} {saved : Except Failure Nat}

theorem SaveEnds.clear (h : SaveEnds before path entries encoded saved after)
    (hclear : before.Clear path) : after.Clear path := by
  cases h with
  | written bytes _ _ hfits => exact hfits.clear hclear
  | unencoded failure _ => exact hclear
  | unwritten bytes failure stage _ _ _ hfits => exact hfits.clear hclear

theorem SaveEnds.readable (h : SaveEnds before path entries encoded saved after)
    (hclear : before.Clear path) (hreadable : before.Readable path) : after.Readable path := by
  cases h with
  | written bytes _ _ hfits => exact ⟨_, hfits.look_of_readable hclear hreadable, by simp⟩
  | unencoded failure _ => exact hreadable
  | unwritten bytes failure stage _ _ hstage hfits =>
      obtain ⟨found, hlook, hfound⟩ := hreadable
      exact ⟨found, (hfits.retained hclear hstage).look.trans hlook, hfound⟩

end

theorem exists_fits_replaceFile {path : Path} (hclear : world.files.Clear path)
    (chunks : List Bytes) {outcome : Except Failure Unit} {after : World S σ}
    (h : (replaceFile path chunks : Action K V (World S σ) Unit).exec (World.serve setting) world =
      (outcome, after)) :
    ∃ stage : Stage, stage.EndsWith path outcome ∧
      Fits world.files path chunks.flatten stage after.files := by
  have hobeys := obeys_replaceFile (K := K) (V := V) (ω := World S σ) path chunks
  have hfollows := Routine.follows_exchanges (World.serve setting)
    (replaceFile path chunks : Action K V (World S σ) Unit).run world
  have hserves := Routine.servesAll (quiet_replaceFile (ω := World S σ) path chunks) setting world
  have hrun : (replaceFile path chunks : Action K V (World S σ) Unit).run.run
    (World.serve setting) world = (outcome, after) := h
  rw [hrun] at hfollows hserves
  have hstart : Fits world.files path chunks.flatten .unopened world.files := rfl
  exact ⟨_, hfollows.obeys hobeys, hstart.run hclear (hfollows.admits hobeys) hserves⟩

variable {persistence : Persistence K V}

theorem SaveEnds.of_write {entries : List (K × V)} (hclear : world.files.Clear persistence.path)
    {outcome : Except Failure Unit} {after : World S σ}
    (h : (persistence.write entries : Action K V (World S σ) Unit).exec (World.serve setting)
      world = (outcome, after)) :
    SaveEnds world.files persistence.path entries (world.serialize setting entries)
      (outcome.map fun _ => entries.length) after.files := by
  rw [write, Action.exec_bind, Action.exec_ask] at h
  simp only [World.serve] at h
  rw [Action.exec_bind, Action.exec_ofExcept] at h
  generalize world.serialize setting entries = encoded at h ⊢
  cases encoded with
  | error failure =>
      obtain ⟨rfl, rfl⟩ := Prod.mk.inj h
      exact .unencoded failure rfl
  | ok bytes =>
      obtain ⟨stage, hends, hfits⟩ := exists_fits_replaceFile hclear _ h
      rw [Store.flatten_chunksOf] at hfits
      cases outcome with
      | error failure => exact .unwritten bytes failure stage after.files rfl hends hfits
      | ok _ =>
          cases stage with
          | replaced => exact .written bytes after.files rfl hfits
          | refused => cases hends
          | dropped => rcases hends with hfails | ⟨reason, hfails⟩ <;> cases hfails
          | _ => exact hends.elim

-- What a save does while it holds the lock.
theorem SaveEnds.of_writeCopy (hclear : world.files.Clear persistence.path)
    {saved : Except Failure Nat} {after : World S σ}
    (h : (do
      let entries ← Action.ofRoutine (Memory.snapshot setting.backend)
      persistence.write entries
      pure entries.length : Action K V (World S σ) Nat).exec (World.serve setting) world =
        (saved, after)) :
    SaveEnds world.files persistence.path (setting.backend.snapshot world.map)
        (world.serialize setting (setting.backend.snapshot world.map)) saved after.files ∧
      after = { world with files := after.files } := by
  have hfiling := Routine.run_filing
    (returns_writeCopy leftByFiling_filing persistence setting.backend) setting world
  rw [show Routine.run _ _ world = (saved, after) from h] at hfiling
  refine ⟨?_, hfiling⟩
  rw [Action.exec_bind, Action.exec_ofRoutine, Memory.snapshot, Memory.run_snapshotFrom] at h
  rcases hwrite : (persistence.write (setting.backend.snapshot world.map)).exec
    (World.serve setting) world with ⟨outcome, middle⟩
  have hends := SaveEnds.of_write hclear hwrite
  have hcounted : (do
      persistence.write (setting.backend.snapshot world.map)
      pure (setting.backend.snapshot world.map).length : Action K V (World S σ) Nat).exec
        (World.serve setting) world = (saved, after) := h
  rw [Action.exec_bind, hwrite] at hcounted
  cases outcome <;>
  · obtain ⟨rfl, rfl⟩ := Prod.mk.inj hcounted
    exact hends

theorem SaveEnds.of_saveFrom (hclear : world.files.Clear persistence.path)
    {saved : Except Failure Nat} {after : World S σ}
    (h : (persistence.saveFrom setting.backend).exec (World.serve setting) world =
      (saved, after)) :
    SaveEnds world.files persistence.path (setting.backend.snapshot world.map)
        (world.serialize setting (setting.backend.snapshot world.map)) saved after.files ∧
      after = { world with files := after.files, saving := false, saves := world.saves + 1 } := by
  rw [saveFrom, Action.exec_exclusively] at h
  generalize hbody : Action.exec _ _ _ = result at h
  obtain ⟨outcome, ended⟩ := result
  obtain ⟨rfl, rfl⟩ := Prod.mk.inj h
  let locked : World S σ := { world with saving := true }
  have hlocked : locked.files.Clear persistence.path := hclear
  obtain ⟨hends, hended⟩ := SaveEnds.of_writeCopy hlocked hbody
  exact ⟨hends, by rw [hended]⟩

-- A save by itself tells nobody of anything.
theorem told_saveFrom (setting : Setting K V S σ) (persistence : Persistence K V)
    (world : World S σ) (position : Nat) :
    told position ((persistence.saveFrom setting.backend).run.exchanges (World.serve setting)
      world) = [] :=
  Routine.told_silence (Routine.silence_of_quiet (quiet_saveFrom persistence setting.backend)) _ _
    position

end Persistence

end SnapshotStore
