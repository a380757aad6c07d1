import SnapshotStore.Proofs.Persistence.Atomic
import SnapshotStore.Proofs.Threads.Saves

namespace SnapshotStore.Threads

open FileTree
open Persistence (Stage Fits)
open Store (Turn)

variable {K V S σ α : Type} {setting : Setting K V S σ} {path : Path}
  {start threads : Threads K V S σ α} {moves : List (Move K V S)} {found : FileTree}

-- What is to be seen at the path after the saves so far, if the files were `found` at the start.
def Shown (setting : Setting K V S σ) (path : Path) (found : FileTree) (saves : List (Save S))
    (files : FileTree) : Prop :=
  match saves.head? with
  | none => files.look path = found.look path
  | some save => ∃ bytes,
    setting.serializer.serialize (setting.backend.assemble save.views) = .ok bytes ∧
    files.look path = .ok (some (.file bytes))

theorem Shown.readable {saves : List (Save S)} {files : FileTree}
    (h : Shown setting path found saves files) (hfound : found.Readable path) :
    files.Readable path := by
  unfold Shown at h
  cases hhead : saves.head? with
  | none =>
      rw [hhead] at h
      rw [FileTree.Readable, h]
      exact hfound
  | some save =>
      rw [hhead] at h
      obtain ⟨bytes, -, hlook⟩ := h
      exact ⟨_, hlook, by simp⟩

theorem Shown.of_look {saves : List (Save S)} {files after : FileTree}
    (h : Shown setting path found saves files) (hlook : after.look path = files.look path) :
    Shown setting path found saves after := by
  unfold Shown at h ⊢
  rw [hlook]
  exact h

structure FilesSound (setting : Setting K V S σ) (path : Path) (found : FileTree)
    (moves : List (Move K V S)) (world : World S σ) : Prop where
  clear : world.files.Clear path
  shown : Shown setting path found (Ledger.of moves).saves world.files
  -- the files as they were when the thread began to replace the file
  stages : ∀ thread copied bytes stage,
    Move.phase thread moves = .replacing copied bytes stage → ∃ before : FileTree,
      before.Clear path ∧ before.Readable path ∧ Fits before path bytes stage world.files

-- A move that leaves the files alone.
theorem FilesSound.of_same {world after : World S σ} {thread : Nat} {exchange : Exchange K V}
    {map : S} (h : FilesSound setting path found moves world)
    (hfound : found.Readable path) (hfiles : after.files = world.files)
    (hrenames : exchange.renames = false)
    (hstage : ∀ copied bytes stage, Move.phase thread (moves ++ [⟨thread, exchange, map⟩]) =
      .replacing copied bytes stage → stage = .unopened) :
    FilesSound setting path found (moves ++ [⟨thread, exchange, map⟩]) after := by
  refine ⟨hfiles ▸ h.clear, ?_, ?_⟩
  · rw [Ledger.saves_append moves hrenames, hfiles]
    exact h.shown
  · intro i copied bytes stage hphase
    by_cases hthread : thread = i
    · subst hthread
      obtain rfl := hstage copied bytes stage hphase
      exact ⟨world.files, h.clear, h.shown.readable hfound, hfiles⟩
    · rw [Move.phase_append_other moves hthread] at hphase
      rw [hfiles]
      exact h.stages i copied bytes stage hphase

-- A move by which the file is being replaced.
theorem FilesSound.of_stage {world after : World S σ} {thread : Nat} {exchange : Exchange K V}
    {map : S} {copied : List (K × V)} {bytes : Bytes} {stage next : Stage}
    (h : FilesSound setting path found moves world) (hexcludes : Excludes moves world)
    (hattempt : ((Ledger.of moves).attempts thread).Fits setting thread moves
      (.replacing copied bytes stage))
    (hbefore : Move.phase thread moves = .replacing copied bytes stage)
    (hphase : Move.phase thread (moves ++ [⟨thread, exchange, map⟩]) =
      .replacing copied bytes next)
    (hturn : Persistence.Turn path bytes stage exchange next)
    (hserves : world.files.Serves exchange.request exchange.response after.files) :
    FilesSound setting path found (moves ++ [⟨thread, exchange, map⟩]) after := by
  obtain ⟨before, hclear, hreadable, hfits⟩ := h.stages thread copied bytes stage hbefore
  have hafter := hfits.step hclear hturn hserves
  refine ⟨hafter.clear hclear, ?_, ?_⟩
  · cases hrenames : exchange.renames with
    | true =>
        obtain rfl := hturn.eq_replaced_iff.mpr (.inr hrenames)
        obtain ⟨-, -, hcopied, hbytes, -⟩ := hattempt
        rw [Ledger.saves_append_of_renames moves ⟨thread, exchange, map⟩ hrenames]
        exact ⟨bytes, hcopied ▸ hbytes, hafter.look_of_readable hclear hreadable⟩
    | false =>
        have hstage : stage ≠ .replaced := by
          rintro rfl
          cases hturn
        have hnext : next ≠ .replaced := fun hnext => by
          rcases hturn.eq_replaced_iff.mp hnext with hsame | htrue
          · exact hstage hsame
          · cases hrenames.symm.trans htrue
        rw [Ledger.saves_append moves hrenames]
        exact h.shown.of_look ((hafter.look_eq hclear hnext).trans
          (hfits.look_eq hclear hstage).symm)
  · intro i copied' bytes' stage' hi
    by_cases hthread : thread = i
    · subst hthread
      obtain ⟨rfl, rfl, rfl⟩ := Store.Phase.replacing.inj (hi.symm.trans hphase)
      exact ⟨before, hclear, hreadable, hafter⟩
    · rw [Move.phase_append_other moves hthread] at hi
      have hothers := (hexcludes thread (by simp [hbefore])).2 i (Ne.symm hthread)
      cases hothers.symm.trans hi

theorem Run.filesSound (hkeep : start.Keep setting path) (hclear : start.world.files.Clear path)
    (hreadable : start.world.files.Readable path) (h : Run setting start moves threads) :
    FilesSound setting path start.world.files moves threads.world := by
  refine h.keeps_invariant (FilesSound setting path start.world.files) hkeep
    ⟨hclear, rfl, ?_⟩ ?_ ?_
  · intro thread copied bytes stage hphase
    cases hphase
  · intro moves threads thread request response after hrun hinv _ hserve hturn
    have hphase := Move.phase_append_self moves thread ⟨request, response⟩ after.map
    have hserves := World.serves setting request threads.world
    have hattempt := hrun.attemptsFit hkeep thread
    rw [hserve] at hserves
    generalize hbefore : Move.phase thread moves = phase at hturn hphase hattempt
    generalize phase.after request response = next at hturn hphase
    cases hturn with
    | plain response hplain =>
        refine hinv.of_same hreadable ?_ ?_ fun copied bytes stage hreplacing => ?_
        · cases request <;> first | exact hplain.elim | exact hserves
        · cases request <;> first | exact hplain.elim | rfl
        · cases hphase.symm.trans hreplacing
    | acquires =>
        exact hinv.of_same hreadable hserves rfl fun copied bytes stage hreplacing => by
          cases hphase.symm.trans hreplacing
    | copies copied entries hcount =>
        exact hinv.of_same hreadable hserves rfl fun copied bytes stage hreplacing => by
          cases hphase.symm.trans hreplacing
    | encodes copied bytes =>
        exact hinv.of_same hreadable hserves rfl fun copied bytes stage hreplacing => by
          cases hphase.symm.trans hreplacing
          rfl
    | encodeFails copied failure =>
        exact hinv.of_same hreadable hserves rfl fun copied bytes stage hreplacing => by
          cases hphase.symm.trans hreplacing
    | replaces copied hstage =>
        exact hinv.of_stage (hrun.excludes hkeep) hattempt hbefore hphase hstage hserves
    | releases hclosing =>
        exact hinv.of_same hreadable hserves rfl fun copied bytes stage hreplacing => by
          cases hphase.symm.trans hreplacing
  · intro moves before after hinv huntouched
    refine ⟨huntouched.files ▸ hinv.clear, huntouched.files ▸ hinv.shown, ?_⟩
    rw [huntouched.files]
    exact hinv.stages

end SnapshotStore.Threads
