import SnapshotStore.Estate.Turn

namespace SnapshotStore.Estate

open Nudge (Channel)

variable {K V S σ : Type} {estate : Estate K V S σ} {cell : Cell K V S σ} {post : Post}
  {position store : Nat}

theorem channelOf_eq (hcell : estate.cells[store]? = some cell) :
    estate.channelOf store = cell.channel := by
  simp [channelOf, hcell]

theorem cells_absorb (hcell : estate.cells[store]? = some cell) (world : World S σ) :
    (estate.absorb store cell world).cells[store]? = some { cell with
      map := world.map
      channel := world.channel
      saving := world.saving
      saves := world.saves } := by
  have hlt := (List.getElem?_eq_some_iff.mp hcell).1
  simp [absorb, List.getElem?_set_self hlt]

theorem cells_absorb_ne {other : Nat} (hother : other ≠ store) (world : World S σ) :
    (estate.absorb store cell world).cells[other]? = estate.cells[other]? :=
  List.getElem?_set_ne hother.symm

-- A step of a worker's thread changes no more of its store than the channel.
theorem cells_stepWorker (step : Worker → Channel → Worker × Channel)
    (hcell : estate.cells[post.store]? = some cell) :
    (estate.stepWorker position post step).cells[post.store]? =
      some { cell with channel := (step post.worker cell.channel).2 } := by
  simp [stepWorker, setChannel, setWorker, channelOf, hcell]

theorem cells_stepWorker_ne {other : Nat} (step : Worker → Channel → Worker × Channel)
    (hother : other ≠ post.store) :
    (estate.stepWorker position post step).cells[other]? = estate.cells[other]? := by
  simp [stepWorker, setChannel, setWorker, hother.symm]

theorem runFlush_of_ne (hpost : estate.posts[position]? = some post)
    (hphase : post.worker.phase ≠ .flushing) : estate.runFlush position = estate := by
  simp [runFlush, hpost, hphase]

theorem runFlush_of_flushing (hpost : estate.posts[position]? = some post)
    (hphase : post.worker.phase = .flushing) (hcell : estate.cells[post.store]? = some cell) :
    estate.runFlush position =
      (let (outcome, world) :=
        cell.store.flush.run.run (World.serve cell.store.setting) (estate.world cell)
      (estate.absorb post.store cell world).stepWorker position post fun worker channel =>
        (worker.finish outcome).takeTurn channel) := by
  simp [runFlush, hpost, hphase, flushOutcome, perform, hcell]

-- What the flush of a worker leaves behind in the files and in the stores.
structure FlushedBy (estate : Estate K V S σ) (store : Nat) (cell : Cell K V S σ)
    (world : World S σ) (later : Estate K V S σ) : Prop where
  files : later.files = world.files
  desk : later.desk = world.desk
  -- by then the worker has looked at the channel again
  own : ∃ channel, later.cells[store]? = some { cell with
    map := world.map
    channel := channel
    saving := world.saving
    saves := world.saves }
  others : ∀ other ≠ store, later.cells[other]? = estate.cells[other]?

theorem flushedBy_stepWorker (hcell : estate.cells[post.store]? = some cell) (world : World S σ)
    (step : Worker → Channel → Worker × Channel) :
    estate.FlushedBy post.store cell world
      ((estate.absorb post.store cell world).stepWorker position post step) where
  files := rfl
  desk := rfl
  own := ⟨_, cells_stepWorker step (cells_absorb hcell world)⟩
  others _ hother := (cells_stepWorker_ne step hother).trans (cells_absorb_ne hother world)

end SnapshotStore.Estate
