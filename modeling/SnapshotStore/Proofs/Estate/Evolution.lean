import SnapshotStore.Estate.Handles
import SnapshotStore.Proofs.Estate.Cells
import SnapshotStore.Proofs.Store.Looking
import SnapshotStore.Proofs.Worker.Turn

namespace SnapshotStore

open Nudge (Channel)

variable {K V S σ α : Type}

structure Cell.Becomes [DecidableEq K] (cell later : Cell K V S σ) : Prop where
  store : later.store = cell.store
  closed : cell.channel.closed = true → later.channel.closed = true
  valid : ∀ laws : cell.store.backend.Laws, laws.Valid cell.map → laws.Valid later.map

structure Post.Becomes (post later : Post) : Prop where
  store : later.store = post.store
  stopRequested : post.worker.stopRequested = true → later.worker.stopRequested = true
  exited : post.worker.phase = .exited →
    later.worker = { post.worker with stopRequested := later.worker.stopRequested }

theorem Cell.Becomes.refl [DecidableEq K] (cell : Cell K V S σ) : cell.Becomes cell :=
  ⟨rfl, id, fun _ => id⟩

theorem Post.Becomes.refl (post : Post) : post.Becomes post :=
  ⟨rfl, id, fun _ => rfl⟩

theorem Cell.Becomes.trans [DecidableEq K] {cell middle later : Cell K V S σ}
    (h : cell.Becomes middle) (h' : middle.Becomes later) : cell.Becomes later := by
  obtain ⟨store, map, channel, saving, saves⟩ := middle
  obtain rfl : store = cell.store := h.store
  exact ⟨h'.store, fun hclosed => h'.closed (h.closed hclosed),
    fun laws hvalid => h'.valid laws (h.valid laws hvalid)⟩

theorem Post.Becomes.trans {post middle later : Post} (h : post.Becomes middle)
    (h' : middle.Becomes later) : post.Becomes later := by
  refine ⟨h'.store.trans h.store, fun hstop => h'.stopRequested (h.stopRequested hstop),
    fun hexited => ?_⟩
  have hmiddle := h.exited hexited
  have hlater := h'.exited (by rw [hmiddle, hexited])
  rw [hmiddle] at hlater
  exact hlater

-- The thread of the worker is gone, after a stop has been requested.
def Post.IsGone (post : Post) : Prop :=
  post.worker.stopRequested = true ∧ post.worker.phase = .exited

theorem Post.Becomes.eq_of_gone {post later : Post} (h : post.Becomes later) (hgone : post.IsGone) :
    later = post := by
  obtain ⟨worker, store⟩ := later
  obtain rfl : store = post.store := h.store
  have hstop : worker.stopRequested = true := h.stopRequested hgone.1
  have hworker : worker = { post.worker with stopRequested := worker.stopRequested } :=
    h.exited hgone.2
  rw [hstop, ← hgone.1] at hworker
  rw [hworker]

namespace Estate

section

variable [DecidableEq K]

-- Handles stay as they are, stores and workers stay in their positions, and nothing is undone.
structure Evolves (before after : Estate K V S σ) : Prop where
  handles : after.handles = before.handles
  cells (position : Nat) : Option.Rel Cell.Becomes before.cells[position]? after.cells[position]?
  posts (position : Nat) : Option.Rel Post.Becomes before.posts[position]? after.posts[position]?

variable {estate before middle after : Estate K V S σ} {position : Nat}

section

variable {β : Type} {R : β → β → Prop} {x : β} {first second third : Option β}

theorem rel_refl (hrefl : ∀ x, R x x) (found : Option β) : Option.Rel R found found := by
  cases found with
  | none => exact .none
  | some x => exact .some (hrefl x)

theorem rel_trans (htrans : ∀ {x y z}, R x y → R y z → R x z) (h : Option.Rel R first second)
    (h' : Option.Rel R second third) : Option.Rel R first third := by
  cases h with
  | none => exact h'
  | some h =>
      cases h' with
      | some h' => exact .some (htrans h h')

theorem exists_of_rel (h : Option.Rel R first second) (hfirst : first = some x) :
    ∃ y, second = some y ∧ R x y := by
  subst hfirst
  cases h with
  | some h => exact ⟨_, rfl, h⟩

theorem exists_of_rel_right (h : Option.Rel R first second) (hsecond : second = some x) :
    ∃ y, first = some y ∧ R y x := by
  subst hsecond
  cases h with
  | some h => exact ⟨_, rfl, h⟩

end

theorem Evolves.refl (estate : Estate K V S σ) : estate.Evolves estate :=
  ⟨rfl, fun _ => rel_refl .refl _, fun _ => rel_refl .refl _⟩

theorem Evolves.trans (h : before.Evolves middle) (h' : middle.Evolves after) :
    before.Evolves after :=
  ⟨h'.handles.trans h.handles,
    fun position => rel_trans .trans (h.cells position) (h'.cells position),
    fun position => rel_trans .trans (h.posts position) (h'.posts position)⟩

theorem Evolves.cell (h : before.Evolves after) {cell : Cell K V S σ}
    (hcell : before.cells[position]? = some cell) :
    ∃ later, after.cells[position]? = some later ∧ cell.Becomes later :=
  exists_of_rel (h.cells position) hcell

theorem Evolves.post (h : before.Evolves after) {post : Post}
    (hpost : before.posts[position]? = some post) :
    ∃ later, after.posts[position]? = some later ∧ post.Becomes later :=
  exists_of_rel (h.posts position) hpost

theorem Evolves.cell_before (h : before.Evolves after) {later : Cell K V S σ}
    (hlater : after.cells[position]? = some later) :
    ∃ cell, before.cells[position]? = some cell ∧ cell.Becomes later :=
  exists_of_rel_right (h.cells position) hlater

theorem Evolves.post_before (h : before.Evolves after) {later : Post}
    (hlater : after.posts[position]? = some later) :
    ∃ post, before.posts[position]? = some post ∧ post.Becomes later :=
  exists_of_rel_right (h.posts position) hlater

theorem evolves_setChannel {channel : Channel}
    (hclosed : (estate.channelOf position).closed = true → channel.closed = true) :
    estate.Evolves (estate.setChannel position channel) := by
  refine ⟨rfl, fun other => ?_, fun _ => rel_refl .refl _⟩
  simp only [setChannel, List.getElem?_modify]
  cases hcell : estate.cells[other]? with
  | none => exact .none
  | some cell =>
      refine .some ?_
      by_cases hsame : position = other
      · subst hsame
        rw [channelOf_eq hcell] at hclosed
        simp only [if_true]
        exact ⟨rfl, hclosed, fun _ => id⟩
      · simp only [if_neg hsame]
        exact .refl cell

theorem evolves_setWorker {post : Post} {worker : Worker}
    (hpost : estate.posts[position]? = some post)
    (hbecomes : post.Becomes { post with worker := worker }) :
    estate.Evolves (estate.setWorker position worker) := by
  refine ⟨rfl, fun _ => rel_refl .refl _, fun other => ?_⟩
  simp only [setWorker, List.getElem?_modify]
  cases hother : estate.posts[other]? with
  | none => exact .none
  | some found =>
      refine .some ?_
      by_cases hsame : position = other
      · subst hsame
        obtain rfl := Option.some.inj (hpost.symm.trans hother)
        simp only [if_true]
        exact hbecomes
      · simp only [if_neg hsame]
        exact .refl found

theorem evolves_absorb {cell : Cell K V S σ} {world : World S σ}
    (hcell : estate.cells[position]? = some cell)
    (hclosed : cell.channel.closed = true → world.channel.closed = true)
    (hvalid : ∀ laws : cell.store.backend.Laws, laws.Valid cell.map → laws.Valid world.map) :
    estate.Evolves (estate.absorb position cell world) := by
  refine ⟨rfl, fun other => ?_, fun _ => rel_refl .refl _⟩
  simp only [absorb]
  by_cases hsame : position = other
  · subst hsame
    have hlt := (List.getElem?_eq_some_iff.mp hcell).1
    rw [hcell, List.getElem?_set_self hlt]
    exact .some ⟨rfl, hclosed, hvalid⟩
  · rw [List.getElem?_set_ne hsame]
    exact rel_refl .refl _

theorem evolves_stepWorker {post : Post} {step : Worker → Channel → Worker × Channel}
    (hpost : estate.posts[position]? = some post)
    (hbecomes : ∀ channel, post.Becomes { post with worker := (step post.worker channel).1 })
    (hclosed : ∀ channel, (step post.worker channel).2.closed = channel.closed) :
    estate.Evolves (estate.stepWorker position post step) := by
  have hchannel : ∀ channel : Channel, channel.closed = true →
      (step post.worker channel).2.closed = true := by
    intro channel h
    rw [hclosed, h]
  exact (evolves_setWorker hpost (hbecomes _)).trans (evolves_setChannel (hchannel _))

omit [DecidableEq K] in
theorem post_stepWorker {post : Post} (step : Worker → Channel → Worker × Channel)
    (hpost : estate.posts[position]? = some post) :
    (estate.stepWorker position post step).posts[position]? =
      some { post with worker := (step post.worker (estate.channelOf post.store)).1 } := by
  simp [stepWorker, setChannel, setWorker, hpost]

theorem becomes_of_keeps {post : Post} {worker : Worker} {channel later : Channel}
    (h : post.worker.Keeps channel worker later) : post.Becomes { post with worker := worker } :=
  ⟨rfl, fun hstop => h.stopRequested.trans hstop, fun hexited => by rw [h.exited hexited]⟩

-- While it flushes, the thread is not gone.
theorem becomes_finish {post : Post} (hphase : post.worker.phase = .flushing)
    (outcome : Except Failure Unit) (channel : Channel) :
    post.Becomes { post with worker := ((post.worker.finish outcome).takeTurn channel).1 } := by
  have hkeeps : (post.worker.finish outcome).Keeps channel _ _ :=
    Worker.keeps_proceed Worker.stepsPerTurn false _ _
  refine ⟨rfl, fun hstop => ?_, fun hexited => ?_⟩
  · exact hkeeps.stopRequested.trans ((Worker.finish_stopRequested outcome).trans hstop)
  · cases hphase.symm.trans hexited

theorem evolves_absorb_looks {cell : Cell K V S σ} (hcell : estate.cells[position]? = some cell)
    {routine : Routine K V (World S σ) α} (hlooks : routine.Returns (looking K V) ()) :
    estate.Evolves (estate.absorb position cell
      (routine.run (World.serve cell.store.setting) (estate.world cell)).2) := by
  obtain ⟨hmap, hclosed⟩ := Routine.run_looks hlooks cell.store.setting (estate.world cell)
  refine evolves_absorb hcell (fun h => hclosed.trans h) fun laws hvalid => ?_
  rw [hmap]
  exact hvalid

theorem evolves_runFlush (estate : Estate K V S σ) (position : Nat) :
    estate.Evolves (estate.runFlush position) := by
  cases hpost : estate.posts[position]? with
  | none =>
      rw [runFlush, hpost]
      exact .refl estate
  | some post =>
      by_cases hphase : post.worker.phase = .flushing
      · cases hcell : estate.cells[post.store]? with
        | none =>
            rw [runFlush, hpost]
            simp only [hphase, if_true, flushOutcome, hcell]
            exact .refl estate
        | some cell =>
            rw [runFlush_of_flushing hpost hphase hcell]
            refine (evolves_absorb_looks hcell cell.store.looks_flush).trans
              (evolves_stepWorker hpost (fun channel => ?_) fun channel => ?_)
            · exact becomes_finish hphase _ channel
            · exact (Worker.keeps_proceed _ _ _ _).closed
      · rw [runFlush_of_ne hpost hphase]
        exact .refl estate

theorem evolves_takeTurn {post : Post} (hpost : estate.posts[position]? = some post) :
    estate.Evolves (estate.stepWorker position post Worker.takeTurn) := by
  refine evolves_stepWorker hpost (fun channel => ?_) fun channel => ?_
  · exact becomes_of_keeps (Worker.keeps_proceed _ _ _ channel)
  · exact (Worker.keeps_proceed _ _ _ channel).closed

theorem evolves_turn (estate : Estate K V S σ) (position : Nat) :
    estate.Evolves (estate.turn position) := by
  unfold turn
  cases hpost : estate.posts[position]? with
  | none => exact .refl estate
  | some post =>
      exact (evolves_takeTurn hpost).trans (evolves_runFlush _ position)

-- The first half of a stop, after which the thread that stops the worker waits.
def requestStop (estate : Estate K V S σ) (position : Nat) (post : Post) : Estate K V S σ :=
  let estate := estate.setWorker position post.worker.requestStop
  estate.setChannel post.store (estate.channelOf post.store).close

omit [DecidableEq K] in
theorem stopWorker_eq {post : Post} (hpost : estate.posts[position]? = some post) :
    estate.stopWorker position = (estate.requestStop position post).turn position := by
  simp only [stopWorker, hpost]
  rfl

theorem evolves_requestStop {post : Post} (hpost : estate.posts[position]? = some post) :
    estate.Evolves (estate.requestStop position post) := by
  have hstop : post.Becomes { post with worker := post.worker.requestStop } :=
    ⟨rfl, fun _ => rfl, fun _ => rfl⟩
  exact (evolves_setWorker hpost hstop).trans (evolves_setChannel fun _ => rfl)

theorem evolves_stopWorker (estate : Estate K V S σ) (position : Nat) :
    estate.Evolves (estate.stopWorker position) := by
  cases hpost : estate.posts[position]? with
  | none =>
      rw [stopWorker, hpost]
      exact .refl estate
  | some post =>
      rw [stopWorker_eq hpost]
      exact (evolves_requestStop hpost).trans (evolves_turn _ position)

omit [DecidableEq K] in
theorem requested {post : Post} {cell : Cell K V S σ}
    (hpost : estate.posts[position]? = some post) (hcell : estate.cells[post.store]? = some cell) :
    (estate.requestStop position post).posts[position]? =
      some { post with worker := post.worker.requestStop } ∧
    (estate.requestStop position post).cells[post.store]? =
      some { cell with channel := cell.channel.close } := by
  simp [requestStop, setChannel, setWorker, channelOf, hpost, hcell]

-- What is left of the flush of a worker that has been told to stop is its last deed.
theorem runFlush_exits {post : Post} {cell : Cell K V S σ}
    (hpost : estate.posts[position]? = some post) (hphase : post.worker.phase = .flushing)
    (hstop : post.worker.stopRequested = true) (hcell : estate.cells[post.store]? = some cell)
    (hclosed : cell.channel.closed = true) :
    ∃ gone, (estate.runFlush position).posts[position]? = some gone ∧
      gone.worker.phase = .exited := by
  rw [runFlush_of_flushing hpost hphase hcell]
  obtain ⟨later, hlater, hbecomes⟩ :=
    (evolves_absorb_looks hcell cell.store.looks_flush).cell hcell
  have hchannel := congrArg Channel.closed (channelOf_eq hlater)
  exact ⟨_, post_stepWorker _ hpost,
    Worker.takeTurn_finish_of_stopped hstop (hchannel.trans (hbecomes.closed hclosed)) _⟩

theorem turn_exits {post : Post} {cell : Cell K V S σ}
    (hpost : estate.posts[position]? = some post) (hstop : post.worker.stopRequested = true)
    (hcell : estate.cells[post.store]? = some cell) (hclosed : cell.channel.closed = true) :
    ∃ gone, (estate.turn position).posts[position]? = some gone ∧
      gone.worker.phase = .exited := by
  have hkeeps := Worker.keeps_proceed Worker.stepsPerTurn false post.worker cell.channel
  have hstepped := post_stepWorker Worker.takeTurn hpost
  rw [channelOf_eq hcell] at hstepped
  obtain ⟨later, hlater, hbecomes⟩ := (evolves_takeTurn hpost).cell hcell
  simp only [turn, hpost]
  by_cases hflushes : (post.worker.takeTurn cell.channel).1.phase = .flushing
  · exact runFlush_exits hstepped hflushes (hkeeps.stopRequested.trans hstop) hlater
      (hbecomes.closed hclosed)
  · rw [runFlush_of_ne hstepped hflushes]
    refine ⟨_, hstepped, Worker.takeTurn_of_stopped hstop hclosed ?_ ?_⟩
    · exact fun hresolved => hflushes (Worker.takeTurn_of_resolved hresolved)
    · intro hflushing
      rw [Worker.takeTurn_of_flushing hflushing] at hflushes
      exact hflushes hflushing

-- When the stop of a worker has come to its end, the worker's thread is gone.
theorem stopWorker_gone {post : Post} {cell : Cell K V S σ}
    (hpost : estate.posts[position]? = some post) (hcell : estate.cells[post.store]? = some cell) :
    (∃ gone, (estate.stopWorker position).posts[position]? = some gone ∧ gone.IsGone ∧
      gone.store = post.store) ∧
    ∃ later, (estate.stopWorker position).cells[post.store]? = some later ∧
      later.channel.closed = true := by
  obtain ⟨hstopped, hclosed⟩ := requested hpost hcell
  rw [stopWorker_eq hpost]
  obtain ⟨gone, hgone, hexited⟩ := turn_exits hstopped rfl hclosed rfl
  obtain ⟨same, hsame, hbecomes⟩ := (evolves_turn _ position).post hstopped
  obtain rfl := Option.some.inj (hgone.symm.trans hsame)
  obtain ⟨later, hlater, hcellBecomes⟩ := (evolves_turn _ position).cell hclosed
  exact ⟨⟨gone, hgone, ⟨hbecomes.stopRequested rfl, hexited⟩, hbecomes.store⟩,
    later, hlater, hcellBecomes.closed rfl⟩

end

end Estate

end SnapshotStore
