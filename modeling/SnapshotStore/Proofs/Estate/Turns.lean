import SnapshotStore.Proofs.Estate.System
import SnapshotStore.Proofs.Store.Closed

namespace SnapshotStore.Estate

open Nudge (Channel)

variable {K V S σ α : Type} {now : Estate K V S σ} {cell : Cell K V S σ} {post : Post}
  {position store : Nat}

theorem absorb_world (hcell : now.cells[store]? = some cell) :
    now.absorb store cell (now.world cell) = now := by
  have hset : now.cells.set store cell = now.cells := by
    obtain ⟨hlt, rfl⟩ := List.getElem?_eq_some_iff.mp hcell
    exact List.set_getElem_self hlt
  exact congrArg (fun cells => { now with cells := cells }) hset

theorem modify_of_fixed {β : Type} {list : List β} {change : β → β} {x : β}
    (hx : list[position]? = some x) (hfixed : change x = x) :
    list.modify position change = list := by
  apply List.ext_getElem?
  intro other
  rw [List.getElem?_modify]
  by_cases hsame : position = other
  · subst hsame
    simp [hx, hfixed]
  · simp [hsame]

theorem setWorker_self (hpost : now.posts[position]? = some post) :
    now.setWorker position post.worker = now :=
  congrArg (fun posts => { now with posts := posts }) (modify_of_fixed hpost rfl)

theorem setChannel_self (hcell : now.cells[store]? = some cell) :
    now.setChannel store cell.channel = now :=
  congrArg (fun cells => { now with cells := cells }) (modify_of_fixed hcell rfl)

theorem setWorker_setWorker (now : Estate K V S σ) (position : Nat) (first second : Worker) :
    (now.setWorker position first).setWorker position second = now.setWorker position second := by
  simp only [setWorker, List.modify_modify_eq]
  rfl

theorem setChannel_setChannel (now : Estate K V S σ) (store : Nat) (first second : Channel) :
    (now.setChannel store first).setChannel store second = now.setChannel store second := by
  simp only [setChannel, List.modify_modify_eq]
  rfl

theorem absorb_absorb (now : Estate K V S σ) (store : Nat) (cell : Cell K V S σ)
    (first second : World S σ) :
    (now.absorb store cell first).absorb store { cell with
      map := first.map
      channel := first.channel
      saving := first.saving
      saves := first.saves } second = now.absorb store cell second := by
  simp only [absorb, List.set_set]

theorem serve_eq (hcell : now.cells[store]? = some cell) (request : Request K V) :
    now.serve store cell request =
      (((now.world cell).serve cell.store.setting request).1,
        now.absorb store cell ((now.world cell).serve cell.store.setting request).2) := by
  simp [serve, hcell]

theorem stepWorker_self (hpost : now.posts[position]? = some post)
    (hcell : now.cells[post.store]? = some cell) {step : Worker → Channel → Worker × Channel}
    (hstep : step post.worker cell.channel = (post.worker, cell.channel)) :
    now.stepWorker position post step = now := by
  rw [stepWorker, channelOf_eq hcell, hstep]
  simp only
  rw [setWorker_self hpost, setChannel_self hcell]

theorem stepWorker_stepped (hcell : now.cells[post.store]? = some cell) (worker : Worker)
    (channel : Channel) (step : Worker → Channel → Worker × Channel) :
    ((now.setWorker position worker).setChannel post.store channel).stepWorker position
        { post with worker := worker } step =
      (now.setWorker position (step worker channel).1).setChannel post.store
        (step worker channel).2 := by
  have hchannel : ((now.setWorker position worker).setChannel post.store channel).channelOf
      post.store = channel := by
    simp [channelOf, setChannel, setWorker, hcell]
  rw [stepWorker, hchannel]
  have hworkers := setWorker_setWorker now position worker (step worker channel).1
  exact (setChannel_setChannel _ _ _ _).trans
    (congrArg (fun estate => estate.setChannel post.store (step worker channel).2) hworkers)

variable [DecidableEq K]

-- An operation that nothing interrupts is a sequence of requests.
theorem trace_run (hcell : now.cells[store]? = some cell) {routine : Routine K V (World S σ) α}
    (h : routine.Returns (unaided K V cell.store.backend.segments) ()) :
    Trace Step now
      ((routine.exchanges (World.serve cell.store.setting) (now.world cell)).map (.served store))
      (now.absorb store cell
        (routine.run (World.serve cell.store.setting) (now.world cell)).2) := by
  induction routine generalizing now cell with
  | done answer =>
      rw [Routine.run, absorb_world hcell]
      exact .start
  | call request next ih =>
      have hstep := Step.served hcell h.1
      rw [serve_eq hcell] at hstep
      have hrest := ih ((now.world cell).serve cell.store.setting request).1
        (cells_absorb hcell ((now.world cell).serve cell.store.setting request).2) (h.2 _)
      rw [absorb_absorb] at hrest
      exact (Trace.start.next hstep).append hrest
  | aside act next ih => exact h.1.elim

theorem trace_proceed (steps : Nat) (timeIsUp : Bool) (hpost : now.posts[position]? = some post)
    (hcell : now.cells[post.store]? = some cell) :
    ∃ acts, Trace Step now acts
      (now.stepWorker position post (Worker.proceed steps timeIsUp)) := by
  induction steps generalizing now post cell timeIsUp with
  | zero =>
      have hsame : now.stepWorker position post (Worker.proceed 0 timeIsUp) = now :=
        stepWorker_self hpost hcell rfl
      rw [hsame]
      exact ⟨[], .start⟩
  | succ steps ih =>
      cases hstep : post.worker.step? cell.channel timeIsUp with
      | none =>
          rw [stepWorker_self hpost hcell (by rw [Worker.proceed, hstep])]
          exact ⟨[], .start⟩
      | some after =>
          obtain ⟨worker, channel⟩ := after
          have hfirst := Step.stepped timeIsUp hpost ((channelOf_eq hcell).symm ▸ hstep)
          have hpostNext : ((now.setWorker position worker).setChannel post.store
              channel).posts[position]? = some { post with worker := worker } := by
            simp [setChannel, setWorker, hpost]
          have hcellNext : ((now.setWorker position worker).setChannel post.store
              channel).cells[post.store]? = some { cell with channel := channel } := by
            simp [setChannel, setWorker, hcell]
          obtain ⟨acts, hrest⟩ := ih false hpostNext hcellNext
          rw [stepWorker_stepped hcell] at hrest
          rw [stepWorker, channelOf_eq hcell, Worker.proceed, hstep]
          exact ⟨_, (Trace.start.next hfirst).append hrest⟩

omit [DecidableEq K] in
theorem stepWorker_finish (now : Estate K V S σ) (position : Nat) (post : Post)
    (outcome : Except Failure Unit) (step : Worker → Channel → Worker × Channel) :
    (now.setWorker position (post.worker.finish outcome)).stepWorker position
        { post with worker := post.worker.finish outcome } step =
      now.stepWorker position post fun worker channel => step (worker.finish outcome) channel := by
  simp only [stepWorker, channelOf_setWorker, setWorker_setWorker]

theorem trace_runFlush (hpost : now.posts[position]? = some post)
    (hcell : now.cells[post.store]? = some cell) :
    ∃ acts, Trace Step now acts (now.runFlush position) := by
  by_cases hphase : post.worker.phase = .flushing
  · have hlooks := cell.store.looks_flush (ω := World S σ)
    have hflush := trace_run hcell (Routine.unaided_of_looks hlooks)
    rw [runFlush_of_flushing hpost hphase hcell]
    generalize cell.store.flush.run.run (World.serve cell.store.setting) (now.world cell) = result
      at hflush
    obtain ⟨outcome, world⟩ := result
    have hends : Step (now.absorb post.store cell world) _ _ := .flushed outcome hpost hphase
    have hpostNext : ((now.absorb post.store cell world).setWorker position
        (post.worker.finish outcome)).posts[position]? =
        some { post with worker := post.worker.finish outcome } := by
      simp [setWorker, absorb, hpost]
    obtain ⟨acts, hturn⟩ := trace_proceed Worker.stepsPerTurn false hpostNext
      (cells_absorb hcell world)
    rw [stepWorker_finish] at hturn
    exact ⟨_, (hflush.next hends).append hturn⟩
  · rw [runFlush_of_ne hpost hphase]
    exact ⟨[], .start⟩

theorem trace_proceed_flush (steps : Nat) (timeIsUp : Bool)
    (hpost : now.posts[position]? = some post) (hcell : now.cells[post.store]? = some cell) :
    ∃ acts, Trace Step now acts
      ((now.stepWorker position post (Worker.proceed steps timeIsUp)).runFlush position) := by
  obtain ⟨acts, hsteps⟩ := trace_proceed steps timeIsUp hpost hcell
  obtain ⟨later, hlater, hbecomes⟩ := (extends_of_trace hsteps).cell hcell
  obtain ⟨others, hflush⟩ := trace_runFlush
    (post_stepWorker (Worker.proceed steps timeIsUp) hpost) hlater
  exact ⟨acts ++ others, hsteps.append hflush⟩

theorem Sound.trace_turn (h : now.Sound) (position : Nat) :
    ∃ acts, Trace Step now acts (now.turn position) := by
  rw [turn]
  cases hpost : now.posts[position]? with
  | none => exact ⟨[], .start⟩
  | some post =>
      obtain ⟨cell, hcell, -⟩ := h.background hpost
      exact trace_proceed_flush Worker.stepsPerTurn false hpost hcell

theorem Sound.trace_turns (h : now.Sound) (positions : List Nat) :
    ∃ acts, Trace Step now acts (positions.foldl turn now) := by
  induction positions generalizing now with
  | nil => exact ⟨[], .start⟩
  | cons position rest ih =>
      obtain ⟨acts, hfirst⟩ := h.trace_turn position
      obtain ⟨others, hrest⟩ := ih (sound_of_trace hfirst h)
      exact ⟨acts ++ others, hfirst.append hrest⟩

theorem Sound.trace_settle (h : now.Sound) : ∃ acts, Trace Step now acts now.settle :=
  h.trace_turns _

end SnapshotStore.Estate
