import SnapshotStore.Proofs.Background.System
import SnapshotStore.Proofs.Store.Efforts

namespace SnapshotStore

variable {K V S σ β : Type}

namespace Deed

-- Whether the worker begins a flush.
def begins : Deed K V S → Bool
  | seen .flushBegan => true
  | _ => false

def flushes (deeds : List (Deed K V S)) : Nat :=
  deeds.countP begins

theorem flushes_append_served (deeds : List (Deed K V S)) (move : Move K V S) :
    flushes (deeds ++ [served move]) = flushes deeds := by
  rw [flushes, List.countP_append]
  rfl

theorem flushes_append_seen (deeds : List (Deed K V S)) {sign : Worker.Sign}
    (hsign : sign ≠ .flushBegan) : flushes (deeds ++ [seen sign]) = flushes deeds := by
  have hnone : begins (seen sign : Deed K V S) = false := by
    cases sign <;> first | rfl | exact absurd rfl hsign
  rw [flushes, List.countP_append, List.countP_singleton, hnone]
  rfl

theorem flushes_append_flushBegan (deeds : List (Deed K V S)) :
    flushes (deeds ++ [seen .flushBegan]) = flushes deeds + 1 := by
  rw [flushes, List.countP_append]
  rfl

end Deed

namespace Store

variable {store : Store K V S σ} {exchanges others : List (Exchange K V)}

theorem Courses.append {ω : Type} {commands more : List (Command K V ω β)}
    {outcomes later : List (Outcome K V β)} {efforts added : List Effort}
    (h : store.Courses commands exchanges outcomes efforts)
    (h' : store.Courses more others later added) :
    store.Courses (commands ++ more) (exchanges ++ others) (outcomes ++ later)
      (efforts ++ added) := by
  induction commands generalizing exchanges outcomes efforts with
  | nil =>
      cases h
      exact h'
  | cons command rest ih =>
      cases h with
      | cons hcourse hrest =>
          rw [List.append_assoc, List.append_assoc]
          exact .cons hcourse (ih hrest)

-- So many flushes, one after the other.
def Flushes (store : Store K V S σ) (β : Type) (n : Nat) (exchanges : List (Exchange K V)) : Prop :=
  ∃ outcomes efforts, store.Courses
    (List.replicate n (.flush : Command K V (World S σ) β)) exchanges outcomes efforts

theorem flushes_zero : store.Flushes β 0 [] :=
  ⟨[], [], .nil⟩

theorem Flushes.succ {n : Nat} {outcome : Except Failure Unit} (h : store.Flushes β n exchanges)
    (hflush : (store.flush : Action K V (World S σ) Unit).Yields others outcome)
    (hcalm : Calm others) : store.Flushes β (n + 1) (exchanges ++ others) := by
  obtain ⟨outcomes, efforts, hcourses⟩ := h
  obtain ⟨saved, hattempt, -⟩ := attempt_of_yields hflush hcalm
  have hlast : store.Courses [(.flush : Command K V (World S σ) β)] (others ++ []) _ _ :=
    .cons (.flush hattempt) .nil
  rw [List.append_nil] at hlast
  rw [Flushes, List.replicate_succ']
  exact ⟨_, _, hcourses.append hlast⟩

end Store

namespace Staffed

open Store (Calm)

variable {store : Store K V S σ} {first now after : Staffed K V S σ (List (Outcome K V β))}
  {deeds : List (Deed K V S)} {deed : Deed K V S}

-- What has come of the moves so far. The worker has begun so many flushes.
structure Underway (store : Store K V S σ) (first : Staffed K V S σ (List (Outcome K V β)))
    (moves : List (Move K V S)) (begun : Nat) (now : Staffed K V S σ (List (Outcome K V β))) :
    Prop where
  length : now.routines.length = first.routines.length
  movers : ∀ move ∈ moves, move.thread ≤ first.routines.length
  calm : ∀ thread, Calm (Move.own thread moves)
  follows : ∀ (thread : Nat) (rest : Routine K V (World S σ) (List (Outcome K V β))),
    now.routines[thread]? = some rest → ∃ routine, first.routines[thread]? = some routine ∧
      routine.Follows (Move.own thread moves) rest
  idle : now.worker.phase ≠ .flushing →
    store.Flushes β begun (Move.own first.routines.length moves)
  flushing : now.worker.phase = .flushing → ∃ n ended current, begun = n + 1 ∧
    Move.own first.routines.length moves = ended ++ current ∧
    store.Flushes β n ended ∧ store.flush.run.Follows current now.flush

namespace Underway

variable {moves : List (Move K V S)} {begun : Nat}

theorem start (hidle : first.worker.phase ≠ .flushing) : Underway store first [] 0 first where
  length := rfl
  movers _ hmem := absurd hmem List.not_mem_nil
  calm _ _ hmem := absurd hmem List.not_mem_nil
  follows _ rest hrest := ⟨rest, hrest, .start rest⟩
  idle _ := Store.flushes_zero
  flushing hflushing := absurd hflushing hidle

-- A step in which nothing is asked and no flush begins or ends.
theorem seen (h : Underway store first moves begun now) (hroutines : after.routines = now.routines)
    (hphase : after.worker.phase = .flushing ↔ now.worker.phase = .flushing)
    (hflush : after.flush = now.flush) : Underway store first moves begun after where
  length := hroutines ▸ h.length
  movers := h.movers
  calm := h.calm
  follows := hroutines ▸ h.follows
  idle hidle := h.idle (mt hphase.mpr hidle)
  flushing hflushing := hflush ▸ h.flushing (hphase.mp hflushing)

theorem beside (h : Underway store first moves begun now) {γ : Type} {thread : Nat}
    {act : World S σ → γ × World S σ}
    {next : γ → Routine K V (World S σ) (List (Outcome K V β))}
    {threads : Threads K V S σ (List (Outcome K V β))}
    (haside : now.routines[thread]? = some (.aside act next))
    (hstep : now.toThreads.step? store.setting thread = some threads) :
    Underway store first moves begun { now with toThreads := threads } := by
  obtain ⟨hroutines, -⟩ := Threads.step?_aside haside hstep
  have hlt : thread < now.routines.length := (List.getElem?_eq_some_iff.mp haside).1
  refine ⟨?_, h.movers, h.calm, fun other rest hrest => ?_, h.idle, h.flushing⟩
  · rw [← h.length, hroutines, List.length_set]
  · rw [hroutines] at hrest
    by_cases hother : thread = other
    · subst hother
      rw [List.getElem?_set_self hlt] at hrest
      obtain rfl := Option.some.inj hrest
      obtain ⟨routine, hroutine, hfollows⟩ := h.follows thread _ haside
      exact ⟨routine, hroutine, .aside _ hfollows⟩
    · rw [List.getElem?_set_ne hother] at hrest
      exact h.follows other rest hrest

theorem begins (h : Underway store first moves begun now) (hphase : now.worker.phase = .resolved) :
    Underway store first moves (begun + 1)
      { now with worker := { now.worker with phase := .flushing }, flush := store.flush.run } := by
  have hidle : now.worker.phase ≠ .flushing := by simp [hphase]
  refine ⟨h.length, h.movers, h.calm, h.follows, fun hidle => absurd rfl hidle, fun _ => ?_⟩
  exact ⟨begun, _, [], rfl, (List.append_nil _).symm, h.idle hidle, .start _⟩

theorem ends (h : Underway store first moves begun now) {outcome : Except Failure Unit}
    (hflushing : now.worker.phase = .flushing) (hdone : now.flush = .done outcome) :
    Underway store first moves begun { now with worker := now.worker.finish outcome } := by
  obtain ⟨n, ended, current, rfl, hown, hended, hfollows⟩ := h.flushing hflushing
  have hcalm := h.calm first.routines.length
  rw [hown] at hcalm
  rw [hdone] at hfollows
  refine ⟨h.length, h.movers, h.calm, h.follows, fun _ => ?_, fun hphase => ?_⟩
  · rw [hown]
    exact hended.succ hfollows (Store.calm_append.mp hcalm).2
  · simp [Worker.finish_phase] at hphase

section

variable (hlisteners : ∀ listener ∈ store.listeners, listener.NeverFails)

include hlisteners

theorem calm_move (hcalm : ∀ thread, Calm (Move.own thread moves)) (world : World S σ)
    (mover : Nat) (request : Request K V) (thread : Nat) :
    Calm (Move.own thread (moves ++ [world.move store.setting mover request])) := by
  rw [World.move]
  by_cases hmover : mover = thread
  · subst hmover
    rw [Threads.own_append_self]
    refine Store.calm_append.mpr ⟨hcalm mover, List.forall_mem_singleton.mpr ?_⟩
    exact Store.raises_serve world hlisteners request
  · rw [Threads.own_append_other hmover]
    exact hcalm thread

theorem serve (h : Underway store first moves begun now) {thread : Nat} {request : Request K V}
    {next : request.Response → Routine K V (World S σ) (List (Outcome K V β))}
    {threads : Threads K V S σ (List (Outcome K V β))}
    (hcall : now.routines[thread]? = some (.call request next))
    (hstep : now.toThreads.step? store.setting thread = some threads) :
    Underway store first (moves ++ [now.world.move store.setting thread request]) begun
      { now with toThreads := threads } := by
  obtain ⟨-, hroutines, -⟩ := Threads.step?_call hcall hstep
  have hlt : thread < now.routines.length := (List.getElem?_eq_some_iff.mp hcall).1
  have hworker : thread ≠ first.routines.length := Nat.ne_of_lt (h.length ▸ hlt)
  have hown : Move.own first.routines.length
      (moves ++ [now.world.move store.setting thread request]) =
      Move.own first.routines.length moves := Threads.own_append_other hworker _ _
  refine ⟨?_, List.forall_mem_append.mpr ⟨h.movers, ?_⟩,
    calm_move hlisteners h.calm now.world thread request, fun other rest hrest => ?_,
    hown ▸ h.idle, hown ▸ h.flushing⟩
  · rw [← h.length, hroutines, List.length_set]
  · exact List.forall_mem_singleton.mpr (h.length ▸ Nat.le_of_lt hlt)
  · rw [hroutines] at hrest
    rw [World.move]
    by_cases hother : thread = other
    · subst hother
      rw [List.getElem?_set_self hlt] at hrest
      obtain rfl := Option.some.inj hrest
      obtain ⟨routine, hroutine, hfollows⟩ := h.follows thread _ hcall
      rw [Threads.own_append_self]
      exact ⟨routine, hroutine, .call _ hfollows⟩
    · rw [List.getElem?_set_ne hother] at hrest
      rw [Threads.own_append_other hother]
      exact h.follows other rest hrest

theorem asks (h : Underway store first moves begun now) {request : Request K V}
    {next : request.Response → Routine K V (World S σ) (Except Failure Unit)}
    (hflushing : now.worker.phase = .flushing) (hcall : now.flush = .call request next) :
    Underway store first (moves ++ [now.world.move store.setting now.routines.length request])
      begun
      { now with
        world := (now.world.serve store.setting request).2
        flush := next (now.world.serve store.setting request).1 } := by
  refine ⟨h.length, List.forall_mem_append.mpr ⟨h.movers, ?_⟩,
    calm_move hlisteners h.calm now.world now.routines.length request,
    fun thread rest hrest => ?_, fun hidle => absurd hflushing hidle, fun _ => ?_⟩
  · exact List.forall_mem_singleton.mpr (Nat.le_of_eq h.length)
  · have hlt : thread < now.routines.length := (List.getElem?_eq_some_iff.mp hrest).1
    rw [World.move, Threads.own_append_other (Nat.ne_of_gt hlt)]
    exact h.follows thread rest hrest
  · obtain ⟨n, ended, current, hbegun, hown, hended, hfollows⟩ := h.flushing hflushing
    rw [hcall] at hfollows
    rw [World.move, h.length, Threads.own_append_self, hown, List.append_assoc]
    exact ⟨n, ended, _, hbegun, rfl, hended, .call _ hfollows⟩

theorem works (h : Underway store first (Deed.moves deeds) (Deed.flushes deeds) now)
    (hworks : now.Works store deed after) :
    Underway store first (Deed.moves (deeds ++ [deed])) (Deed.flushes (deeds ++ [deed])) after := by
  cases hworks with
  | @moves sign worker channel hmoves hidle hphase =>
      have hsign : sign ≠ .flushBegan := by
        rintro rfl
        cases hmoves
        exact hphase rfl
      rw [Deed.moves_append_seen, Deed.flushes_append_seen deeds hsign]
      exact h.seen rfl ⟨fun h => absurd h hphase, fun h => absurd h hidle⟩ rfl
  | begins hphase =>
      rw [Deed.moves_append_seen, Deed.flushes_append_flushBegan]
      exact h.begins hphase
  | asks hflushing hcall _ =>
      rw [Deed.moves_append_served, Deed.flushes_append_served]
      exact h.asks hlisteners hflushing hcall
  | ends hflushing hdone =>
      rw [Deed.moves_append_seen, Deed.flushes_append_seen deeds (by simp)]
      exact h.ends hflushing hdone

theorem step (h : Underway store first (Deed.moves deeds) (Deed.flushes deeds) now)
    (hstep : Step store now deed after) :
    Underway store first (Deed.moves (deeds ++ [deed])) (Deed.flushes (deeds ++ [deed])) after := by
  cases hstep with
  | serve hcall hstep =>
      rw [Deed.moves_append_served, Deed.flushes_append_served]
      exact h.serve hlisteners hcall hstep
  | beside haside hstep _ _ =>
      rw [Deed.moves_append_seen, Deed.flushes_append_seen deeds (by simp)]
      exact h.beside haside hstep
  | worker timeIsUp hstep => exact h.works hlisteners (works_of_workerStep? hstep)
  | send =>
      rw [Deed.moves_append_seen, Deed.flushes_append_seen deeds (by simp)]
      exact h.seen rfl Iff.rfl rfl
  | close =>
      rw [Deed.moves_append_seen, Deed.flushes_append_seen deeds (by simp)]
      exact h.seen rfl Iff.rfl rfl
  | requestStop =>
      rw [Deed.moves_append_seen, Deed.flushes_append_seen deeds (by simp)]
      exact h.seen rfl Iff.rfl rfl

end

end Underway

theorem underway (hlisteners : ∀ listener ∈ store.listeners, listener.NeverFails)
    (hidle : first.worker.phase ≠ .flushing) (h : Trace (Step store) first deeds now) :
    Underway store first (Deed.moves deeds) (Deed.flushes deeds) now := by
  induction h with
  | start => exact .start hidle
  | next _ hstep ih => exact ih.step hlisteners hstep

end Staffed

end SnapshotStore
