import SnapshotStore.Proofs.Threads.Run
import SnapshotStore.Proofs.Trace
import SnapshotStore.Proofs.Worker.Steps
import SnapshotStore.Store.Flush

namespace SnapshotStore

open Nudge (Channel)

structure Staffed (K V S σ α : Type) extends Threads K V S σ α where
  worker : Worker
  -- what is left of the worker's last call of its flush function
  flush : Routine K V (World S σ) (Except Failure Unit) := .done (.ok ())

-- What happens in a step: a request is served, or something is seen of the worker or its channel.
inductive Deed (K V S : Type) where
  | served (move : Move K V S)
  | seen (sign : Worker.Sign)

namespace Deed

variable {K V S : Type}

def move? : Deed K V S → Option (Move K V S)
  | served move => some move
  | seen _ => none

def moves (deeds : List (Deed K V S)) : List (Move K V S) :=
  deeds.filterMap move?

theorem moves_append (first second : List (Deed K V S)) :
    moves (first ++ second) = moves first ++ moves second :=
  List.filterMap_append

@[simp]
theorem moves_append_served (deeds : List (Deed K V S)) (move : Move K V S) :
    moves (deeds ++ [served move]) = moves deeds ++ [move] :=
  moves_append deeds _

@[simp]
theorem moves_append_seen (deeds : List (Deed K V S)) (sign : Worker.Sign) :
    moves (deeds ++ [seen sign]) = moves deeds :=
  (moves_append deeds _).trans (List.append_nil _)

-- Whether a nudge has been accepted or the worker's time has run out.
def calls : Deed K V S → Bool
  | served ⟨_, ⟨.nudge, accepted⟩, _⟩ => accepted
  | seen (.sent accepted) => accepted
  | seen (.received status) => status = .timeout
  | _ => false

end Deed

namespace Staffed

variable {K V S σ α : Type}

def setChannel (now : Staffed K V S σ α) (channel : Channel) : Staffed K V S σ α :=
  { now with world := { now.world with channel := channel } }

-- A step of the worker's flush. The worker's place is behind those of the other threads.
def flushStep? (store : Store K V S σ) (now : Staffed K V S σ α) :
    Option (Deed K V S × Staffed K V S σ α) :=
  match now.flush with
  | .done outcome =>
    some (.seen (.flushEnded outcome.isOk), { now with worker := now.worker.finish outcome })
  | .call request next =>
    if request.isBlocked now.world then none
    else
      let (response, world) := now.world.serve store.setting request
      some (.served (now.world.move store.setting now.routines.length request),
        { now with world := world, flush := next response })
  | .aside _ _ => none

-- The next step of the worker's thread.
def workerStep? (store : Store K V S σ) (timeIsUp : Bool) (now : Staffed K V S σ α) :
    Option (Deed K V S × Staffed K V S σ α) :=
  if now.worker.phase = .flushing then now.flushStep? store
  else
    match now.worker.step? now.world.channel timeIsUp with
    | some (worker, channel) =>
      let flush := if worker.phase = .flushing then store.flush.run else now.flush
      some (.seen (now.worker.sign now.world.channel),
        { now.setChannel channel with worker := worker, flush := flush })
    | none => none

-- One step of one of the threads, of the worker's thread, or of others. What callbacks do beside
-- the store touches neither the store nor its channel. Those who nudge the worker without the
-- store, stop it or close its channel need no names, since a step of any of them may come at any
-- time.
inductive Step (store : Store K V S σ) :
    Staffed K V S σ α → Deed K V S → Staffed K V S σ α → Prop where
  | serve {now : Staffed K V S σ α} {thread : Nat} {request : Request K V}
      {next : request.Response → Routine K V (World S σ) α} {threads : Threads K V S σ α} :
      now.routines[thread]? = some (.call request next) →
      now.toThreads.step? store.setting thread = some threads →
      Step store now (.served (now.world.move store.setting thread request))
        { now with toThreads := threads }
  | beside {β : Type} {now : Staffed K V S σ α} {thread : Nat}
      {act : World S σ → β × World S σ} {next : β → Routine K V (World S σ) α}
      {threads : Threads K V S σ α} :
      now.routines[thread]? = some (.aside act next) →
      now.toThreads.step? store.setting thread = some threads →
      now.world.Untouched threads.world → threads.world.channel = now.world.channel →
      Step store now (.seen .unseen) { now with toThreads := threads }
  | worker {now after : Staffed K V S σ α} {deed : Deed K V S} (timeIsUp : Bool) :
      now.workerStep? store timeIsUp = some (deed, after) → Step store now deed after
  | send (now : Staffed K V S σ α) : Step store now (.seen (.sent now.world.channel.trySend.1))
      (now.setChannel now.world.channel.trySend.2)
  | close (now : Staffed K V S σ α) :
      Step store now (.seen .closed) (now.setChannel now.world.channel.close)
  | requestStop (now : Staffed K V S σ α) :
      Step store now (.seen .stopRequested) { now with worker := now.worker.requestStop }

-- The steps of the worker's thread, each with what it leads to.
inductive Works (store : Store K V S σ) (now : Staffed K V S σ α) :
    Deed K V S → Staffed K V S σ α → Prop where
  | moves {sign : Worker.Sign} {worker : Worker} {channel : Channel} :
      Worker.Moves now.worker now.world.channel sign worker channel →
      now.worker.phase ≠ .flushing → worker.phase ≠ .flushing →
      Works store now (.seen sign) { now.setChannel channel with worker := worker }
  | begins : now.worker.phase = .resolved →
      Works store now (.seen .flushBegan)
        { now with worker := { now.worker with phase := .flushing }, flush := store.flush.run }
  | asks {request : Request K V}
      {next : request.Response → Routine K V (World S σ) (Except Failure Unit)} :
      now.worker.phase = .flushing → now.flush = .call request next →
      request.isBlocked now.world = false →
      Works store now (.served (now.world.move store.setting now.routines.length request))
        { now with
          world := (now.world.serve store.setting request).2
          flush := next (now.world.serve store.setting request).1 }
  | ends {outcome : Except Failure Unit} : now.worker.phase = .flushing →
      now.flush = .done outcome →
      Works store now (.seen (.flushEnded outcome.isOk))
        { now with worker := now.worker.finish outcome }

variable {store : Store K V S σ} {now after : Staffed K V S σ α} {deed : Deed K V S}

theorem works_of_flushStep? (hflushing : now.worker.phase = .flushing)
    (h : now.flushStep? store = some (deed, after)) : Works store now deed after := by
  unfold flushStep? at h
  split at h
  · next outcome hdone =>
      obtain ⟨rfl, rfl⟩ := Prod.mk.inj (Option.some.inj h)
      exact .ends hflushing hdone
  · next request next hcall =>
      split at h
      · cases h
      · next hblocked =>
          obtain ⟨rfl, rfl⟩ := Prod.mk.inj (Option.some.inj h)
          exact .asks hflushing hcall (by simpa using hblocked)
  · cases h

theorem works_of_workerStep? {timeIsUp : Bool}
    (h : now.workerStep? store timeIsUp = some (deed, after)) : Works store now deed after := by
  unfold workerStep? at h
  split at h
  · next hflushing => exact works_of_flushStep? hflushing h
  · next hidle =>
      split at h
      · next worker channel hstep =>
          obtain ⟨rfl, rfl⟩ := Prod.mk.inj (Option.some.inj h)
          have hmoves := Worker.moves_of_step? hstep
          by_cases hbegins : worker.phase = .flushing
          · generalize now.worker.sign now.world.channel = sign at hmoves
            cases hmoves with
            | flushes hresolved => exact .begins hresolved
            | _ => simp_all
          · rw [if_neg hbegins]
            exact .moves hmoves hidle hbegins
      · cases h

-- Whose turn it is.
inductive Turn where
  | thread (position : Nat)
  | worker (timeIsUp : Bool)

def turn? (store : Store K V S σ) (now : Staffed K V S σ α) :
    Turn → Option (Deed K V S × Staffed K V S σ α)
  | .thread position =>
    match now.routines[position]?, now.toThreads.step? store.setting position with
    | some (.call request _), some threads =>
      some (.served (now.world.move store.setting position request),
        { now with toThreads := threads })
    | _, _ => none
  | .worker timeIsUp => now.workerStep? store timeIsUp

def play (store : Store K V S σ) :
    List Turn → Staffed K V S σ α → Option (List (Deed K V S) × Staffed K V S σ α)
  | [], now => some ([], now)
  | turn :: turns, now => do
    let (deed, after) ← now.turn? store turn
    let (deeds, last) ← after.play store turns
    return (deed :: deeds, last)

theorem step_of_turn? {turn : Turn} (h : now.turn? store turn = some (deed, after)) :
    Step store now deed after := by
  cases turn with
  | thread position =>
      simp only [turn?] at h
      split at h
      · next request next threads hcall hstep =>
          obtain ⟨rfl, rfl⟩ := Prod.mk.inj (Option.some.inj h)
          exact .serve hcall hstep
      · cases h
  | worker timeIsUp => exact .worker timeIsUp h

theorem trace_of_play {turns : List Turn} {deeds : List (Deed K V S)}
    {last : Staffed K V S σ α} (h : now.play store turns = some (deeds, last)) :
    Trace (Step store) now deeds last := by
  induction turns generalizing now deeds with
  | nil =>
      obtain ⟨rfl, rfl⟩ := Prod.mk.inj (Option.some.inj h)
      exact .start
  | cons turn turns ih =>
      obtain ⟨⟨deed, after⟩, hturn, h⟩ := Option.bind_eq_some_iff.mp h
      obtain ⟨⟨deeds, last⟩, hplay, h⟩ := Option.bind_eq_some_iff.mp h
      obtain ⟨rfl, rfl⟩ := Prod.mk.inj (Option.some.inj h)
      exact (Trace.start.next (step_of_turn? hturn)).append (ih hplay)

end Staffed

end SnapshotStore
