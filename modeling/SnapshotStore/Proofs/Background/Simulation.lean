import SnapshotStore.Proofs.Background.System
import SnapshotStore.Proofs.Threads.Lock

namespace SnapshotStore

open Nudge (Channel)

variable {K V S σ α : Type}

namespace Threads

variable {setting : Setting K V S σ} {path : Path} {start threads : Threads K V S σ α}
  {moves : List (Move K V S)} {position : Nat}

theorem Run.serve_call (h : Run setting start moves threads) {request : Request K V}
    {next : request.Response → Routine K V (World S σ) α}
    (hcall : threads.routines[position]? = some (.call request next))
    (hblocked : request.isBlocked threads.world = false) :
    Run setting start (moves ++ [threads.world.move setting position request])
      ⟨threads.routines.set position (next (threads.world.serve setting request).1),
        (threads.world.serve setting request).2⟩ := by
  refine h.serve hcall ?_
  simp [step?, hcall, hblocked]

theorem Run.beside_aside (h : Run setting start moves threads) {β : Type}
    {act : World S σ → β × World S σ} {next : β → Routine K V (World S σ) α}
    (haside : threads.routines[position]? = some (.aside act next))
    (huntouched : threads.world.Untouched (act threads.world).2) :
    Run setting start moves
      ⟨threads.routines.set position (next (act threads.world).1), (act threads.world).2⟩ := by
  refine h.beside haside ?_ huntouched
  simp [step?, haside]

variable {more : Routine K V (World S σ) α}

-- What a thread has to do if the one at a position has more to do at the end.
def continued (position : Nat) (more : Routine K V (World S σ) α) (thread : Nat)
    (routine : Routine K V (World S σ) α) : Routine K V (World S σ) α :=
  if position = thread then routine >>= fun _ => more else routine

theorem continued_call {thread : Nat} {request : Request K V}
    (next : request.Response → Routine K V (World S σ) α) :
    continued position more thread (.call request next) =
      .call request fun response => continued position more thread (next response) := by
  unfold continued
  split <;> rfl

theorem continued_aside {β : Type} {thread : Nat} {act : World S σ → β × World S σ}
    (next : β → Routine K V (World S σ) α) :
    continued position more thread (.aside act next) =
      .aside act fun answer => continued position more thread (next answer) := by
  unfold continued
  split <;> rfl

def extend (position : Nat) (more : Routine K V (World S σ) α) (threads : Threads K V S σ α) :
    Threads K V S σ α :=
  ⟨threads.routines.mapIdx (continued position more), threads.world⟩

theorem extend_routine (position : Nat) (more : Routine K V (World S σ) α) {thread : Nat}
    {routine : Routine K V (World S σ) α} (h : threads.routines[thread]? = some routine) :
    (threads.extend position more).routines[thread]? =
      some (continued position more thread routine) := by
  rw [extend, List.getElem?_mapIdx, h]
  rfl

theorem extend_set (thread : Nat) (routine : Routine K V (World S σ) α) (world : World S σ) :
    extend position more ⟨threads.routines.set thread routine, world⟩ =
      ⟨(threads.extend position more).routines.set thread
        (continued position more thread routine), world⟩ :=
  congrArg (Threads.mk · world) List.mapIdx_set

theorem Run.extend (h : Run setting start moves threads) :
    Run setting (start.extend position more) moves (threads.extend position more) := by
  induction h with
  | start => exact .start
  | @serve moves threads after thread request next _ hcall hstep ih =>
      obtain ⟨hblocked, hroutines, hworld⟩ := step?_call hcall hstep
      have hcall := extend_routine position more hcall
      rw [continued_call] at hcall
      have hserve := ih.serve_call hcall hblocked
      obtain ⟨routines, world⟩ := after
      dsimp only at hroutines hworld
      rw [hroutines, hworld, extend_set]
      exact hserve
  | @beside β moves threads after thread act next _ haside hstep huntouched ih =>
      obtain ⟨hroutines, hworld⟩ := step?_aside haside hstep
      have haside := extend_routine position more haside
      rw [continued_aside] at haside
      have hbeside := ih.beside_aside haside (hworld ▸ huntouched)
      obtain ⟨routines, world⟩ := after
      dsimp only at hroutines hworld
      rw [hroutines, hworld, extend_set]
      exact hbeside

theorem Keep.extend (h : start.Keep setting path)
    (hmore : more.Stays setting.backend.segments path) :
    (start.extend position more).Keep setting path := by
  intro routine hroutine
  obtain ⟨i, hi, rfl⟩ := List.mem_mapIdx.mp hroutine
  have hstays := h _ (List.getElem_mem hi)
  unfold continued
  split
  · exact Routine.returns_bind hstays fun _ => hmore
  · exact hstays

theorem extend_of_done {answer : α} (h : threads.routines[position]? = some (.done answer)) :
    threads.extend position more = ⟨threads.routines.set position more, threads.world⟩ := by
  have hroutines : threads.routines.mapIdx (continued position more) =
      threads.routines.set position more := by
    apply List.ext_getElem?
    intro i
    rw [List.getElem?_mapIdx]
    by_cases hi : position = i
    · subst hi
      rw [List.getElem?_set_self (List.getElem?_eq_some_iff.mp h).1, h]
      exact congrArg some (if_pos rfl)
    · rw [List.getElem?_set_ne hi]
      have hsame : continued position more i = id := funext fun _ => if_neg hi
      rw [hsame, Option.map_id_fun, id]
  rw [extend, hroutines]

-- What a run of threads that keep to the order of saves can have come to, with these moves.
def Arises (setting : Setting K V S σ) (path : Path) (first : World S σ)
    (moves : List (Move K V S)) (threads : Threads K V S σ α) : Prop :=
  ∃ start : Threads K V S σ α, start.Keep setting path ∧ start.world = first ∧
    Run setting start moves threads

namespace Arises

variable {first : World S σ}

theorem serve (h : Arises setting path first moves threads) {request : Request K V}
    {next : request.Response → Routine K V (World S σ) α}
    (hcall : threads.routines[position]? = some (.call request next))
    (hblocked : request.isBlocked threads.world = false) :
    Arises setting path first (moves ++ [threads.world.move setting position request])
      ⟨threads.routines.set position (next (threads.world.serve setting request).1),
        (threads.world.serve setting request).2⟩ := by
  obtain ⟨start, hkeep, hfirst, hrun⟩ := h
  exact ⟨start, hkeep, hfirst, hrun.serve_call hcall hblocked⟩

theorem beside (h : Arises setting path first moves threads) {β : Type}
    {act : World S σ → β × World S σ} {next : β → Routine K V (World S σ) α}
    (haside : threads.routines[position]? = some (.aside act next))
    (huntouched : threads.world.Untouched (act threads.world).2) :
    Arises setting path first moves
      ⟨threads.routines.set position (next (act threads.world).1), (act threads.world).2⟩ := by
  obtain ⟨start, hkeep, hfirst, hrun⟩ := h
  exact ⟨start, hkeep, hfirst, hrun.beside_aside haside huntouched⟩

-- A thread that is done can just as well have had more to do.
theorem extend (h : Arises setting path first moves threads) {answer : α}
    (hdone : threads.routines[position]? = some (.done answer))
    {more : Routine K V (World S σ) α} (hmore : more.Stays setting.backend.segments path) :
    Arises setting path first moves ⟨threads.routines.set position more, threads.world⟩ := by
  obtain ⟨start, hkeep, hfirst, hrun⟩ := h
  exact ⟨start.extend position more, hkeep.extend hmore, hfirst,
    extend_of_done hdone ▸ hrun.extend⟩

-- So it can also have changed what is around the store.
theorem change (h : Arises setting path first moves threads) {answer : α}
    (hdone : threads.routines[position]? = some (.done answer)) {world : World S σ}
    (huntouched : threads.world.Untouched world) :
    Arises setting path first moves ⟨threads.routines, world⟩ := by
  obtain ⟨hlt, hanswer⟩ := List.getElem?_eq_some_iff.mp hdone
  let act : Routine K V (World S σ) α := .aside (fun _ => ((), world)) fun _ => .done answer
  have hextended : Arises setting path first moves
      ⟨threads.routines.set position act, threads.world⟩ :=
    h.extend hdone ⟨rfl, fun _ => rfl⟩
  have hchanged := hextended.beside (List.getElem?_set_self hlt) huntouched
  rwa [List.set_set, ← hanswer, List.set_getElem_self hlt] at hchanged

end Arises

end Threads

namespace Staffed

variable [Inhabited α] {store : Store K V S σ} {first : World S σ} {moves : List (Move K V S)}
  {now after : Staffed K V S σ α} {deed : Deed K V S}

-- The worker's flush as the routine of a thread, whose answer is of no interest.
def errand (now : Staffed K V S σ α) : Routine K V (World S σ) α :=
  (fun _ => default) <$> now.flush

-- All the threads. The last one has nothing to do but to change the channel.
def shadow (now : Staffed K V S σ α) : Threads K V S σ α :=
  ⟨now.routines ++ [now.errand, .done default], now.world⟩

theorem errand_done {outcome : Except Failure Unit} (h : now.flush = .done outcome) :
    now.errand = .done default := by
  rw [errand, h]
  rfl

theorem shadow_thread {thread : Nat} {routine : Routine K V (World S σ) α}
    (h : now.routines[thread]? = some routine) : now.shadow.routines[thread]? = some routine := by
  have hlt : thread < now.routines.length := (List.getElem?_eq_some_iff.mp h).1
  rwa [shadow, List.getElem?_append_left hlt]

theorem shadow_worker : now.shadow.routines[now.routines.length]? = some now.errand := by
  simp [shadow]

theorem shadow_last : now.shadow.routines[now.routines.length + 1]? = some (.done default) := by
  simp [shadow]

structure Sound (store : Store K V S σ) (first : World S σ) (moves : List (Move K V S))
    (now : Staffed K V S σ α) : Prop where
  arises : Threads.Arises store.setting store.path first moves now.shadow
  idle : now.worker.phase ≠ .flushing → ∃ outcome, now.flush = .done outcome
  waiting : now.world.channel.receiverWaiting = true → now.worker.phase = .waiting

namespace Sound

theorem serve (h : Sound store first moves now) {thread : Nat} {request : Request K V}
    {next : request.Response → Routine K V (World S σ) α} {threads : Threads K V S σ α}
    (hcall : now.routines[thread]? = some (.call request next))
    (hstep : now.toThreads.step? store.setting thread = some threads) :
    Sound store first (moves ++ [now.world.move store.setting thread request])
      { now with toThreads := threads } := by
  obtain ⟨hblocked, hroutines, hworld⟩ := Threads.step?_call hcall hstep
  obtain ⟨routines, world⟩ := threads
  dsimp only at hroutines hworld
  subst hroutines hworld
  have hlt : thread < now.routines.length := (List.getElem?_eq_some_iff.mp hcall).1
  obtain ⟨accepted, hchannel⟩ := World.serve_channel store.setting request now.world
  refine ⟨?_, h.idle, ?_⟩
  · have harises := h.arises.serve (shadow_thread hcall) hblocked
    rw [shadow, List.set_append_left _ _ hlt] at harises
    exact harises
  · dsimp only
    rw [hchannel]
    exact h.waiting

theorem beside (h : Sound store first moves now) {β : Type} {thread : Nat}
    {act : World S σ → β × World S σ} {next : β → Routine K V (World S σ) α}
    {threads : Threads K V S σ α} (haside : now.routines[thread]? = some (.aside act next))
    (hstep : now.toThreads.step? store.setting thread = some threads)
    (huntouched : now.world.Untouched threads.world)
    (hchannel : threads.world.channel = now.world.channel) :
    Sound store first moves { now with toThreads := threads } := by
  obtain ⟨hroutines, hworld⟩ := Threads.step?_aside haside hstep
  obtain ⟨routines, world⟩ := threads
  dsimp only at hroutines hworld huntouched hchannel
  subst hroutines hworld
  have hlt : thread < now.routines.length := (List.getElem?_eq_some_iff.mp haside).1
  refine ⟨?_, h.idle, ?_⟩
  · have harises := h.arises.beside (shadow_thread haside) huntouched
    rw [shadow, List.set_append_left _ _ hlt] at harises
    exact harises
  · dsimp only
    rw [hchannel]
    exact h.waiting

-- The worker may be elsewhere afterwards, but in a flush only if it has been in one before.
theorem turn (h : Sound store first moves now) {worker : Worker} {channel : Channel}
    (hidle : worker.phase ≠ .flushing → now.worker.phase ≠ .flushing)
    (hwaiting : channel.receiverWaiting = true → worker.phase = .waiting) :
    Sound store first moves { now.setChannel channel with worker := worker } := by
  refine ⟨?_, fun hphase => h.idle (hidle hphase), hwaiting⟩
  exact h.arises.change shadow_last ⟨rfl, rfl, rfl⟩

theorem thread {sign : Worker.Sign} {worker : Worker} {channel : Channel}
    (h : Sound store first moves now)
    (hmoves : Worker.Moves now.worker now.world.channel sign worker channel)
    (hidle : now.worker.phase ≠ .flushing) :
    Sound store first moves { now.setChannel channel with worker := worker } := by
  refine h.turn (fun _ => hidle) ?_
  have hwaiting := h.waiting
  cases hmoves with
  | waits _ _ => exact fun _ => rfl
  | wakes _ =>
      rw [Channel.finishReceive_snd]
      exact fun hfalse => by cases hfalse
  | _ => simp_all

theorem begins (h : Sound store first moves now) (hphase : now.worker.phase = .resolved) :
    Sound store first moves
      { now with worker := { now.worker with phase := .flushing }, flush := store.flush.run } := by
  obtain ⟨outcome, hdone⟩ := h.idle (by simp [hphase])
  have hstays : ((fun _ => default) <$> store.flush.run : Routine K V (World S σ) α).Stays
      store.backend.segments store.path :=
    (Routine.obeys_map _ _).mpr store.keeps_flush
  refine ⟨?_, fun hidle => absurd rfl hidle, fun hwaiting => ?_⟩
  · have harises := h.arises.extend (errand_done hdone ▸ shadow_worker) hstays
    rw [shadow, List.set_append_right _ _ (Nat.le_refl _), Nat.sub_self] at harises
    exact harises
  · simp [h.waiting hwaiting] at hphase

theorem asks (h : Sound store first moves now) {request : Request K V}
    {next : request.Response → Routine K V (World S σ) (Except Failure Unit)}
    (hflushing : now.worker.phase = .flushing) (hcall : now.flush = .call request next)
    (hblocked : request.isBlocked now.world = false) :
    Sound store first
      (moves ++ [now.world.move store.setting now.routines.length request])
      { now with
        world := (now.world.serve store.setting request).2
        flush := next (now.world.serve store.setting request).1 } := by
  have herrand : now.errand =
      .call request fun response => (fun _ => default) <$> next response := by
    rw [errand, hcall]
    rfl
  obtain ⟨accepted, hchannel⟩ := World.serve_channel store.setting request now.world
  refine ⟨?_, fun hidle => absurd hflushing hidle, fun hwaiting => ?_⟩
  · have harises := h.arises.serve (herrand ▸ shadow_worker) hblocked
    rw [shadow, List.set_append_right _ _ (Nat.le_refl _), Nat.sub_self] at harises
    exact harises
  · rw [hchannel] at hwaiting
    exact h.waiting hwaiting

theorem ends (h : Sound store first moves now) {outcome : Except Failure Unit}
    (hflushing : now.worker.phase = .flushing) (hdone : now.flush = .done outcome) :
    Sound store first moves { now with worker := now.worker.finish outcome } := by
  refine ⟨h.arises, fun _ => ⟨outcome, hdone⟩, fun hwaiting => ?_⟩
  simp [h.waiting hwaiting] at hflushing

variable {deeds : List (Deed K V S)}

theorem works (h : Sound store first (Deed.moves deeds) now)
    (hworks : now.Works store deed after) :
    Sound store first (Deed.moves (deeds ++ [deed])) after := by
  cases hworks with
  | moves hmoves hidle _ =>
      rw [Deed.moves_append_seen]
      exact h.thread hmoves hidle
  | begins hphase =>
      rw [Deed.moves_append_seen]
      exact h.begins hphase
  | asks hflushing hcall hblocked =>
      rw [Deed.moves_append_served]
      exact h.asks hflushing hcall hblocked
  | ends hflushing hdone =>
      rw [Deed.moves_append_seen]
      exact h.ends hflushing hdone

theorem step (h : Sound store first (Deed.moves deeds) now) (hstep : Step store now deed after) :
    Sound store first (Deed.moves (deeds ++ [deed])) after := by
  cases hstep with
  | serve hcall hstep =>
      rw [Deed.moves_append_served]
      exact h.serve hcall hstep
  | beside haside hstep huntouched hchannel =>
      rw [Deed.moves_append_seen]
      exact h.beside haside hstep huntouched hchannel
  | worker timeIsUp hstep => exact h.works (works_of_workerStep? hstep)
  | send =>
      rw [Deed.moves_append_seen, Channel.trySend_snd]
      exact h.turn id h.waiting
  | close =>
      rw [Deed.moves_append_seen]
      exact h.turn id h.waiting
  | requestStop =>
      rw [Deed.moves_append_seen]
      exact h.turn id h.waiting

end Sound

-- A worker that has just been made, and the threads at their first steps.
theorem sound_start {routines : List (Routine K V (World S σ) α)} {worker : Worker}
    (hkeep : ∀ routine ∈ routines, routine.Stays store.backend.segments store.path)
    (hchannel : first.channel = {}) :
    Sound store first [] ⟨⟨routines, first⟩, worker, .done (.ok ())⟩ := by
  refine ⟨⟨_, ?_, rfl, .start⟩, fun _ => ⟨.ok (), rfl⟩, by simp [hchannel]⟩
  intro routine hroutine
  rcases List.mem_append.mp hroutine with hmem | hmem
  · exact hkeep routine hmem
  · rw [errand_done rfl] at hmem
    have hdone : routine = .done default := by simpa using hmem
    exact hdone ▸ rfl

theorem sound {start : Staffed K V S σ α} {deeds : List (Deed K V S)}
    (hstart : Sound store first [] start) (h : Trace (Step store) start deeds now) :
    Sound store first (Deed.moves deeds) now := by
  induction h with
  | start => exact hstart
  | next _ hstep ih => exact ih.step hstep

end Staffed

end SnapshotStore
