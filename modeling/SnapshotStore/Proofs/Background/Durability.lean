import SnapshotStore.Proofs.Background.Simulation
import SnapshotStore.Proofs.Store.Concurrent
import SnapshotStore.Proofs.Store.Flushing
import SnapshotStore.Proofs.Threads.Onset

namespace SnapshotStore

open Nudge (Channel)

variable {K V S σ α β : Type}

-- A save that has begun since a time has replaced the file.
def SavedSince (time : Nat) (moves : List (Move K V S)) : Prop :=
  ∃ save ∈ (Ledger.of moves).saves, time ≤ save.start

theorem SavedSince.append {time : Nat} {moves : List (Move K V S)} (h : SavedSince time moves)
    (later : List (Move K V S)) : SavedSince time (moves ++ later) := by
  obtain ⟨save, hsave, htime⟩ := h
  exact ⟨save, Ledger.mem_saves_append hsave later, htime⟩

-- What is left of a flush by a thread has begun since a time.
def FlushesSince (store : Store K V S σ) (time : Nat) (moves : List (Move K V S)) (thread : Nat)
    (flush : Routine K V (World S σ) (Except Failure Unit)) : Prop :=
  ∃ begun, time ≤ begun ∧ begun ≤ moves.length ∧
    Move.phase thread (moves.take begun) = .outside ∧
    store.flush.run.Follows (Move.own thread (moves.drop begun)) flush

namespace FlushesSince

variable {store : Store K V S σ} {time thread : Nat} {moves : List (Move K V S)}
  {flush : Routine K V (World S σ) (Except Failure Unit)}

theorem start (htime : time ≤ moves.length) (houtside : Move.phase thread moves = .outside) :
    FlushesSince store time moves thread store.flush.run := by
  refine ⟨moves.length, htime, Nat.le_refl _, ?_, ?_⟩
  · rwa [List.take_length]
  · rw [List.drop_length]
    exact .start _

theorem append_other (h : FlushesSince store time moves thread flush) {move : Move K V S}
    (hne : move.thread ≠ thread) : FlushesSince store time (moves ++ [move]) thread flush := by
  obtain ⟨begun, htime, hle, houtside, hfollows⟩ := h
  refine ⟨begun, htime, ?_, ?_, ?_⟩
  · rw [List.length_append]
    omega
  · rwa [List.take_append_of_le_length hle]
  · rwa [List.drop_append_of_le_length hle, Threads.own_append_other hne]

theorem append_self {request : Request K V}
    {next : request.Response → Routine K V (World S σ) (Except Failure Unit)}
    (h : FlushesSince store time moves thread (.call request next)) (response : request.Response)
    (map : S) :
    FlushesSince store time (moves ++ [⟨thread, ⟨request, response⟩, map⟩]) thread
      (next response) := by
  obtain ⟨begun, htime, hle, houtside, hfollows⟩ := h
  refine ⟨begun, htime, ?_, ?_, ?_⟩
  · rw [List.length_append]
    omega
  · rwa [List.take_append_of_le_length hle]
  · rw [List.drop_append_of_le_length hle, Threads.own_append_self]
    exact .call response hfollows

-- A flush in which nothing fails replaces the file.
theorem saved {setting : Setting K V S σ} {path : Path} {first : World S σ}
    {threads : Threads K V S σ α} {outcome : Except Failure Unit}
    (h : FlushesSince store time moves thread (.done outcome))
    (harises : Threads.Arises setting path first moves threads)
    (hworks : ∀ move ∈ moves.drop time, move.exchange.fails = false) :
    SavedSince time moves := by
  obtain ⟨begun, htime, -, houtside, hfollows⟩ := h
  obtain ⟨start, hkeep, -, hrun⟩ := harises
  have hnone : ∀ exchange ∈ Move.own thread (moves.drop begun), exchange.fails = false := by
    intro exchange hmem
    obtain ⟨move, hmove, rfl⟩ := List.mem_map.mp hmem
    exact hworks move (List.drop_subset_drop_left moves htime (List.mem_of_mem_filter hmove))
  obtain ⟨exchange, hmem, hrenames⟩ := Store.exists_renames_of_flush hfollows hnone
  obtain ⟨save, hsave, hstart⟩ := hrun.exists_save_since hkeep houtside hmem hrenames
  exact ⟨save, hsave, Nat.le_trans htime hstart⟩

end FlushesSince

namespace Staffed

variable {store : Store K V S σ} {first : World S σ} {moves : List (Move K V S)}
  {deeds : List (Deed K V S)} {deed : Deed K V S} {now after : Staffed K V S σ α} {time : Nat}

-- Nothing keeps the worker from going on.
def OnDuty (now : Staffed K V S σ α) : Prop :=
  now.world.channel.closed = false ∧ now.worker.stopRequested = false

-- What has come of a call since the time at which the worker got it.
structure Heeds (store : Store K V S σ) (time : Nat) (moves : List (Move K V S))
    (now : Staffed K V S σ α) : Prop where
  looking : now.worker.phase = .ready ∨ now.worker.phase = .entering → SavedSince time moves
  waiting : now.worker.phase = .waiting →
    now.world.channel.pending = true ∨ SavedSince time moves
  flushing : now.worker.phase = .flushing →
    FlushesSince store time moves now.routines.length now.flush
  goesOn : now.worker.phase ≠ .woken .closed ∧ now.worker.phase ≠ .exited

namespace Heeds

-- A step of others.
theorem others (h : Heeds store time moves now) {moves' : List (Move K V S)}
    (hworker : after.worker = now.worker) (hsaved : SavedSince time moves → SavedSince time moves')
    (hpending : now.world.channel.pending = true → after.world.channel.pending = true)
    (hflush : FlushesSince store time moves now.routines.length now.flush →
      FlushesSince store time moves' after.routines.length after.flush) :
    Heeds store time moves' after := by
  constructor
  · rw [hworker]
    exact fun hphase => hsaved (h.looking hphase)
  · rw [hworker]
    exact fun hphase => (h.waiting hphase).imp hpending hsaved
  · rw [hworker]
    exact fun hphase => hflush (h.flushing hphase)
  · rw [hworker]
    exact h.goesOn

theorem serve (h : Heeds store time moves now) {thread : Nat} {request : Request K V}
    {next : request.Response → Routine K V (World S σ) α} {threads : Threads K V S σ α}
    (hcall : now.routines[thread]? = some (.call request next))
    (hstep : now.toThreads.step? store.setting thread = some threads) :
    Heeds store time (moves ++ [now.world.move store.setting thread request])
      { now with toThreads := threads } := by
  obtain ⟨-, hroutines, hworld⟩ := Threads.step?_call hcall hstep
  obtain ⟨accepted, hchannel⟩ := World.serve_channel store.setting request now.world
  have hlt : thread < now.routines.length := (List.getElem?_eq_some_iff.mp hcall).1
  refine h.others rfl (fun hsaved => hsaved.append _) ?_ ?_
  · intro hpending
    dsimp only
    rw [hworld, hchannel, hpending, Bool.true_or]
  · intro hflush
    dsimp only
    rw [hroutines, List.length_set]
    exact hflush.append_other (Nat.ne_of_lt hlt)

theorem beside (h : Heeds store time moves now) {β : Type} {thread : Nat}
    {act : World S σ → β × World S σ} {next : β → Routine K V (World S σ) α}
    {threads : Threads K V S σ α} (haside : now.routines[thread]? = some (.aside act next))
    (hstep : now.toThreads.step? store.setting thread = some threads)
    (hchannel : threads.world.channel = now.world.channel) :
    Heeds store time moves { now with toThreads := threads } := by
  obtain ⟨hroutines, -⟩ := Threads.step?_aside haside hstep
  refine h.others rfl id ?_ ?_
  · dsimp only
    rw [hchannel]
    exact id
  · dsimp only
    rw [hroutines, List.length_set]
    exact id

-- By the worker's own steps a call is not lost before a flush has begun.
theorem thread {sign : Worker.Sign} {worker : Worker} {channel : Channel}
    (h : Heeds store time moves now)
    (hmoves : Worker.Moves now.worker now.world.channel sign worker channel)
    (hduty : now.OnDuty) (hphase : worker.phase ≠ .flushing) :
    Heeds store time moves { now.setChannel channel with worker := worker } := by
  obtain ⟨hopen, hstop⟩ := hduty
  cases hmoves with
  | goesOn hready _ => exact ⟨fun _ => h.looking (.inl hready), by simp, by simp, by simp⟩
  | leaves _ hleaves => simp [hstop] at hleaves
  | waits hentering _ =>
      exact ⟨by simp, fun _ => .inr (h.looking (.inr hentering)), by simp, by simp⟩
  | refused _ hclosed => simp [hopen] at hclosed
  | wakes _ =>
      have hstatus : now.world.channel.finishReceive.1 ≠ .closed := by
        rw [Channel.finishReceive_fst, hopen]
        cases now.world.channel.pending <;> simp
      exact ⟨by simp, by simp, by simp, by simp [hstatus]⟩
  | resolves _ _ _ => exact ⟨by simp, by simp, by simp, by simp⟩
  | quits hwoken hquits =>
      rcases hquits with rfl | hrequested
      · exact absurd hwoken h.goesOn.1
      · simp [hstop] at hrequested
  | flushes _ => exact absurd rfl hphase

theorem begins (htime : time ≤ moves.length)
    (houtside : Move.phase now.routines.length moves = .outside) :
    Heeds store time moves
      { now with worker := { now.worker with phase := .flushing }, flush := store.flush.run } :=
  ⟨by simp, by simp, fun _ => .start htime houtside, by simp⟩

theorem asks (h : Heeds store time moves now) {request : Request K V}
    {next : request.Response → Routine K V (World S σ) (Except Failure Unit)}
    (hflushing : now.worker.phase = .flushing) (hcall : now.flush = .call request next) :
    Heeds store time (moves ++ [now.world.move store.setting now.routines.length request])
      { now with
        world := (now.world.serve store.setting request).2
        flush := next (now.world.serve store.setting request).1 } := by
  have hflush := h.flushing hflushing
  rw [hcall] at hflush
  refine ⟨?_, ?_, fun _ => hflush.append_self _ _, h.goesOn⟩
  · simp [hflushing]
  · simp [hflushing]

theorem ends (hsaved : SavedSince time moves) (outcome : Except Failure Unit) :
    Heeds store time moves { now with worker := now.worker.finish outcome } := by
  have hready : (now.worker.finish outcome).phase = .ready := Worker.finish_phase outcome
  exact ⟨fun _ => hsaved, by simp [hready], by simp [hready], by simp [hready]⟩

end Heeds

-- No step puts an end to a close or to a request to stop.
theorem Works.onDuty (hworks : now.Works store deed after) (h : after.OnDuty) : now.OnDuty := by
  obtain ⟨hopen, hstop⟩ := h
  cases hworks with
  | moves hmoves _ _ =>
      obtain ⟨hrequested, hclosed⟩ := hmoves.keeps_flags
      exact ⟨hclosed ▸ hopen, hrequested ▸ hstop⟩
  | begins _ => exact ⟨hopen, hstop⟩
  | @asks request next _ _ _ =>
      obtain ⟨accepted, hchannel⟩ := World.serve_channel store.setting request now.world
      rw [hchannel] at hopen
      exact ⟨hopen, hstop⟩
  | ends _ _ =>
      rw [Worker.finish_stopRequested] at hstop
      exact ⟨hopen, hstop⟩

theorem Step.onDuty (hstep : Step store now deed after) (h : after.OnDuty) : now.OnDuty := by
  obtain ⟨hopen, hstop⟩ := h
  cases hstep with
  | @serve _ thread request next threads hcall hstep =>
      obtain ⟨-, -, hworld⟩ := Threads.step?_call hcall hstep
      obtain ⟨accepted, hchannel⟩ := World.serve_channel store.setting request now.world
      rw [hworld, hchannel] at hopen
      exact ⟨hopen, hstop⟩
  | beside _ _ _ hchannel => exact ⟨hchannel ▸ hopen, hstop⟩
  | worker timeIsUp hstep => exact (works_of_workerStep? hstep).onDuty ⟨hopen, hstop⟩
  | send =>
      rw [setChannel, Channel.trySend_snd] at hopen
      exact ⟨hopen, hstop⟩
  | close => cases hopen
  | requestStop => cases hstop

section

variable [Inhabited α]

-- Outside of a flush, the worker's thread is outside of saves.
theorem Sound.outside (h : Sound store first moves now) (hidle : now.worker.phase ≠ .flushing) :
    Move.phase now.routines.length moves = .outside := by
  obtain ⟨outcome, hdone⟩ := h.idle hidle
  obtain ⟨start, hkeep, -, hrun⟩ := h.arises
  obtain ⟨routine, hroutine, hfollows⟩ := hrun.follows shadow_worker
  have hends := hfollows.obeys (hkeep routine (List.mem_of_getElem? hroutine))
  rw [errand_done hdone] at hends
  exact hends

theorem Heeds.works (h : Heeds store time (Deed.moves deeds) now)
    (hsound : Sound store first (Deed.moves deeds) now) (hworks : now.Works store deed after)
    (htime : time ≤ (Deed.moves deeds).length) (hduty : after.OnDuty)
    (hsaves : ∀ move ∈ (Deed.moves deeds).drop time, move.exchange.fails = false) :
    Heeds store time (Deed.moves (deeds ++ [deed])) after := by
  have hbefore : now.OnDuty := hworks.onDuty hduty
  cases hworks with
  | moves hmoves _ hphase =>
      rw [Deed.moves_append_seen]
      exact h.thread hmoves hbefore hphase
  | begins hresolved =>
      rw [Deed.moves_append_seen]
      exact .begins htime (hsound.outside (by simp [hresolved]))
  | asks hflushing hcall _ =>
      rw [Deed.moves_append_served]
      exact h.asks hflushing hcall
  | @ends outcome hflushing hdone =>
      rw [Deed.moves_append_seen]
      have hflush := h.flushing hflushing
      rw [hdone] at hflush
      exact .ends (hflush.saved hsound.arises hsaves) outcome

theorem Heeds.step (h : Heeds store time (Deed.moves deeds) now)
    (hsound : Sound store first (Deed.moves deeds) now) (hstep : Step store now deed after)
    (htime : time ≤ (Deed.moves deeds).length) (hduty : after.OnDuty)
    (hsaves : ∀ move ∈ (Deed.moves deeds).drop time, move.exchange.fails = false) :
    Heeds store time (Deed.moves (deeds ++ [deed])) after := by
  cases hstep with
  | serve hcall hstep =>
      rw [Deed.moves_append_served]
      exact h.serve hcall hstep
  | beside haside hstep _ hchannel =>
      rw [Deed.moves_append_seen]
      exact h.beside haside hstep hchannel
  | worker timeIsUp hstep => exact h.works hsound (works_of_workerStep? hstep) htime hduty hsaves
  | send =>
      rw [Deed.moves_append_seen, Channel.trySend_snd]
      exact h.others rfl id (fun hpending => by simp [setChannel, hpending]) id
  | close => cases hduty.1
  | requestStop => cases hduty.2

-- A nudge is accepted only while the worker waits.
theorem Sound.waits (h : Sound store first moves now)
    (haccepted : now.world.channel.trySend.1 = true) :
    now.worker.phase = .waiting ∧ now.world.channel.trySend.2.pending = true := by
  refine ⟨h.waiting ?_, ?_⟩
  · rw [Channel.trySend_fst] at haccepted
    simp_all
  · rw [Channel.trySend_snd, haccepted, Bool.or_true]

theorem Sound.waits_of_served (h : Sound store first moves now) {thread : Nat}
    {request : Request K V}
    (hcalls : (Deed.served (now.world.move store.setting thread request)).calls = true) :
    now.worker.phase = .waiting ∧
      (now.world.serve store.setting request).2.channel.pending = true := by
  cases request with
  | nudge => exact h.waits hcalls
  | _ => cases hcalls

theorem Heeds.of_works (hsound : Sound store first moves now)
    (hworks : now.Works store deed after) (hcalls : deed.calls = true) (time : Nat)
    (later : List (Move K V S)) : Heeds store time later after := by
  cases hworks with
  | moves hmoves _ _ =>
      cases hmoves with
      | wakes _ =>
          have htimeout : now.world.channel.finishReceive.1 = .timeout := by
            simpa [Deed.calls] using hcalls
          exact ⟨by simp, by simp, by simp, by simp [htimeout]⟩
      | _ => cases hcalls
  | begins _ => cases hcalls
  | asks hflushing _ _ =>
      obtain ⟨hwaiting, -⟩ := hsound.waits_of_served hcalls
      simp [hwaiting] at hflushing
  | ends _ _ => cases hcalls

-- A call finds the worker in its wait, or wakes it.
theorem Heeds.of_calls (hsound : Sound store first moves now)
    (hstep : Step store now deed after) (hcalls : deed.calls = true) (time : Nat)
    (later : List (Move K V S)) : Heeds store time later after := by
  have hwaits : ∀ {next : Staffed K V S σ α}, next.worker.phase = .waiting →
      next.world.channel.pending = true → Heeds store time later next := by
    intro next hphase hpending
    exact ⟨by simp [hphase], fun _ => .inl hpending, by simp [hphase], by simp [hphase]⟩
  cases hstep with
  | serve hcall hstep =>
      obtain ⟨-, -, hworld⟩ := Threads.step?_call hcall hstep
      obtain ⟨hphase, hpending⟩ := hsound.waits_of_served hcalls
      exact hwaits hphase (hworld ▸ hpending)
  | beside => cases hcalls
  | worker timeIsUp hstep =>
      exact .of_works hsound (works_of_workerStep? hstep) hcalls time later
  | send =>
      obtain ⟨hphase, hpending⟩ := hsound.waits hcalls
      exact hwaits hphase hpending
  | close => cases hcalls
  | requestStop => cases hcalls

-- What has come of a call in the end.
theorem heeds {start called last : Staffed K V S σ α} {before later : List (Deed K V S)}
    (hstart : Sound store first [] start)
    (hbefore : Trace (Step store) start before now) (hcall : Step store now deed called)
    (hcalls : deed.calls = true) (hlater : Trace (Step store) called later last)
    (hduty : last.OnDuty) (hsaves : ∀ move ∈ Deed.moves later, move.exchange.fails = false) :
    Heeds store (Deed.moves (before ++ [deed])).length
      (Deed.moves (before ++ [deed] ++ later)) last := by
  have hcalled : Trace (Step store) start (before ++ [deed]) called := hbefore.next hcall
  induction hlater with
  | start => exact .of_calls (sound hstart hbefore) hcall hcalls _ _
  | @next later now after deed' hlater hstep ih =>
      have hfront : ∀ move ∈ Deed.moves later, move.exchange.fails = false := by
        rw [Deed.moves_append, List.forall_mem_append] at hsaves
        exact hsaves.1
      have hnow := ih (hstep.onDuty hduty) hfront
      rw [← List.append_assoc]
      refine hnow.step (sound hstart (hcalled.append hlater)) hstep ?_ hduty ?_
      · rw [Deed.moves_append _ later, List.length_append]
        exact Nat.le_add_right _ _
      · rwa [Deed.moves_append _ later, List.drop_left]

end

-- The save that has answered the call shows the present map if the map has not changed since.
theorem load_idle [DecidableEq K] (laws : store.backend.Laws)
    (hserializer : store.persistence.serializer.RoundTrips) (hvalid : laws.Valid first.map)
    (hclear : first.files.Clear store.path) (hreadable : first.files.Readable store.path)
    {start last : Staffed K V S σ (List (Outcome K V β))} (hstart : Sound store first [] start)
    {before later : List (Deed K V S)}
    (htrace : Trace (Step store) start (before ++ deed :: later) last) (hcalls : deed.calls = true)
    (hsame : ∀ move ∈ Deed.moves later, ∀ key,
      store.backend.get key move.map = store.backend.get key last.world.map)
    (hsaves : ∀ move ∈ Deed.moves later, move.exchange.fails = false) (hduty : last.OnDuty)
    (hwaiting : last.worker.phase = .waiting) (hpending : last.world.channel.pending = false) :
    ∃ entries, store.persistence.load last.world.files = .ok entries ∧
      entries.Perm (store.backend.snapshot last.world.map) := by
  obtain ⟨now, called, hbefore, hstep, hlater⟩ := htrace.exists_step
  rw [List.append_cons] at htrace
  have hheeds := heeds hstart hbefore hstep hcalls hlater hduty hsaves
  obtain ⟨save, hsave, hbegan⟩ := (hheeds.waiting hwaiting).resolve_left (by simp [hpending])
  obtain ⟨threads, hkeep, rfl, hrun⟩ := (sound hstart htrace).arises
  have hready : Threads.Ready laws threads := ⟨hkeep, hvalid, hclear, hreadable⟩
  have hsince : ∀ move ∈ (Deed.moves (before ++ [deed] ++ later)).drop save.start,
      move ∈ Deed.moves later := by
    intro move hmove
    rw [Deed.moves_append] at hmove
    have hmem := List.drop_subset_drop_left _ hbegan hmove
    rwa [List.drop_left] at hmem
  have hsettled := hrun.load_settled laws hserializer hready hsave fun move hmove =>
    hsame move (hsince move hmove)
  exact hsettled

end Staffed

-- A store that has just been opened with a worker, and threads that each run commands of their own
-- on it. Only a store whose policy is background has a worker.
def Opened.staffed? (opened : Opened K V S σ)
    (commands : List (List (Command K V (World S σ) β))) (world : World S σ) :
    Option (Staffed K V S σ (List (Outcome K V β))) :=
  opened.worker.map fun worker =>
    { toThreads := opened.store.threads commands world
      worker := worker }

theorem Opened.sound {opened : Opened K V S σ}
    {commands : List (List (Command K V (World S σ) β))} {world : World S σ}
    {start : Staffed K V S σ (List (Outcome K V β))}
    (h : opened.staffed? commands world = some start) (hchannel : world.channel = {}) :
    Staffed.Sound opened.store world [] start := by
  obtain ⟨worker, -, rfl⟩ := Option.map_eq_some_iff.mp h
  exact Staffed.sound_start (opened.store.keep_threads commands world) hchannel

-- At any time after any steps of the threads, of the worker's thread and of others, in any order.
-- Only the saves since the last nudge or the last end of the worker's time must not have failed.
theorem idle_worker_has_saved [DecidableEq K] {backend : Backend K V S} (laws : backend.Laws)
    {builder : Builder K V σ} {serializer : Bool → Serializer K V}
    (hserializer : (serializer builder.pretty).RoundTrips) {files : FileTree}
    (hclear : files.Clear builder.path) {opened : Opened K V S σ}
    (hopened : builder.build backend serializer files = .ok opened) {world : World S σ}
    (hfiles : world.files = files) (hmap : world.map = opened.map) (hchannel : world.channel = {})
    {commands : List (List (Command K V (World S σ) β))}
    {start last : Staffed K V S σ (List (Outcome K V β))}
    (hstart : opened.staffed? commands world = some start) {before later : List (Deed K V S)}
    {call : Deed K V S}
    (htrace : Trace (Staffed.Step opened.store) start (before ++ call :: later) last)
    -- a nudge that was accepted, or an end of the worker's time, since the last change of the map
    (hcalls : call.calls = true)
    (hsame : ∀ move ∈ Deed.moves later, ∀ key,
      backend.get key move.map = backend.get key last.world.map)
    (hsaves : ∀ move ∈ Deed.moves later, move.exchange.fails = false)
    -- the worker is idle
    (hopen : last.world.channel.closed = false) (hstop : last.worker.stopRequested = false)
    (hwaiting : last.worker.phase = .waiting) (hpending : last.world.channel.pending = false) :
    ∃ entries, opened.store.persistence.load last.world.files = .ok entries ∧
      entries.Perm (backend.snapshot last.world.map) := by
  have hsound := Opened.sound hstart hchannel
  obtain ⟨-, found, hload, hfill⟩ := Builder.build_eq_ok hopened
  obtain ⟨hstore, hentries, -⟩ := Builder.fill_eq_ok hfill
  obtain ⟨store, map, worker?⟩ := opened
  dsimp only at hstore hentries
  subst hstore hentries
  exact Staffed.load_idle laws hserializer (hmap ▸ laws.valid_load found) (hfiles ▸ hclear)
    (hfiles ▸ Persistence.readable_of_load hload) hsound htrace hcalls hsame hsaves ⟨hopen, hstop⟩
    hwaiting hpending

-- Two shards that are saved in the background.
def inBackground : Builder UInt8 UInt8 Unit :=
  { path := ⟨"db"⟩, policy := .background 1000 }

def inBackgroundOpened : Opened UInt8 UInt8 (Shards UInt8 UInt8 2 1) Unit :=
  ⟨{ Store.twoShards with policy := .background 1000, connected := true }, Store.oneEntry.map,
    some { interval := 1000, ownsChannel := false }⟩

-- Both threads change the map while the worker waits. The nudge of the second one ends the wait,
-- that of the first one comes during the flush and is refused.
def refusedLate : List Staffed.Turn :=
  [.worker false, .worker false, .thread 0, .thread 1, .thread 1, .worker false, .worker false,
    .worker false, .thread 0] ++ List.replicate 12 (.worker false)

def playRefusedLate := (inBackgroundOpened.staffed? Store.twoWriters Store.oneEntry).bind
  (Staffed.play inBackgroundOpened.store refusedLate)

theorem idle_worker_has_saved_refusedLate : ∃ deeds last,
    playRefusedLate = some (deeds, last) ∧
    last.worker.phase = .waiting ∧ last.world.channel.pending = false ∧
    last.world.files.look ⟨"db"⟩ = .ok (some (.file [0, 9, 2, 20, 1, 10])) ∧
    ∃ entries, inBackgroundOpened.store.persistence.load last.world.files = .ok entries ∧
      entries.Perm ((Backend.sharded 2 1 UInt8.toNat).snapshot last.world.map) := by
  obtain ⟨⟨deeds, last⟩, hplay⟩ : ∃ result, playRefusedLate = some result := ⟨_, rfl⟩
  have hidle : playRefusedLate.map (fun result =>
      (result.2.world.channel, result.2.worker.stopRequested, result.2.worker.phase)) =
      some (⟨true, false, false⟩, false, .waiting) := rfl
  have hlook : playRefusedLate.map (fun result => result.2.world.files.look ⟨"db"⟩) =
      some (.ok (some (.file [0, 9, 2, 20, 1, 10]))) := rfl
  have hcall : playRefusedLate.map (fun result => (result.1[4]?).map Deed.calls) =
      some (some true) := rfl
  have hmaps : playRefusedLate.map (fun result =>
      (Deed.moves (result.1.drop 5)).map Move.map) =
      playRefusedLate.map (fun result => List.replicate 10 result.2.world.map) := rfl
  have hworks : playRefusedLate.map (fun result =>
      (Deed.moves (result.1.drop 5)).all fun move => !move.exchange.fails) = some true := rfl
  rw [hplay] at hidle hlook hcall hmaps hworks
  obtain ⟨hchannel, hstop, hphase⟩ : last.world.channel = ⟨true, false, false⟩ ∧
      last.worker.stopRequested = false ∧ last.worker.phase = .waiting := by
    simpa using hidle
  have hsame : ∀ move ∈ Deed.moves (deeds.drop 5), move.map = last.world.map := by
    have hmaps : (Deed.moves (deeds.drop 5)).map Move.map = List.replicate 10 last.world.map :=
      Option.some.inj hmaps
    intro move hmove
    apply List.eq_of_mem_replicate (n := 10)
    exact hmaps ▸ List.mem_map_of_mem hmove
  have hsaves : ∀ move ∈ Deed.moves (deeds.drop 5), move.exchange.fails = false := by
    simpa using Option.some.inj hworks
  obtain ⟨call, hget, hcalls⟩ := Option.map_eq_some_iff.mp (Option.some.inj hcall)
  obtain ⟨start, hstart, hstory⟩ := Option.bind_eq_some_iff.mp hplay
  have htrace := Staffed.trace_of_play hstory
  have hsplit : deeds = deeds.take 4 ++ call :: deeds.drop 5 := by
    obtain ⟨hlt, rfl⟩ := List.getElem?_eq_some_iff.mp hget
    rw [← List.drop_eq_getElem_cons hlt, List.take_append_drop]
  rw [hsplit] at htrace
  have hclear : Store.oneEntry.files.Clear inBackground.path :=
    FileTree.clear_of_resolve ["db.json.tmp"] (.found ["db"] (.file [0, 9])) rfl
      (FileTree.isPlain_of_none rfl) rfl (by decide)
  have hopened : inBackground.build (.sharded 2 1 UInt8.toNat) (fun _ => .pairs)
      Store.oneEntry.files = .ok inBackgroundOpened := rfl
  refine ⟨deeds, last, hplay, hphase, by rw [hchannel], Option.some.inj hlook, ?_⟩
  exact idle_worker_has_saved (Backend.shardedLaws 2 1 UInt8.toNat) Serializer.roundTrips_pairs
    hclear hopened rfl rfl rfl hstart htrace hcalls (fun move hmove key => by rw [hsame move hmove])
    hsaves (by rw [hchannel]) hstop hphase (by rw [hchannel])

end SnapshotStore
