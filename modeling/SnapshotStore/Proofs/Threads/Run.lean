import SnapshotStore.Proofs.Routine.Protocol
import SnapshotStore.Routine.Interleaving

namespace SnapshotStore

-- One request of one thread, and the map as it is afterwards.
structure Move (K V S : Type) where
  thread : Nat
  exchange : Exchange K V
  map : S

-- The requests of one thread.
def Move.own {K V S : Type} (thread : Nat) (moves : List (Move K V S)) : List (Exchange K V) :=
  (moves.filter fun move => move.thread = thread).map Move.exchange

-- Nothing has happened to the map, its lock or the files.
structure World.Untouched {S σ : Type} (before after : World S σ) : Prop where
  map : after.map = before.map
  saving : after.saving = before.saving
  files : after.files = before.files

-- The move by which a thread has its request served.
def World.move {K V S σ : Type} (setting : Setting K V S σ) (thread : Nat)
    (request : Request K V) (world : World S σ) : Move K V S :=
  ⟨thread, ⟨request, (world.serve setting request).1⟩, (world.serve setting request).2.map⟩

namespace Threads

variable {K V S σ α Φ : Type} {setting : Setting K V S σ}

-- The moves lead from some threads to others. What callbacks do beside the store touches neither
-- the store nor the files.
inductive Run (setting : Setting K V S σ) (start : Threads K V S σ α) :
    List (Move K V S) → Threads K V S σ α → Prop where
  | start : Run setting start [] start
  | serve {moves : List (Move K V S)} {threads after : Threads K V S σ α} {thread : Nat}
      {request : Request K V} {next : request.Response → Routine K V (World S σ) α} :
      Run setting start moves threads →
      threads.routines[thread]? = some (.call request next) →
      threads.step? setting thread = some after →
      Run setting start (moves ++ [threads.world.move setting thread request]) after
  | beside {β : Type} {moves : List (Move K V S)} {threads after : Threads K V S σ α}
      {thread : Nat} {act : World S σ → β × World S σ} {next : β → Routine K V (World S σ) α} :
      Run setting start moves threads →
      threads.routines[thread]? = some (.aside act next) →
      threads.step? setting thread = some after →
      threads.world.Untouched after.world →
      Run setting start moves after

variable {start threads after : Threads K V S σ α} {moves : List (Move K V S)}

theorem step?_call {thread : Nat} {request : Request K V}
    {next : request.Response → Routine K V (World S σ) α}
    (hcall : threads.routines[thread]? = some (.call request next))
    (h : threads.step? setting thread = some after) :
    request.isBlocked threads.world = false ∧
    after.routines = threads.routines.set thread
      (next (threads.world.serve setting request).1) ∧
    after.world = (threads.world.serve setting request).2 := by
  unfold step? at h
  rw [hcall] at h
  simp only at h
  split at h
  · cases h
  · rename_i hblocked
    obtain rfl := Option.some.inj h
    exact ⟨by simpa using hblocked, rfl, rfl⟩

theorem step?_aside {β : Type} {thread : Nat} {act : World S σ → β × World S σ}
    {next : β → Routine K V (World S σ) α}
    (haside : threads.routines[thread]? = some (.aside act next))
    (h : threads.step? setting thread = some after) :
    after.routines = threads.routines.set thread (next (act threads.world).1) ∧
    after.world = (act threads.world).2 := by
  unfold step? at h
  rw [haside] at h
  obtain rfl := Option.some.inj h
  exact ⟨rfl, rfl⟩

-- The moves that are made if the threads take their turns in a given order, each of them with a
-- request to make that need not wait.
def play (setting : Setting K V S σ) :
    List Nat → Threads K V S σ α → Option (List (Move K V S) × Threads K V S σ α)
  | [], threads => some ([], threads)
  | thread :: rest, threads =>
    match threads.routines[thread]?, threads.step? setting thread with
    | some (.call request _), some after =>
      (play setting rest after).map fun (moves, last) =>
        (threads.world.move setting thread request :: moves, last)
    | _, _ => none

theorem Run.play {before moves : List (Move K V S)} {threads last : Threads K V S σ α}
    {turns : List Nat} (h : Run setting start before threads)
    (hplay : threads.play setting turns = some (moves, last)) :
    Run setting start (before ++ moves) last := by
  induction turns generalizing before moves threads with
  | nil =>
      obtain ⟨rfl, rfl⟩ := Prod.mk.inj (Option.some.inj hplay)
      rwa [List.append_nil]
  | cons thread rest ih =>
      unfold Threads.play at hplay
      split at hplay
      · rename_i request next after hcall hstep
        obtain ⟨⟨moves, last⟩, hrest, hsame⟩ := Option.map_eq_some_iff.mp hplay
        obtain ⟨rfl, rfl⟩ := Prod.mk.inj hsame
        rw [List.append_cons]
        exact ih (.serve h hcall hstep) hrest
      · cases hplay

theorem own_append_self (thread : Nat) (exchange : Exchange K V) (map : S) :
    Move.own thread (moves ++ [⟨thread, exchange, map⟩]) = Move.own thread moves ++ [exchange] := by
  simp [Move.own]

theorem own_append_other {thread other : Nat} (hne : thread ≠ other) (exchange : Exchange K V)
    (map : S) : Move.own other (moves ++ [⟨thread, exchange, map⟩]) = Move.own other moves := by
  simp [Move.own, hne]

-- Each thread follows its own routine by its own requests.
theorem Run.follows (h : Run setting start moves threads) {thread : Nat}
    {rest : Routine K V (World S σ) α} (hrest : threads.routines[thread]? = some rest) :
    ∃ routine, start.routines[thread]? = some routine ∧
      routine.Follows (Move.own thread moves) rest := by
  induction h generalizing rest with
  | start => exact ⟨rest, hrest, .start rest⟩
  | @serve moves threads after mover request next _ hcall hstep ih =>
      obtain ⟨-, hroutines, -⟩ := step?_call hcall hstep
      rw [hroutines] at hrest
      by_cases hmover : mover = thread
      · subst hmover
        have hlt : mover < threads.routines.length := (List.getElem?_eq_some_iff.mp hcall).1
        rw [List.getElem?_set_self hlt] at hrest
        obtain rfl := Option.some.inj hrest
        obtain ⟨routine, hstart, hfollows⟩ := ih hcall
        refine ⟨routine, hstart, ?_⟩
        rw [World.move, own_append_self]
        exact .call _ hfollows
      · rw [List.getElem?_set_ne hmover] at hrest
        obtain ⟨routine, hstart, hfollows⟩ := ih hrest
        refine ⟨routine, hstart, ?_⟩
        rw [World.move, own_append_other hmover]
        exact hfollows
  | @beside β moves threads after mover act next _ haside hstep _ ih =>
      obtain ⟨hroutines, -⟩ := step?_aside haside hstep
      rw [hroutines] at hrest
      by_cases hmover : mover = thread
      · subst hmover
        have hlt : mover < threads.routines.length := (List.getElem?_eq_some_iff.mp haside).1
        rw [List.getElem?_set_self hlt] at hrest
        obtain rfl := Option.some.inj hrest
        obtain ⟨routine, hstart, hfollows⟩ := ih haside
        exact ⟨routine, hstart, .aside _ hfollows⟩
      · rw [List.getElem?_set_ne hmover] at hrest
        exact ih hrest

theorem Run.thread_lt (h : Run setting start moves threads) :
    threads.routines.length = start.routines.length ∧
      ∀ move ∈ moves, move.thread < start.routines.length := by
  induction h with
  | start => exact ⟨rfl, by simp⟩
  | @serve moves threads after mover request next _ hcall hstep ih =>
      obtain ⟨-, hroutines, -⟩ := step?_call hcall hstep
      obtain ⟨hlength, hall⟩ := ih
      refine ⟨by rw [hroutines, List.length_set, hlength], fun move hmove => ?_⟩
      rw [List.mem_append, List.mem_singleton] at hmove
      rcases hmove with hold | rfl
      · exact hall move hold
      · rw [← hlength]
        exact (List.getElem?_eq_some_iff.mp hcall).1
  | beside _ haside hstep _ ih =>
      obtain ⟨hroutines, -⟩ := step?_aside haside hstep
      exact ⟨by rw [hroutines, List.length_set, ih.1], ih.2⟩

-- To hold at every moment, something has to be preserved by each request that the protocol allows
-- to the thread that makes it, and by what happens beside the store.
theorem Run.invariant {protocol : Protocol K V Φ} {phase : Φ} {post : Φ → α → Prop}
    (hobeys : ∀ routine ∈ start.routines, routine.Obeys protocol post phase)
    {Inv : List (Move K V S) → World S σ → Prop} (hstart : Inv [] start.world)
    (hserve : ∀ moves (threads : Threads K V S σ α) thread request,
      Run setting start moves threads → Inv moves threads.world →
      request.isBlocked threads.world = false →
      protocol.Allows (protocol.along phase (Move.own thread moves)) request →
      Inv (moves ++ [threads.world.move setting thread request])
        (threads.world.serve setting request).2)
    (hbeside : ∀ moves before after, Inv moves before → World.Untouched before after →
      Inv moves after)
    (h : Run setting start moves threads) : Inv moves threads.world := by
  induction h with
  | start => exact hstart
  | @serve moves threads after thread request next hrun hcall hstep ih =>
      obtain ⟨hblocked, -, hworld⟩ := step?_call hcall hstep
      obtain ⟨routine, hroutine, hfollows⟩ := hrun.follows hcall
      have hrest := hfollows.obeys (hobeys routine (List.mem_of_getElem? hroutine))
      rw [hworld]
      exact hserve moves threads thread request hrun ih hblocked hrest.1
  | beside _ _ _ huntouched ih => exact hbeside _ _ _ ih huntouched

end Threads

end SnapshotStore
