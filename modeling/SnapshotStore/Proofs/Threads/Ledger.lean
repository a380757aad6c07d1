import Mathlib.Data.List.Induction
import SnapshotStore.Proofs.Store.Saving
import SnapshotStore.Proofs.Threads.Run

namespace SnapshotStore

-- What a thread has done since it last took the lock.
structure Attempt (S : Type) where
  -- when it began to copy the map, or took the lock if it has not begun
  start : Nat
  -- the map as it was at each copy of a segment
  views : List S
  -- whether the temporary file is open, that is not yet renamed or removed
  writing : Bool

structure Save (S : Type) where
  thread : Nat
  start : Nat
  -- when the file was replaced, and the map at that time
  stop : Nat
  map : S
  views : List S

structure Ledger (S : Type) where
  clock : Nat
  attempts : Nat → Attempt S
  -- the latest one first
  saves : List (Save S)

variable {K V S σ : Type}

def Attempt.note (attempt : Attempt S) (clock : Nat) (move : Move K V S) : Attempt S :=
  match move.exchange with
  | ⟨.acquire, _⟩ => ⟨clock, [], false⟩
  | ⟨.copy _, _⟩ =>
    { attempt with
      start := if attempt.views.isEmpty then clock else attempt.start
      views := attempt.views ++ [move.map] }
  | ⟨.create _, .ok _⟩ => { attempt with writing := true }
  | ⟨.rename _ _, .ok _⟩ => { attempt with writing := false }
  | ⟨.discard _, _⟩ => { attempt with writing := false }
  | _ => attempt

namespace Ledger

def empty : Ledger S :=
  ⟨0, fun _ => ⟨0, [], false⟩, []⟩

def note (ledger : Ledger S) (move : Move K V S) : Ledger S :=
  let attempt := ledger.attempts move.thread
  { clock := ledger.clock + 1
    attempts := fun thread =>
      if thread = move.thread then attempt.note ledger.clock move else ledger.attempts thread
    saves :=
      if move.exchange.renames then
        ⟨move.thread, attempt.start, ledger.clock, move.map, attempt.views⟩ :: ledger.saves
      else ledger.saves }

def of (moves : List (Move K V S)) : Ledger S :=
  moves.foldl note empty

theorem of_append (moves : List (Move K V S)) (move : Move K V S) :
    of (moves ++ [move]) = (of moves).note move := by
  rw [of, List.foldl_append]
  rfl

theorem clock_of (moves : List (Move K V S)) : (of moves).clock = moves.length := by
  induction moves using List.reverseRecOn with
  | nil => rfl
  | append_singleton moves move ih =>
      rw [of_append, List.length_append, ← ih]
      rfl

theorem attempts_append_self (moves : List (Move K V S)) (move : Move K V S) :
    (of (moves ++ [move])).attempts move.thread =
      ((of moves).attempts move.thread).note moves.length move := by
  rw [of_append, ← clock_of]
  exact if_pos rfl

theorem attempts_append_other (moves : List (Move K V S)) {move : Move K V S} {thread : Nat}
    (hne : move.thread ≠ thread) :
    (of (moves ++ [move])).attempts thread = (of moves).attempts thread := by
  rw [of_append]
  exact if_neg (Ne.symm hne)

theorem saves_append_of_renames (moves : List (Move K V S)) (move : Move K V S)
    (h : move.exchange.renames = true) :
    (of (moves ++ [move])).saves =
      ⟨move.thread, ((of moves).attempts move.thread).start, moves.length, move.map,
        ((of moves).attempts move.thread).views⟩ :: (of moves).saves := by
  rw [of_append, ← clock_of]
  exact if_pos h

theorem saves_append (moves : List (Move K V S)) {move : Move K V S}
    (h : move.exchange.renames = false) : (of (moves ++ [move])).saves = (of moves).saves := by
  rw [of_append]
  exact if_neg (Bool.eq_false_iff.mp h)

theorem move_of_mem_saves {moves : List (Move K V S)} {save : Save S}
    (h : save ∈ (of moves).saves) :
    ∃ move ∈ moves, move.thread = save.thread ∧ move.map = save.map := by
  induction moves using List.reverseRecOn with
  | nil => cases h
  | append_singleton moves move ih =>
      have hbefore : save ∈ (of moves).saves →
          ∃ other ∈ moves ++ [move], other.thread = save.thread ∧ other.map = save.map := by
        intro hold
        obtain ⟨other, hmem, hfields⟩ := ih hold
        exact ⟨other, List.mem_append_left _ hmem, hfields⟩
      cases hrenames : move.exchange.renames with
      | false => exact hbefore (saves_append moves hrenames ▸ h)
      | true =>
          rw [saves_append_of_renames moves move hrenames, List.mem_cons] at h
          rcases h with rfl | hold
          · exact ⟨move, List.mem_append_right _ (List.mem_singleton_self move), rfl, rfl⟩
          · exact hbefore hold

end Ledger

-- The phase that a thread has come to by its own requests.
def Move.phase (thread : Nat) (moves : List (Move K V S)) : Store.Phase K V :=
  (own thread moves).foldl (fun phase exchange => phase.after exchange.request exchange.response)
    .outside

theorem Move.phase_append_self (moves : List (Move K V S)) (thread : Nat)
    (exchange : Exchange K V) (map : S) :
    phase thread (moves ++ [⟨thread, exchange, map⟩]) =
      (phase thread moves).after exchange.request exchange.response := by
  rw [phase, Threads.own_append_self, List.foldl_append]
  rfl

theorem Move.phase_append_other (moves : List (Move K V S)) {thread other : Nat}
    (hne : thread ≠ other) (exchange : Exchange K V) (map : S) :
    phase other (moves ++ [⟨thread, exchange, map⟩]) = phase other moves := by
  rw [phase, Threads.own_append_other hne]
  rfl

namespace World

theorem create_files (path : Path) (world : World S σ) :
    ∃ files, (world.create path).2 = { world with files := files } := by
  unfold create
  split
  · exact ⟨world.files, rfl⟩
  · split
    · exact ⟨_, rfl⟩
    · exact ⟨world.files, rfl⟩

theorem change_files (outcome : Except Errno FileTree) (world : World S σ) :
    ∃ files, (world.change outcome).2 = { world with files := files } := by
  cases outcome with
  | ok files => exact ⟨files, rfl⟩
  | error reason => exact ⟨world.files, rfl⟩

theorem append_files (location : Location) (bytes : Bytes) (world : World S σ) :
    ∃ files, (world.append location bytes).2 = { world with files := files } := by
  unfold append
  split
  · exact world.change_files _
  · exact world.change_files _

theorem rename_files (source target : Path) (world : World S σ) :
    ∃ files, (world.rename source target).2 = { world with files := files } := by
  unfold rename
  split
  · exact ⟨world.files, rfl⟩
  · exact world.change_files _

theorem notify_desk (setting : Setting K V S σ) (position : Nat) (event : Event K V)
    (world : World S σ) :
    ∃ desk, (world.notify setting position event).2 = { world with desk := desk } := by
  unfold notify
  split
  · exact ⟨_, rfl⟩
  · exact ⟨world.desk, rfl⟩

theorem wipe_map (setting : Setting K V S σ) (segment : Nat) (world : World S σ) :
    ∃ map, world.wipe setting segment = { world with map := map } := by
  unfold wipe
  split
  · exact ⟨_, rfl⟩
  · exact ⟨world.map, rfl⟩

-- The parts of a world. A request changes one of them at most.
inductive Part where
  | map
  | lock
  | files
  | desk
  | channel
  | nothing
  deriving DecidableEq

def partOf : Request K V → Part
  | .insert _ _ => .map
  | .remove _ => .map
  | .wipe _ => .map
  | .acquire => .lock
  | .release => .lock
  | .create _ => .files
  | .append _ _ => .files
  | .rename _ _ => .files
  | .discard _ => .files
  | .notify _ _ => .desk
  | .nudge => .channel
  | _ => .nothing

-- All that is not in one part of a world stays as it is.
structure SameBut (part : Part) (world after : World S σ) : Prop where
  map : part ≠ .map → after.map = world.map
  saving : part ≠ .lock → after.saving = world.saving
  desk : part ≠ .desk → after.desk = world.desk
  channel : part ≠ .channel → after.channel = world.channel

theorem SameBut.of_files {world after : World S σ}
    (h : ∃ files, after = { world with files := files }) : SameBut .files world after := by
  obtain ⟨files, rfl⟩ := h
  exact ⟨fun _ => rfl, fun _ => rfl, fun _ => rfl, fun _ => rfl⟩

variable (setting : Setting K V S σ) (request : Request K V) (world : World S σ)

theorem serve_sameBut : SameBut (partOf request) world (world.serve setting request).2 := by
  cases request with
  | wipe segment =>
      obtain ⟨map, hmap⟩ := world.wipe_map setting segment
      change SameBut .map world (world.wipe setting segment)
      rw [hmap]
      exact ⟨fun hpart => absurd rfl hpart, fun _ => rfl, fun _ => rfl, fun _ => rfl⟩
  | create path => exact .of_files (world.create_files path)
  | append location bytes => exact .of_files (world.append_files location bytes)
  | rename source target => exact .of_files (world.rename_files source target)
  | notify position event =>
      obtain ⟨desk, hdesk⟩ := world.notify_desk setting position event
      change SameBut .desk world (world.notify setting position event).2
      rw [hdesk]
      exact ⟨fun _ => rfl, fun _ => rfl, fun hpart => absurd rfl hpart, fun _ => rfl⟩
  | _ => constructor <;> intro hpart <;> first | rfl | exact absurd rfl hpart

theorem serve_map (h : Exchange.writes ⟨request, (world.serve setting request).1⟩ = false) :
    (world.serve setting request).2.map = world.map := by
  refine (world.serve_sameBut setting request).map fun hpart => ?_
  cases request <;> contradiction

theorem serve_saving (hacquire : request ≠ .acquire) (hrelease : request ≠ .release) :
    (world.serve setting request).2.saving = world.saving := by
  refine (world.serve_sameBut setting request).saving fun hpart => ?_
  cases request <;> contradiction

theorem serve_channel_of_ne (hnudge : request ≠ .nudge) :
    (world.serve setting request).2.channel = world.channel := by
  refine (world.serve_sameBut setting request).channel fun hpart => ?_
  cases request <;> contradiction

-- Serving a request does no more to the channel than a nudge does.
theorem serve_channel : ∃ accepted, (world.serve setting request).2.channel =
    { world.channel with pending := world.channel.pending || accepted } := by
  by_cases hnudge : request = .nudge
  · subst hnudge
    exact ⟨_, world.channel.trySend_snd⟩
  · exact ⟨false, by rw [serve_channel_of_ne setting request world hnudge, Bool.or_false]⟩

end World

end SnapshotStore
