import SnapshotStore.Proofs.Backend.FiniteMap
import SnapshotStore.Proofs.Store.Tracking
import SnapshotStore.Proofs.Threads.Copies

namespace SnapshotStore

variable {K V S σ ω α : Type} {setting : Setting K V S σ}

section Alone

variable [DecidableEq K] {backend : Backend K V S} (laws : backend.Laws) {map : S}

theorem Backend.Laws.coe_keys_snapshot (hvalid : laws.Valid map) :
    {key | (backend.get key map).isSome} =
      (((backend.snapshot map).map Prod.fst).toFinset : Set K) := by
  ext key
  rw [Set.mem_ofPred_eq, Option.isSome_iff_exists, Finset.mem_coe, List.mem_toFinset, List.mem_map]
  constructor
  · rintro ⟨value, hget⟩
    exact ⟨(key, value), (laws.mem_snapshot hvalid key value).mpr hget, rfl⟩
  · rintro ⟨⟨key, value⟩, hmem, rfl⟩
    exact ⟨value, (laws.mem_snapshot hvalid key value).mp hmem⟩

theorem Backend.Laws.size_eq_ncard (hvalid : laws.Valid map) :
    {key | (backend.get key map).isSome}.Finite ∧
    backend.size map = {key | (backend.get key map).isSome}.ncard := by
  rw [laws.coe_keys_snapshot hvalid]
  refine ⟨Finset.finite_toSet _, ?_⟩
  rw [Set.ncard_coe_finset, List.toFinset_card_of_nodup (laws.nodup_snapshot hvalid),
    List.length_map, laws.size_eq hvalid]

theorem Backend.Laws.represents_clear (hvalid : laws.Valid map) :
    laws.Represents (backend.clear map) ∅ :=
  ⟨laws.valid_clear hvalid, fun key =>
    (Finmap.lookup_empty key).trans (laws.get_clear hvalid key).symm⟩

end Alone

namespace Memory

-- One request for each key of a copy.
theorem requests_of_removeAll {entries : List (K × V)} {exchanges : List (Exchange K V)}
    {answer : Unit} (h : (removeAll entries : Routine K V ω Unit).Yields exchanges answer) :
    exchanges.map Exchange.request = entries.map fun entry => .remove entry.1 := by
  induction entries generalizing exchanges with
  | nil =>
      obtain ⟨rfl, -⟩ := Routine.Yields.of_pure h
      rfl
  | cons entry rest ih =>
      obtain ⟨_, asked, others, rfl, hasked, hrest⟩ := h.of_bind
      obtain ⟨response, none, rfl, hnone⟩ := hasked.of_call
      obtain ⟨rfl, -⟩ := Routine.Yields.of_pure hnone
      exact congrArg (List.cons _) (ih hrest)

end Memory

theorem Move.exists_split_of_own {thread : Nat} {moves : List (Move K V S)}
    {first second : List (Exchange K V)} (h : Move.own thread moves = first ++ second) :
    ∃ front back, moves = front ++ back ∧ Move.own thread front = first ∧
      Move.own thread back = second := by
  obtain ⟨former, latter, hfilter, rfl, rfl⟩ := List.map_eq_append_iff.mp h
  obtain ⟨front, back, rfl, rfl, rfl⟩ := List.filter_eq_append_iff.mp hfilter
  exact ⟨front, back, rfl, rfl, rfl⟩

namespace Threads

variable {start threads : Threads K V S σ α} {before during : List (Move K V S)} {thread : Nat}

-- The thread clears the map by its requests among these moves.
def Clears (setting : Setting K V S σ) (thread : Nat) (during : List (Move K V S)) : Prop :=
  (Memory.clear setting.backend : Routine K V (World S σ) Unit).Yields (Move.own thread during) ()

-- First the map is copied, and then every key of the copy is removed.
theorem Clears.split (hclears : Clears setting thread during)
    (hbulk : setting.backend.bulk = none) :
    ∃ copying removing entries, during = copying ++ removing ∧
      Copies setting thread copying entries ∧
      ∀ entry ∈ entries, ∃ move ∈ removing, move.exchange.request = .remove entry.1 := by
  unfold Clears Memory.clear at hclears
  rw [hbulk] at hclears
  obtain ⟨entries, first, second, hown, hcopies, hremoves⟩ := Routine.Yields.of_bind hclears
  obtain ⟨copying, removing, rfl, rfl, rfl⟩ := Move.exists_split_of_own hown
  refine ⟨copying, removing, entries, rfl, hcopies, fun entry hentry => ?_⟩
  have hrequests := Memory.requests_of_removeAll hremoves
  have hmem : Request.remove entry.1 ∈ (Move.own thread removing).map Exchange.request :=
    hrequests ▸ List.mem_map.mpr ⟨entry, hentry, rfl⟩
  obtain ⟨exchange, hexchange, hrequest⟩ := List.mem_map.mp hmem
  obtain ⟨move, hmove, rfl⟩ := List.mem_map.mp hexchange
  exact ⟨move, (List.mem_filter.mp hmove).1, hrequest⟩

variable [DecidableEq K]

theorem Clears.origin (laws : setting.backend.Laws) (hbulk : setting.backend.bulk = none)
    (hstart : laws.Valid start.world.map) (h : Run setting start (before ++ during) threads)
    (hclears : Clears setting thread during) {key : K} {value : V}
    (hget : setting.backend.get key threads.world.map = some value) :
    ∃ (front : List (Move K V S)) (copied : Move K V S) (middle : List (Move K V S))
        (inserted : Move K V S) (rest : List (Move K V S)),
      during = front ++ copied :: (middle ++ inserted :: rest) ∧
      copied.thread = thread ∧ copied.exchange.request = .copy (laws.segmentOf key) ∧
      inserted.exchange.request = .insert key value ∧
      ∀ move ∈ rest, move.exchange.request.Spares key := by
  obtain ⟨copying, removing, entries, rfl, hcopies, hremoves⟩ := hclears.split hbulk
  rw [← List.append_assoc] at h
  obtain ⟨ended, hcopying, -⟩ := h.cut
  have hvalid := hcopying.allValid_of_lasting (Setting.lasting_of_bulk_eq_none laws hbulk) hstart
  obtain ⟨copied, hcopied, hthread, hrequest⟩ :=
    hcopies.exists_copied hcopying (laws.segmentOf_lt key)
  have hplaced : laws.Valid copied.map := hvalid.2 copied (List.mem_append_right _ hcopied)
  obtain ⟨front, tail, middle, rfl, htail, hmap⟩ := h.after_mem hcopied
  rcases htail.origin hbulk (hmap ▸ hplaced) hget with
    ⟨hbound, hspared⟩ | ⟨between, inserted, rest, hrest, hinserted, hspares⟩
  · -- The key was copied, so that it has been removed.
    rw [hmap] at hbound
    have hlisted : (key, value) ∈ entries :=
      (hcopies.mem_iff hcopying hvalid key value).mpr
        ⟨copied, hcopied, hthread, hrequest, hbound⟩
    obtain ⟨removed, hremoved, hremoves⟩ := hremoves _ hlisted
    have hspare := hspared removed (List.mem_append_right _ hremoved)
    rw [hremoves] at hspare
    exact absurd rfl hspare
  · refine ⟨front, copied, between, inserted, rest, ?_, hthread, hrequest, hinserted, hspares⟩
    rw [List.append_assoc, List.cons_append, hrest]

-- What a backend without quick ways does for the whole map. The others are any backends, quick or
-- not, and the threads may do whatever they like.
theorem basic_operations_suffice (laws : setting.backend.Laws)
    (hbulk : setting.backend.bulk = none) :
    let backend := setting.backend
    -- alone, it counts and tests the bound keys and leaves no binding behind
    (∀ world : World S σ, laws.Valid world.map →
      let bound := {key | (backend.get key world.map).isSome}
      bound.Finite ∧
      (Memory.size backend).run (World.serve setting) world = (bound.ncard, world) ∧
      (∀ key, ∃ answer, (Memory.contains backend key).run (World.serve setting) world =
        (answer, world) ∧ (answer = true ↔ key ∈ bound)) ∧
      ∃ cleared, (Memory.clear backend).run (World.serve setting) world =
          ((), { world with map := cleared }) ∧
        (∀ key, backend.get key cleared = none) ∧
        -- as any other backend that is cleared
        ∀ {S' : Type} (other : Backend K V S') (laws' : other.Laws) (map : S'), laws'.Valid map →
          (∀ key, other.get key (other.clear map) = backend.get key cleared) ∧
          ∀ calls, FiniteMap.AnswersAll ∅ calls (backend.serveAll cleared calls).1 ∧
            FiniteMap.AnswersAll ∅ calls (other.serveAll (other.clear map) calls).1) ∧
    -- among others, what is bound in the end has been set after the key's segment was copied, and
    -- has not been touched since
    (∀ (start threads : Threads K V S σ α) (before during : List (Move K V S)) (thread : Nat),
      laws.Valid start.world.map → Run setting start (before ++ during) threads →
      Clears setting thread during →
      ∀ key value, backend.get key threads.world.map = some value →
        ∃ (front : List (Move K V S)) (copied : Move K V S) (middle : List (Move K V S))
            (inserted : Move K V S) (rest : List (Move K V S)),
          during = front ++ copied :: (middle ++ inserted :: rest) ∧
          copied.thread = thread ∧ copied.exchange.request = .copy (laws.segmentOf key) ∧
          inserted.exchange.request = .insert key value ∧
          ∀ move ∈ rest, move.exchange.request.Spares key) := by
  intro backend
  constructor
  · intro world hvalid bound
    obtain ⟨hfinite, hsize⟩ := laws.size_eq_ncard hvalid
    have hcleared := laws.represents_clear hvalid
    refine ⟨hfinite, ?_, fun key => ?_, backend.clear world.map, ?_, ?_, ?_⟩
    · rw [Memory.run_size, hsize]
    · refine ⟨_, Memory.run_contains setting world key, ?_⟩
      rw [laws.contains_eq hvalid]
      rfl
    · exact Memory.run_clear setting world
    · exact fun key => laws.get_clear hvalid key
    · intro S' other laws' map hmap
      refine ⟨fun key => (laws'.get_clear hmap key).trans (laws.get_clear hvalid key).symm, ?_⟩
      intro calls
      exact ⟨hcleared.answersAll calls, (laws'.represents_clear hmap).answersAll calls⟩
  · intro start threads before during thread hvalid hrun hclears key value hget
    exact hclears.origin laws hbulk hvalid hrun hget

def plainPages : Store UInt8 UInt8 (Buckets UInt8 UInt8 5) Unit :=
  ⟨(Backend.locked 5 UInt8.toNat).withoutBulk, ⟨⟨"db"⟩, .pairs⟩, .callerDriven, false, false, []⟩

def cleanerAndWriter :
    Threads UInt8 UInt8 (Buckets UInt8 UInt8 5) Unit (List (Outcome UInt8 UInt8 Unit)) where
  routines :=
    [plainPages.performAll [.clear],
      plainPages.performAll [.insert 2 20, .insert 1 11, .insert 5 31]]
  world :=
    { files := default, channel := default, mishaps := fun _ => .none, desk := ()
      map := plainPages.backend.load [(5, 30), (1, 10)] }

-- One key is new, one is set again before it is removed, and one is set again after that.
theorem basic_operations_suffice_cleaner_and_writer : ∃ moves threads,
    cleanerAndWriter.play plainPages.setting [0, 1, 1, 0, 1, 0] = some (moves, threads) ∧
    moves.map (fun move => (move.thread, move.exchange.request)) =
      [(0, .copy 0), (1, .insert 2 20), (1, .insert 1 11), (0, .remove 5), (1, .insert 5 31),
        (0, .remove 1)] ∧
    [1, 2, 5].map (fun key => plainPages.backend.get key threads.world.map) =
      [none, some 20, some 31] ∧
    Clears plainPages.setting 0 moves ∧
    (∃ front copied middle inserted rest,
      moves = front ++ copied :: (middle ++ inserted :: rest) ∧
      copied.exchange.request = .copy 0 ∧ inserted.exchange.request = .insert 5 31) := by
  obtain ⟨⟨moves, threads⟩, hplay⟩ : ∃ last,
      cleanerAndWriter.play plainPages.setting [0, 1, 1, 0, 1, 0] = some last := ⟨_, rfl⟩
  have hlast : (cleanerAndWriter.play plainPages.setting [0, 1, 1, 0, 1, 0]).map
      (fun last => (last.1.map (fun move => (move.thread, move.exchange.request)),
        Move.own 0 last.1,
        [1, 2, 5].map fun key => plainPages.backend.get key last.2.world.map)) =
      some ([(0, .copy 0), (1, .insert 2 20), (1, .insert 1 11), (0, .remove 5),
          (1, .insert 5 31), (0, .remove 1)],
        [⟨.copy 0, [(5, 30), (1, 10)]⟩, ⟨.remove 5, some 30⟩, ⟨.remove 1, some 11⟩],
        [none, some 20, some 31]) := rfl
  rw [hplay] at hlast
  obtain ⟨hmoves, hrest⟩ := Prod.mk.inj (Option.some.inj hlast)
  obtain ⟨hown, hget⟩ := Prod.mk.inj hrest
  have hclears : Clears plainPages.setting 0 moves := by
    rw [Clears, hown]
    exact .cons (.cons (.cons (.start _)))
  have hrun : Run plainPages.setting cleanerAndWriter ([] ++ moves) threads := Run.play .start hplay
  have hvalid : cleanerAndWriter.world.map.Placed UInt8.toNat :=
    Buckets.placed_insert 1 10 (Buckets.placed_insert 5 30 (Buckets.placed_empty UInt8.toNat))
  have hbound : plainPages.backend.get 5 threads.world.map = some 31 :=
    (List.cons.inj (List.cons.inj (List.cons.inj hget).2).2).1
  let laws : plainPages.setting.backend.Laws := (Backend.lockedLaws 5 UInt8.toNat).withoutBulk
  obtain ⟨-, horigin⟩ := basic_operations_suffice laws rfl
  obtain ⟨front, copied, middle, inserted, rest, hsplit, -, hcopied, hinserted, -⟩ :=
    horigin cleanerAndWriter threads [] moves 0 hvalid hrun hclears 5 31 hbound
  exact ⟨moves, threads, hplay, hmoves, hget, hclears,
    front, copied, middle, inserted, rest, hsplit, hcopied, hinserted⟩

end Threads

end SnapshotStore
