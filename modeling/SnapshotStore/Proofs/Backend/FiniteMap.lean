import Mathlib
import SnapshotStore.Proofs.Backend.Shards

namespace SnapshotStore

abbrev FiniteMap (K V : Type) := Finmap fun _ : K => V

namespace Backend

inductive Call (K V : Type) where
  | insert (key : K) (value : V)
  | get (key : K)
  | remove (key : K)
  | contains (key : K)
  | size
  | clear
  | snapshot

inductive Reply (K V : Type) where
  | value (value : Option V)
  | flag (holds : Bool)
  | count (n : Nat)
  | done
  | entries (entries : List (K × V))

variable {K V S : Type}

def serve (backend : Backend K V S) (map : S) : Call K V → Reply K V × S
  | .insert key value =>
    let (previous, map) := backend.insert key value map
    (.value previous, map)
  | .get key => (.value (backend.get key map), map)
  | .remove key =>
    let (removed, map) := backend.remove key map
    (.value removed, map)
  | .contains key => (.flag (backend.contains key map), map)
  | .size => (.count (backend.size map), map)
  | .clear => (.done, backend.clear map)
  | .snapshot => (.entries (backend.snapshot map), map)

def serveAll (backend : Backend K V S) : S → List (Call K V) → List (Reply K V) × S
  | map, [] => ([], map)
  | map, call :: rest =>
    let (reply, map) := backend.serve map call
    let (replies, map) := backend.serveAll map rest
    (reply :: replies, map)

end Backend

namespace FiniteMap

open Backend (Call Reply)

variable {K V S : Type} [DecidableEq K]

def after (map : FiniteMap K V) : Call K V → FiniteMap K V
  | .insert key value => map.insert key value
  | .remove key => map.erase key
  | .clear => ∅
  | _ => map

-- What a finite map answers to a call. A copy may list the bindings in any order.
def Answers (map : FiniteMap K V) : Call K V → Reply K V → Prop
  | .insert key _, reply => reply = .value (map.lookup key)
  | .get key, reply => reply = .value (map.lookup key)
  | .remove key, reply => reply = .value (map.lookup key)
  | .contains key, reply => reply = .flag (decide (key ∈ map))
  | .size, reply => reply = .count map.keys.card
  | .clear, reply => reply = .done
  | .snapshot, reply => ∃ entries, reply = .entries entries ∧ (entries.map Prod.fst).Nodup ∧
      ∀ key value, (key, value) ∈ entries ↔ map.lookup key = some value

def AnswersAll (map : FiniteMap K V) : List (Call K V) → List (Reply K V) → Prop
  | [], replies => replies = []
  | call :: calls, replies => ∃ reply rest, replies = reply :: rest ∧ map.Answers call reply ∧
      (map.after call).AnswersAll calls rest

end FiniteMap

namespace Backend.Laws

variable {K V S : Type} [DecidableEq K] {backend : Backend K V S} (laws : backend.Laws)

def Represents (map : S) (bindings : FiniteMap K V) : Prop :=
  laws.Valid map ∧ ∀ key, bindings.lookup key = backend.get key map

variable {laws} {map : S} {bindings : FiniteMap K V}

theorem Represents.length_snapshot (h : laws.Represents map bindings) :
    (backend.snapshot map).length = bindings.keys.card := by
  have hkeys : ((backend.snapshot map).map Prod.fst).toFinset = bindings.keys := by
    ext key
    rw [List.mem_toFinset, List.mem_map, Finmap.mem_keys, Finmap.mem_iff]
    constructor
    · rintro ⟨⟨k, value⟩, hmem, rfl⟩
      have hget := (laws.mem_snapshot h.1 k value).mp hmem
      exact ⟨value, (h.2 k).trans hget⟩
    · rintro ⟨value, hlookup⟩
      refine ⟨(key, value), (laws.mem_snapshot h.1 key value).mpr ?_, rfl⟩
      rw [← h.2 key, hlookup]
  rw [← hkeys, List.toFinset_card_of_nodup (laws.nodup_snapshot h.1), List.length_map]

theorem Represents.answers (h : laws.Represents map bindings) (call : Backend.Call K V) :
    bindings.Answers call (backend.serve map call).1 := by
  obtain ⟨hvalid, hlookup⟩ := h
  cases call with
  | insert key value =>
      exact congrArg Reply.value ((laws.insert_fst key value hvalid).trans (hlookup key).symm)
  | get key => exact congrArg Reply.value (hlookup key).symm
  | remove key =>
      exact congrArg Reply.value ((laws.remove_fst key hvalid).trans (hlookup key).symm)
  | contains key =>
      have hmem : decide (key ∈ bindings) = (bindings.lookup key).isSome := by
        rw [Bool.eq_iff_iff, decide_eq_true_iff, Finmap.lookup_isSome]
      simp only [serve, FiniteMap.Answers, laws.contains_eq hvalid key, hmem, hlookup key]
  | size =>
      simp only [serve, FiniteMap.Answers, laws.size_eq hvalid,
        Represents.length_snapshot ⟨hvalid, hlookup⟩]
  | clear => rfl
  | snapshot =>
      refine ⟨_, rfl, laws.nodup_snapshot hvalid, fun key value => ?_⟩
      rw [laws.mem_snapshot hvalid, hlookup key]

theorem Represents.after (h : laws.Represents map bindings) (call : Backend.Call K V) :
    laws.Represents (backend.serve map call).2 (bindings.after call) := by
  obtain ⟨hvalid, hlookup⟩ := h
  cases call with
  | insert key value =>
      refine ⟨laws.valid_insert key value hvalid, fun k => ?_⟩
      change (bindings.insert key value).lookup k = backend.get k (backend.insert key value map).2
      rw [laws.get_insert key value k hvalid]
      by_cases hk : key = k
      · subst hk
        rw [if_pos rfl, Finmap.lookup_insert]
      · rw [if_neg hk, Finmap.lookup_insert_of_ne _ (Ne.symm hk), hlookup k]
  | remove key =>
      refine ⟨laws.valid_remove key hvalid, fun k => ?_⟩
      change (bindings.erase key).lookup k = backend.get k (backend.remove key map).2
      rw [laws.get_remove key k hvalid]
      by_cases hk : key = k
      · subst hk
        rw [if_pos rfl, Finmap.lookup_erase]
      · rw [if_neg hk, Finmap.lookup_erase_ne (Ne.symm hk), hlookup k]
  | clear =>
      refine ⟨laws.valid_clear hvalid, fun k => ?_⟩
      exact (Finmap.lookup_empty k).trans (laws.get_clear hvalid k).symm
  | get key => exact ⟨hvalid, hlookup⟩
  | contains key => exact ⟨hvalid, hlookup⟩
  | size => exact ⟨hvalid, hlookup⟩
  | snapshot => exact ⟨hvalid, hlookup⟩

theorem Represents.answersAll (h : laws.Represents map bindings)
    (calls : List (Backend.Call K V)) :
    bindings.AnswersAll calls (backend.serveAll map calls).1 := by
  induction calls generalizing map bindings with
  | nil => rfl
  | cons call calls ih => exact ⟨_, _, rfl, h.answers call, ih (h.after call)⟩

theorem valid_serveAll (hvalid : laws.Valid map) (calls : List (Backend.Call K V)) :
    laws.Valid (backend.serveAll map calls).2 := by
  induction calls generalizing map with
  | nil => exact hvalid
  | cons call calls ih =>
      apply ih
      cases call with
      | insert key value => exact laws.valid_insert key value hvalid
      | remove key => exact laws.valid_remove key hvalid
      | clear => exact laws.valid_clear hvalid
      | get key => exact hvalid
      | contains key => exact hvalid
      | size => exact hvalid
      | snapshot => exact hvalid

variable (laws) in
theorem represents_empty : laws.Represents backend.empty (∅ : FiniteMap K V) :=
  ⟨laws.valid_empty, fun key => (Finmap.lookup_empty key).trans (laws.get_empty key).symm⟩

end Backend.Laws

namespace Shards

variable {K V : Type} {n r : Nat}

theorem size_eq_outOfRange_iff (shard : Nat) (shards : Shards K V n r) :
    size shard shards = .error .outOfRange ↔ n ≤ shard := by
  unfold size
  split
  · simp; omega
  · simp; omega

-- The shards' sizes, asked for one by one, add up to the size of the map.
theorem sum_sizes [DecidableEq K] [Nonzero n] [Nonzero r] (hash : K → Nat)
    (shards : Shards K V n r) : ∃ sizes,
      (List.range n).mapM (fun shard => size shard shards) = .ok sizes ∧
      sizes.sum = (Backend.sharded n r hash).size shards := by
  have hsizes : ∀ positions : List Nat, (∀ shard ∈ positions, shard < n) →
      positions.mapM (fun shard => size shard shards) =
        .ok (positions.map fun shard => Buckets.count (Shards.positions n r shard) shards) := by
    intro positions
    induction positions with
    | nil => intro _; rfl
    | cons shard rest ih =>
        intro hlt
        rw [List.mapM_cons, ih fun i hi => hlt i (List.mem_cons_of_mem _ hi), size,
          if_pos (hlt shard List.mem_cons_self)]
        rfl
  refine ⟨(List.range n).map fun shard => Buckets.count (positions n r shard) shards, ?_, ?_⟩
  · exact hsizes _ fun shard hshard => List.mem_range.mp hshard
  · rw [List.sum_eq_foldl, List.foldl_map]
    rfl

end Shards

open Backend in
-- The two backends answer every sequence of calls as a finite map does. The keys of a sharded
-- map stand in the shard that their hash selects, each once, and the shards' sizes add up.
theorem backends_refine_finiteMap {K V : Type} [DecidableEq K] (n r m : Nat) [Nonzero n] [Nonzero r]
    [Nonzero m] (hash hash' : K → Nat) (calls : List (Call K V)) :
    let sharded : Backend K V (Shards K V n r) := sharded n r hash
    let locked : Backend K V (Buckets K V m) := locked m hash'
    let shards := (sharded.serveAll sharded.empty calls).2
    FiniteMap.AnswersAll ∅ calls (sharded.serveAll sharded.empty calls).1 ∧
    FiniteMap.AnswersAll ∅ calls (locked.serveAll locked.empty calls).1 ∧
    (∀ shard < n, ∀ entry ∈ sharded.copy shard shards, shard = hash entry.1 % n) ∧
    (((List.range n).flatMap fun shard => sharded.copy shard shards).map Prod.fst).Nodup ∧
    (∃ sizes, (List.range n).mapM (fun shard => shards.size shard) = .ok sizes ∧
      sizes.sum = sharded.size shards) ∧
    (∀ shard, shards.size shard = .error .outOfRange ↔ n ≤ shard) := by
  intro sharded locked shards
  have hvalid : (shardedLaws n r hash).Valid shards :=
    Laws.valid_serveAll (shardedLaws n r hash).valid_empty calls
  refine ⟨(shardedLaws n r hash).represents_empty.answersAll calls,
    (lockedLaws m hash').represents_empty.answersAll calls, ?_,
    (shardedLaws n r hash).nodup_snapshot hvalid, Shards.sum_sizes hash shards,
    fun shard => Shards.size_eq_outOfRange_iff shard shards⟩
  intro shard hshard entry hentry
  have hcopied := ((shardedLaws n r hash).mem_copy entry.1 entry.2 hvalid hshard).mp hentry
  exact hcopied.1.symm

open Backend in
-- Three shards of two buckets each, with two keys of one shard.
theorem backends_refine_finiteMap_three_shards :
    let sharded : Backend Nat Nat (Shards Nat Nat 3 2) := sharded 3 2 id
    let calls : List (Call Nat Nat) :=
      [.insert 1 10, .insert 4 20, .insert 1 30, .remove 4, .size, .snapshot]
    (sharded.serveAll sharded.empty calls).1 =
      [.value none, .value none, .value (some 10), .value (some 20), .count 1,
        .entries [(1, 30)]] ∧
    FiniteMap.AnswersAll ∅ calls (sharded.serveAll sharded.empty calls).1 := by
  intro sharded calls
  exact ⟨rfl, (backends_refine_finiteMap 3 2 4 id id calls).1⟩

end SnapshotStore
