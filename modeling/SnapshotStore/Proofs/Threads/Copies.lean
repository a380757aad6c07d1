import Mathlib.Data.List.Perm.Subperm
import SnapshotStore.Proofs.Backend.Shards
import SnapshotStore.Proofs.Backend.Views
import SnapshotStore.Proofs.Persistence.Load
import SnapshotStore.Proofs.Routine.Yields
import SnapshotStore.Proofs.Store.Concurrent
import SnapshotStore.Proofs.Threads.Moments
import SnapshotStore.Store.Command

namespace SnapshotStore

variable {K V S σ ω α : Type}

-- What the maps have been at the moves of one thread.
def Move.views (thread : Nat) (moves : List (Move K V S)) : List S :=
  (moves.filter fun move => move.thread = thread).map Move.map

-- The thread copies the whole map by its requests among these moves.
def Threads.Copies (setting : Setting K V S σ) (thread : Nat) (during : List (Move K V S))
    (entries : List (K × V)) : Prop :=
  (Memory.snapshot setting.backend : Routine K V (World S σ) _).Yields (Move.own thread during)
    entries

-- The segments are copied in order, one request for each.
theorem Memory.copies_of_yields {backend : Backend K V S} {own : List (Move K V S)}
    (hcopy : ∀ thread segment response map,
      (⟨thread, ⟨.copy segment, response⟩, map⟩ : Move K V S) ∈ own →
      response = backend.copy segment map) {first count : Nat} {entries : List (K × V)}
    (h : (snapshotFrom (List.range' first count) : Routine K V ω _).Yields
      (own.map Move.exchange) entries) :
    own.map (fun move => move.exchange.request) = (List.range' first count).map .copy ∧
    entries = ((own.map Move.map).zipIdx first).flatMap
      fun (map, segment) => backend.copy segment map := by
  induction count generalizing first own entries with
  | zero =>
      obtain ⟨hnone, rfl⟩ := Routine.Yields.of_pure h
      obtain rfl := List.map_eq_nil_iff.mp hnone
      exact ⟨rfl, rfl⟩
  | succ count ih =>
      rw [List.range'_succ, snapshotFrom] at h
      obtain ⟨copied, asked, rest, hown, hasked, hrest⟩ := h.of_bind
      obtain ⟨response, others, rfl, hothers⟩ := hasked.of_call
      obtain ⟨rfl, rfl⟩ := Routine.Yields.of_pure hothers
      obtain ⟨listed, between, last, rfl, hbetween, hlast⟩ := hrest.of_bind
      obtain ⟨rfl, rfl⟩ := Routine.Yields.of_pure hlast
      rw [List.append_nil] at hown
      obtain ⟨⟨thread, exchange, map⟩, moves, rfl, hexchange, rfl⟩ := List.map_eq_cons_iff.mp hown
      obtain rfl : exchange = _ := hexchange
      obtain ⟨hrequests, rfl⟩ :=
        ih (fun thread segment response map hmem => hcopy thread segment response map
          (List.mem_cons_of_mem _ hmem)) hbetween
      have hresponse := hcopy thread first copied map List.mem_cons_self
      rw [List.range'_succ, List.map_cons, List.map_cons, hrequests, List.map_cons,
        List.zipIdx_cons, List.flatMap_cons, hresponse]
      exact ⟨rfl, rfl⟩

namespace Threads

variable {setting : Setting K V S σ} {start threads : Threads K V S σ α}
  {before during : List (Move K V S)} {thread : Nat} {entries : List (K × V)}

theorem Copies.requests (hcopies : Copies setting thread during entries)
    (h : Run setting start (before ++ during) threads) :
    (Move.own thread during).map Exchange.request =
      (List.range setting.backend.segments).map .copy ∧
    entries = setting.backend.assemble (Move.views thread during) := by
  unfold Copies Memory.snapshot at hcopies
  rw [List.range_eq_range'] at hcopies ⊢
  have hcopy : ∀ mover segment response map, ⟨mover, ⟨.copy segment, response⟩, map⟩ ∈
      during.filter (fun move => move.thread = thread) →
      response = setting.backend.copy segment map :=
    fun mover segment response map hmove =>
      h.response_eq_copy (List.mem_append_right before (List.mem_filter.mp hmove).1)
  rw [Move.own, List.map_map]
  exact Memory.copies_of_yields hcopy hcopies

theorem Copies.length_views (hcopies : Copies setting thread during entries)
    (h : Run setting start (before ++ during) threads) :
    (Move.views thread during).length = setting.backend.segments := by
  have hlength := congrArg List.length (hcopies.requests h).1
  rwa [List.length_map, List.length_map, List.length_range, Move.own, List.length_map,
    ← List.length_map (f := Move.map)] at hlength

-- The own moves of the thread are the copies of the segments, each in its turn.
theorem Copies.view_iff (hcopies : Copies setting thread during entries)
    (h : Run setting start (before ++ during) threads) {segment : Nat} {view : S} :
    (Move.views thread during)[segment]? = some view ↔
      ∃ copied ∈ during, copied.thread = thread ∧
        copied.exchange.request = .copy segment ∧ copied.map = view := by
  have hrequests := (hcopies.requests h).1
  rw [Move.own, List.map_map] at hrequests
  have hturn : ∀ (position : Nat) (copied : Move K V S),
      (during.filter fun move => move.thread = thread)[position]? = some copied →
      copied.exchange.request = .copy position := by
    intro position copied hcopied
    have hrequest := congrArg (·[position]?) hrequests
    simp only [List.getElem?_map, hcopied, Option.map_some, Function.comp_apply] at hrequest
    obtain ⟨segment, hsegment, hsame⟩ := Option.map_eq_some_iff.mp hrequest.symm
    obtain ⟨hlt, rfl⟩ := List.getElem?_eq_some_iff.mp hsegment
    rw [← hsame, List.getElem_range]
  rw [Move.views, List.getElem?_map, Option.map_eq_some_iff]
  constructor
  · rintro ⟨copied, hcopied, rfl⟩
    obtain ⟨hmem, hthread⟩ := List.mem_filter.mp (List.mem_of_getElem? hcopied)
    exact ⟨copied, hmem, of_decide_eq_true hthread, hturn segment copied hcopied, rfl⟩
  · rintro ⟨copied, hmem, hthread, hrequest, rfl⟩
    have hown : copied ∈ during.filter fun move => move.thread = thread :=
      List.mem_filter.mpr ⟨hmem, decide_eq_true hthread⟩
    obtain ⟨position, hposition⟩ := List.getElem?_of_mem hown
    obtain rfl : position = segment := by
      simpa [hrequest] using (hturn position copied hposition).symm
    exact ⟨copied, hposition, rfl⟩

variable [DecidableEq K] {laws : setting.backend.Laws}

theorem valid_views (hvalid : AllValid laws (before ++ during) threads.world) :
    ∀ view ∈ Move.views thread during, laws.Valid view := by
  intro view hview
  obtain ⟨move, hmove, rfl⟩ := List.mem_map.mp hview
  exact hvalid.2 move (List.mem_append_right before (List.mem_filter.mp hmove).1)

theorem Copies.nodup (hcopies : Copies setting thread during entries)
    (h : Run setting start (before ++ during) threads)
    (hvalid : AllValid laws (before ++ during) threads.world) :
    (entries.map Prod.fst).Nodup := by
  rw [(hcopies.requests h).2]
  exact laws.nodup_assemble (valid_views hvalid) (Nat.le_of_eq (hcopies.length_views h))

theorem Copies.mem_iff (hcopies : Copies setting thread during entries)
    (h : Run setting start (before ++ during) threads)
    (hvalid : AllValid laws (before ++ during) threads.world) (key : K) (value : V) :
    (key, value) ∈ entries ↔ ∃ copied ∈ during, copied.thread = thread ∧
      copied.exchange.request = .copy (laws.segmentOf key) ∧
      setting.backend.get key copied.map = some value := by
  rw [(hcopies.requests h).2,
    laws.mem_assemble (valid_views hvalid) (Nat.le_of_eq (hcopies.length_views h))]
  constructor
  · rintro ⟨view, hview, hget⟩
    obtain ⟨copied, hmem, hthread, hrequest, rfl⟩ := (hcopies.view_iff h).mp hview
    exact ⟨copied, hmem, hthread, hrequest, hget⟩
  · rintro ⟨copied, hmem, hthread, hrequest, hget⟩
    exact ⟨copied.map, (hcopies.view_iff h).mpr ⟨copied, hmem, hthread, hrequest, rfl⟩, hget⟩

omit [DecidableEq K] in
theorem Copies.exists_copied (hcopies : Copies setting thread during entries)
    (h : Run setting start (before ++ during) threads) {segment : Nat}
    (hsegment : segment < setting.backend.segments) :
    ∃ copied ∈ during, copied.thread = thread ∧ copied.exchange.request = .copy segment := by
  have hview := List.getElem?_eq_getElem ((hcopies.length_views h).symm ▸ hsegment)
  obtain ⟨copied, hmem, hthread, hrequest, -⟩ := (hcopies.view_iff h).mp hview
  exact ⟨copied, hmem, hthread, hrequest⟩

-- A key that is bound the same way all the time is listed with this binding.
theorem Copies.mem_iff_of_steady (hcopies : Copies setting thread during entries)
    (h : Run setting start (before ++ during) threads)
    (hvalid : AllValid laws (before ++ during) threads.world) {key : K} {bound : Option V}
    (hsteady : ∀ move ∈ during, setting.backend.get key move.map = bound) (value : V) :
    (key, value) ∈ entries ↔ bound = some value := by
  rw [hcopies.mem_iff h hvalid]
  constructor
  · rintro ⟨copied, hmem, -, -, hget⟩
    rw [← hsteady copied hmem, hget]
  · rintro rfl
    obtain ⟨copied, hmem, hthread, hrequest⟩ := hcopies.exists_copied h (laws.segmentOf_lt key)
    exact ⟨copied, hmem, hthread, hrequest, hsteady copied hmem⟩

theorem Copies.keys_subset {between second : List (Move K V S)} {other : Nat}
    {later : List (K × V)} {last : Threads K V S σ α} (hlasting : setting.Lasting laws)
    (hstart : laws.Valid start.world.map) (hcopies : Copies setting thread during entries)
    (h : Run setting start (before ++ during ++ between ++ second) last)
    (hlater : Copies setting other second later)
    (hkeeps : ∀ move ∈ during ++ between ++ second, move.exchange.request.takesAway = false) :
    entries.map Prod.fst ⊆ later.map Prod.fst := by
  intro key hkey
  obtain ⟨⟨key, value⟩, hmem, rfl⟩ := List.mem_map.mp hkey
  have hvalid := h.allValid_of_lasting hlasting hstart
  have hwhole : Run setting start (before ++ during ++ (between ++ second)) last := by
    rwa [← List.append_assoc]
  obtain ⟨ended, hfirst, -⟩ := hwhole.cut
  have hbefore := hfirst.allValid_of_lasting hlasting hstart
  obtain ⟨copied, hcopied, -, -, hget⟩ := (hcopies.mem_iff hfirst hbefore key value).mp hmem
  have hplaced : laws.Valid copied.map := hbefore.2 copied (List.mem_append_right _ hcopied)
  obtain ⟨front, tail, middle, rfl, htail, hmap⟩ := hwhole.after_mem hcopied
  have hrest : ∀ move ∈ tail ++ (between ++ second), move.exchange.request.takesAway = false := by
    simp only [List.forall_mem_append, List.forall_mem_cons] at hkeeps ⊢
    exact ⟨hkeeps.1.1.2.2, hkeeps.1.2, hkeeps.2⟩
  have hbound := htail.isSome_of_keeps hlasting (hmap ▸ hplaced) hrest
    (by rw [hmap, hget]; rfl)
  obtain ⟨again, hagain, hthread, hrequest⟩ := hlater.exists_copied h (laws.segmentOf_lt key)
  obtain ⟨found, hfound⟩ := Option.isSome_iff_exists.mp
    (hbound again (List.mem_append_right _ (List.mem_append_right _ hagain)))
  have hlisted :=
    (hlater.mem_iff h hvalid key found).mpr ⟨again, hagain, hthread, hrequest, hfound⟩
  exact List.mem_map.mpr ⟨(key, found), hlisted, rfl⟩

omit [DecidableEq K] in
theorem length_le_of_keys_subset {later : List (K × V)}
    (hnodup : (entries.map Prod.fst).Nodup) (hsubset : entries.map Prod.fst ⊆ later.map Prod.fst) :
    entries.length ≤ later.length := by
  have hle := (List.subperm_of_subset hnodup hsubset).length_le
  rwa [List.length_map, List.length_map] at hle

-- Any segment of a sharded map may be wiped, also one that is none.
theorem lasting_sharded {n r : Nat} [Nonzero n] [Nonzero r] (hash : K → Nat)
    (serializer : Serializer K V) (listeners : List (Listener K V σ)) :
    (⟨.sharded n r hash, serializer, listeners⟩ : Setting K V (Shards K V n r) σ).Lasting
      (Backend.shardedLaws n r hash) :=
  Setting.lasting_of_wipe fun _ _ hplaced => Buckets.placed_wipe _ hplaced

-- Whatever other threads write to a sharded map while it is copied shard by shard, the copy is
-- right for each key by itself. Two copies agree on what has been there before, as long as nothing
-- is taken away.
theorem sharded_copies_hold_key_by_key {n r : Nat} [Nonzero n] [Nonzero r] (hash : K → Nat)
    {setting : Setting K V (Shards K V n r) σ} (hbackend : setting.backend = .sharded n r hash)
    {start threads : Threads K V (Shards K V n r) σ α}
    {before during : List (Move K V (Shards K V n r))} {thread : Nat} {entries : List (K × V)}
    (hplaced : start.world.map.Placed hash) (hrun : Run setting start (before ++ during) threads)
    (hcopies : Copies setting thread during entries) :
    let get := setting.backend.get
    -- no key is listed twice
    (entries.map Prod.fst).Nodup ∧
    -- what is listed was bound so when the thread copied the shard of the key
    (∀ key value, (key, value) ∈ entries → ∃ copied ∈ during, copied.thread = thread ∧
      copied.exchange.request = .copy (hash key % n) ∧ get key copied.map = some value) ∧
    -- a key whose binding has stayed the same is listed with it
    (∀ key bound, (∀ move ∈ during, get key move.map = bound) →
      ∀ value, (key, value) ∈ entries ↔ bound = some value) ∧
    -- a later copy has all the keys if nothing is taken away before it is complete
    (∀ (between second : List (Move K V (Shards K V n r))) (other : Nat) (later : List (K × V))
        (last : Threads K V (Shards K V n r) σ α),
      Run setting start (before ++ during ++ between ++ second) last →
      Copies setting other second later →
      (∀ move ∈ during ++ between ++ second, move.exchange.request.takesAway = false) →
      entries.map Prod.fst ⊆ later.map Prod.fst ∧ entries.length ≤ later.length) := by
  obtain ⟨backend, serializer, listeners⟩ := setting
  obtain rfl : backend = .sharded n r hash := hbackend
  have hlasting := lasting_sharded (K := K) (n := n) (r := r) hash serializer listeners
  have hvalid := hrun.allValid_of_lasting hlasting hplaced
  have hnodup := hcopies.nodup hrun hvalid
  refine ⟨hnodup, ?_, ?_, ?_⟩
  · intro key value hlisted
    exact (hcopies.mem_iff hrun hvalid key value).mp hlisted
  · intro key bound hsteady
    exact hcopies.mem_iff_of_steady hrun hvalid hsteady
  · intro between second other later last hlast hlater hkeeps
    have hsubset := hcopies.keys_subset hlasting hplaced hlast hlater hkeeps
    exact ⟨hsubset, length_le_of_keys_subset hnodup hsubset⟩

def sharedPages : Store UInt8 UInt8 (Shards UInt8 UInt8 2 1) Unit :=
  { Store.twoShards with policy := .callerDriven }

def readerAndWriter :
    Threads UInt8 UInt8 (Shards UInt8 UInt8 2 1) Unit (List (Outcome UInt8 UInt8 Unit)) where
  routines :=
    [sharedPages.performAll [.entries, .entries],
      sharedPages.performAll [.insert 2 20, .insert 1 10]]
  world :=
    { files := default, channel := default, mishaps := fun _ => .none, desk := ()
      map := sharedPages.backend.load [(3, 30)] }

-- The writer comes in between the two shards of the first copy. This copy has the key that was set
-- last but not the one before it; the second copy has them all.
theorem sharded_copies_hold_key_by_key_torn : ∃ moves threads,
    readerAndWriter.play sharedPages.setting [0, 1, 1, 0, 0, 0] = some (moves, threads) ∧
    (Move.own 1 moves).map Exchange.request = [.insert 2 20, .insert 1 10] ∧
    Copies sharedPages.setting 0 (moves.take 4) [(3, 30), (1, 10)] ∧
    Copies sharedPages.setting 0 (moves.drop 4) [(2, 20), (3, 30), (1, 10)] ∧
    (∃ copied ∈ moves.take 4, copied.thread = 0 ∧ copied.exchange.request = .copy (1 % 2) ∧
      sharedPages.backend.get 1 copied.map = some 10) ∧
    [(3, 30), (1, 10)].length ≤ [(2, 20), (3, 30), (1, 10)].length := by
  obtain ⟨⟨moves, threads⟩, hplay⟩ : ∃ last,
      readerAndWriter.play sharedPages.setting [0, 1, 1, 0, 0, 0] = some last := ⟨_, rfl⟩
  have hown : (readerAndWriter.play sharedPages.setting [0, 1, 1, 0, 0, 0]).map
      (fun last => ((Move.own 1 last.1).map Exchange.request,
        Move.own 0 (last.1.take 4), Move.own 0 (last.1.drop 4))) =
      some ([.insert 2 20, .insert 1 10],
        [⟨.copy 0, []⟩, ⟨.copy 1, [(3, 30), (1, 10)]⟩],
        [⟨.copy 0, [(2, 20)]⟩, ⟨.copy 1, [(3, 30), (1, 10)]⟩]) := rfl
  have hkept : (readerAndWriter.play sharedPages.setting [0, 1, 1, 0, 0, 0]).map
      (fun last => last.1.all fun move => !move.exchange.request.takesAway) = some true := rfl
  rw [hplay] at hown hkept
  obtain ⟨hwriter, hown⟩ := Prod.mk.inj (Option.some.inj hown)
  obtain ⟨hfirst, hsecond⟩ := Prod.mk.inj hown
  have hkept : ∀ move ∈ moves, move.exchange.request.takesAway = false := by
    simpa using Option.some.inj hkept
  have hrun : Run sharedPages.setting readerAndWriter moves threads := Run.play .start hplay
  have hcopies : Copies sharedPages.setting 0 (moves.take 4) [(3, 30), (1, 10)] := by
    rw [Copies, hfirst]
    exact .cons (.cons (.start _))
  have hlater : Copies sharedPages.setting 0 (moves.drop 4) [(2, 20), (3, 30), (1, 10)] := by
    rw [Copies, hsecond]
    exact .cons (.cons (.start _))
  have hplaced : readerAndWriter.world.map.Placed UInt8.toNat :=
    Buckets.placed_insert 3 30 (Buckets.placed_empty UInt8.toNat)
  obtain ⟨middle, hcopying, -⟩ : ∃ middle,
      Run sharedPages.setting readerAndWriter ([] ++ moves.take 4) middle ∧
      Run sharedPages.setting middle (moves.drop 4) threads :=
    Run.cut (by rwa [List.nil_append, List.take_append_drop])
  obtain ⟨-, hlisted, -, hlonger⟩ :=
    sharded_copies_hold_key_by_key UInt8.toNat rfl hplaced hcopying hcopies
  have hall : ([] ++ moves.take 4 ++ [] ++ moves.drop 4) = moves := by
    rw [List.nil_append, List.append_nil, List.take_append_drop]
  refine ⟨moves, threads, hplay, hwriter, hcopies, hlater, hlisted 1 10 (by decide), ?_⟩
  refine (hlonger [] (moves.drop 4) 0 _ threads (hall.symm ▸ hrun) hlater ?_).2
  rwa [List.append_nil, List.take_append_drop]

end Threads

end SnapshotStore
