import Mathlib.Algebra.BigOperators.Group.Finset.Basic
import Mathlib.Data.Fintype.BigOperators
import SnapshotStore.Proofs.Estate.Opening
import SnapshotStore.Proofs.Store.Concurrent
import SnapshotStore.Proofs.Store.Independence
import SnapshotStore.Proofs.Store.Looking
import SnapshotStore.Proofs.Store.Ownership
import SnapshotStore.Proofs.Threads.Ending

namespace SnapshotStore

variable {K V S S' σ β : Type} {n : Nat}

theorem length_eq_sum_filter {α ι : Type} [Fintype ι] [DecidableEq ι] (f : α → ι)
    (list : List α) : list.length = ∑ i, (list.filter (f · = i)).length := by
  induction list with
  | nil => simp
  | cons x rest ih =>
      have hcons : ∀ i, ((x :: rest).filter (f · = i)).length =
          (rest.filter (f · = i)).length + if f x = i then 1 else 0 := by
        intro i
        by_cases hx : f x = i <;> simp [hx]
      simp only [hcons, Finset.sum_add_distrib, ← ih, Finset.sum_ite_eq, Finset.mem_univ, if_true,
        List.length_cons]

-- The entries of a map that belong to a thread, or to nobody.
def Backend.part (backend : Backend K V S) (owner : K → Option (Fin n)) (who : Option (Fin n))
    (map : S) : List (K × V) :=
  (backend.snapshot map).filter fun entry => owner entry.1 = who

section Parts

variable [DecidableEq K] {backend : Backend K V S} {backend' : Backend K V S'}
  (laws : backend.Laws) (laws' : backend'.Laws) (owner : K → Option (Fin n))

theorem Backend.Laws.perm_part {map : S} {map' : S'} (hvalid : laws.Valid map)
    (hvalid' : laws'.Valid map') {who : Option (Fin n)}
    (hsame : ∀ key, owner key = who → backend.get key map = backend'.get key map') :
    (backend.part owner who map).Perm (backend'.part owner who map') := by
  have hnodup := (laws.nodup_snapshot hvalid).of_map.filter fun entry => owner entry.1 = who
  have hnodup' := (laws'.nodup_snapshot hvalid').of_map.filter fun entry => owner entry.1 = who
  rw [part, part, List.perm_ext_iff_of_nodup hnodup hnodup']
  rintro ⟨key, value⟩
  rw [List.mem_filter, List.mem_filter, laws.mem_snapshot hvalid, laws'.mem_snapshot hvalid']
  refine and_congr_left fun howner => ?_
  rw [hsame key (of_decide_eq_true howner)]

theorem Backend.size_eq_sum_parts {map : S} (hvalid : laws.Valid map) :
    backend.size map = (backend.part owner none map).length +
      ∑ thread, (backend.part owner (some thread) map).length := by
  rw [laws.size_eq hvalid, length_eq_sum_filter (fun entry => owner entry.1),
    Fintype.sum_option]
  rfl

end Parts

namespace Store

-- The terms of each of the threads that share out the keys of a store.
def terms (store : Store K V S σ) (owner : K → Option (Fin n))
    (verdict : Nat → Event K V → Except Failure Unit) (thread : Nat) : Terms K V where
  own key := (owner key).map Fin.val = some thread
  saves := store.policy = .writeThrough
  listeners := store.listeners.length
  verdict := verdict

def sharing (store : Store K V S σ) (scripts : Fin n → List (Command K V (Surroundings Unit) β))
    (lookers : List (List (Command K V (World S σ) β))) (world : World S σ) :
    Threads K V S σ (List (Outcome K V β)) :=
  store.threads (List.ofFn (fun thread => Command.allWithin S σ (scripts thread)) ++ lookers) world

-- Each of the first threads keeps to the keys that it owns, and the others only look. No listener
-- objects to a save, if each mutation is followed by one.
structure HasOneWriter (store : Store K V S σ) (owner : K → Option (Fin n))
    (verdict : Nat → Event K V → Except Failure Unit)
    (scripts : Fin n → List (Command K V (Surroundings Unit) β))
    (lookers : List (List (Command K V (World S σ) β))) : Prop where
  keeps : ∀ thread, Command.AllKeepTo (fun key => owner key = some thread) (scripts thread)
  looks : ∀ looker ∈ lookers, ∀ command ∈ looker, command.Looks
  judges : ∀ (position : Nat) (listener : Listener K V σ),
    store.listeners[position]? = some listener → listener.Judges (verdict position)
  flushes : store.policy = .writeThrough →
    ∀ position entries, verdict position (.flush entries) = .ok ()

variable {store : Store K V S σ} {owner : K → Option (Fin n)}
  {verdict : Nat → Event K V → Except Failure Unit}
  {scripts : Fin n → List (Command K V (Surroundings Unit) β)}
  {lookers : List (List (Command K V (World S σ) β))} {world : World S σ}

theorem own_terms_iff {thread : Fin n} {key : K} :
    (store.terms owner verdict thread).own key ↔ owner key = some thread := by
  simp only [terms, Option.map_eq_some_iff, Fin.val_inj, exists_eq_right]

theorem getElem?_sharing (thread : Fin n) :
    (store.sharing scripts lookers world).routines[thread.val]? =
      some (store.performAll (Command.allWithin S σ (scripts thread))) := by
  simp [sharing, threads, List.getElem?_append_left]

namespace HasOneWriter

theorem met (h : store.HasOneWriter owner verdict scripts lookers) (backend' : Backend K V S')
    (thread : Nat) : (store.terms owner verdict thread).Met (store.over backend') :=
  ⟨rfl, id, h.flushes⟩

theorem given (h : store.HasOneWriter owner verdict scripts lookers) (backend' : Backend K V S')
    (thread : Nat) : (store.terms owner verdict thread).Given (store.over backend').setting :=
  ⟨rfl, h.judges⟩

variable [DecidableEq K]

-- What is settled for each thread by the bindings at the start, here and on any other backend.
theorem agree (h : store.HasOneWriter owner verdict scripts lookers) (backend' : Backend K V S')
    (thread : Fin n) :
    (store.terms owner verdict thread).Agree
      (store.performAll (Command.allWithin S σ (scripts thread)))
      ((store.over backend').performAll (Command.allWithin S' σ (scripts thread))) := by
  refine Terms.agree_performAll (h.met store.backend thread) (h.met backend' thread) _ ?_
  rw [show (store.terms owner verdict thread).own = fun key => owner key = some thread from
    funext fun key => propext own_terms_iff]
  exact h.keeps thread

theorem shareKeys (h : store.HasOneWriter owner verdict scripts lookers)
    (laws : store.backend.Laws) (hvalid : laws.Valid world.map) :
    Threads.ShareKeys store.setting laws (store.terms owner verdict) n
      (store.sharing scripts lookers world) where
  valid := hvalid
  given := h.given store.backend
  own_unique thread other key hown hother := Option.some.inj (hown.symm.trans hother)
  keeps thread hthread routine hroutine := by
    rw [getElem?_sharing ⟨thread, hthread⟩] at hroutine
    obtain rfl := Option.some.inj hroutine
    obtain ⟨_, _, hobeys, -⟩ := h.agree store.backend ⟨thread, hthread⟩
      (store.backend.bindings world.map)
    exact ⟨_, hobeys⟩
  looks thread hthread routine hroutine := by
    rw [sharing, threads, List.map_append, List.getElem?_append_right (by simpa using hthread)]
      at hroutine
    obtain ⟨looker, hlooker, rfl⟩ := List.mem_map.mp (List.mem_of_getElem? hroutine)
    exact store.looks_performAll looker (h.looks looker hlooker)

end HasOneWriter

-- No request to the serializer or the files fails, as far as saves belong to mutations.
def SavesWell (store : Store K V S σ) (exchanges : List (Exchange K V)) : Prop :=
  store.policy = .writeThrough → ∀ exchange ∈ exchanges, exchange.fails = false

theorem SavesWell.succeeds {moves : List (Move K V S)}
    (hsaves : store.SavesWell (moves.map Move.exchange)) (move : Move K V S) (hmove : move ∈ moves)
    (hpolicy : (store.terms owner verdict move.thread).saves) :
    move.exchange.fails = false :=
  hsaves hpolicy _ (List.mem_map_of_mem hmove)

section Alone

variable [DecidableEq K] {moves : List (Move K V S)}
  {threads : Threads K V S σ (List (Outcome K V β))}

-- What has come of a thread that is done, and what comes of its script when it is alone, are both
-- what is settled for it.
theorem HasOneWriter.alone_of_done (h : store.HasOneWriter owner verdict scripts lookers)
    (laws : store.backend.Laws) (hvalid : laws.Valid world.map)
    (hrun : Threads.Run store.setting (store.sharing scripts lookers world) moves threads)
    (hsaves : store.SavesWell (moves.map Move.exchange))
    {backend' : Backend K V S'} (laws' : backend'.Laws) {map' : S'} (hvalid' : laws'.Valid map')
    (hsame : ∀ key, backend'.get key map' = store.backend.get key world.map) {thread : Fin n}
    (hsaves' : store.SavesWell
      (((store.over backend').performAll (Command.allWithin S' σ (scripts thread))).exchanges
        (World.serve (store.over backend').setting) (world.withMap map')))
    {outcomes : List (Outcome K V β)}
    (hdone : threads.routines[thread.val]? = some (.done outcomes)) :
    let alone := (store.over backend').record (scripts thread) (world.withMap map')
    outcomes = alone.outcomes ∧ laws'.Valid alone.after.map ∧
      ∀ key, owner key = some thread →
        store.backend.get key threads.world.map = backend'.get key alone.after.map := by
  intro alone
  obtain ⟨routine, hroutine, hends⟩ :=
    hrun.of_done (h.shareKeys laws hvalid) hsaves.succeeds thread.isLt hdone
  rw [getElem?_sharing] at hroutine
  obtain rfl := Option.some.inj hroutine
  obtain ⟨answer, bindings, hobeys, hobeys'⟩ :=
    h.agree backend' thread (store.backend.bindings world.map)
  obtain ⟨view, ⟨hview, rfl⟩, hknows⟩ := hends _ hobeys
  have hstart : (store.terms owner verdict thread).Knows laws'
      (store.backend.bindings world.map) (world.withMap map').map :=
    ⟨hvalid', fun key _ => (hsame key).symm⟩
  obtain ⟨last, ⟨hlast, hanswer⟩, hknows'⟩ := hstart.run (h.given backend' thread) hobeys' hsaves'
  refine ⟨hanswer.symm, hknows'.valid, fun key howner => ?_⟩
  have hown : (store.terms owner verdict thread).own key := own_terms_iff.mpr howner
  exact (hknows.own key hown).symm.trans
    ((congrFun (hview.trans hlast.symm) key).trans (hknows'.own key hown))

end Alone

-- Any number of threads, on any backend. Each of them could as well have run alone on a map with
-- the same bindings, be it on another backend.
theorem threads_do_as_alone [DecidableEq K] (laws : store.backend.Laws)
    (h : store.HasOneWriter owner verdict scripts lookers) (hvalid : laws.Valid world.map)
    (hfree : world.saving = false) {moves : List (Move K V S)}
    {threads : Threads K V S σ (List (Outcome K V β))}
    (hrun : Threads.Run store.setting (store.sharing scripts lookers world) moves threads)
    (hsaves : store.SavesWell (moves.map Move.exchange))
    {backend' : Backend K V S'} (laws' : backend'.Laws) {map' : S'} (hvalid' : laws'.Valid map')
    (hsame : ∀ key, backend'.get key map' = store.backend.get key world.map)
    (hsaves' : ∀ thread, store.SavesWell
      (((store.over backend').performAll (Command.allWithin S' σ (scripts thread))).exchanges
        (World.serve (store.over backend').setting) (world.withMap map'))) :
    let alone (thread : Fin n) := (store.over backend').record (scripts thread) (world.withMap map')
    -- a thread that is done has got the answers that it gets alone, and so have its keys
    (∀ (thread : Fin n) (outcomes : List (Outcome K V β)),
      threads.routines[thread.val]? = some (.done outcomes) →
      outcomes = (alone thread).outcomes ∧ ∀ key, owner key = some thread →
        store.backend.get key threads.world.map = backend'.get key (alone thread).after.map) ∧
    -- the keys of nobody are never touched
    (∀ key, owner key = none →
      store.backend.get key threads.world.map = store.backend.get key world.map) ∧
    -- when all of them are done, the map is as large as its parts together
    ((∀ thread : Fin n, ∃ outcomes, threads.routines[thread.val]? = some (.done outcomes)) →
      (store.length.exec (World.serve store.setting) threads.world).1 =
        .ok ((store.backend.part owner none world.map).length + ∑ thread,
          (backend'.part owner (some thread) (alone thread).after.map).length)) ∧
    -- and so they all are in the end, whoever takes the next step
    (threads.IsDone ∨ ∃ after, threads.Steps store.setting after) ∧
    WellFounded fun (after before : Threads K V S σ (List (Outcome K V β))) =>
      before.Steps store.setting after := by
  intro alone
  have hsound := hrun.keysSound (h.shareKeys laws hvalid) hsaves.succeeds
  have halone : ∀ (thread : Fin n) (outcomes : List (Outcome K V β)),
      threads.routines[thread.val]? = some (.done outcomes) →
      outcomes = (alone thread).outcomes ∧ laws'.Valid (alone thread).after.map ∧
      ∀ key, owner key = some thread →
        store.backend.get key threads.world.map = backend'.get key (alone thread).after.map :=
    fun thread _ => h.alone_of_done laws hvalid hrun hsaves laws' hvalid' hsame (hsaves' thread)
  have hrest : ∀ key, owner key = none →
      store.backend.get key threads.world.map = store.backend.get key world.map := by
    intro key hnobody
    refine hsound.rest.2 key fun thread hown => ?_
    simp [terms, hnobody] at hown
  refine ⟨fun thread outcomes houtcomes => ?_, hrest, fun hall => ?_, ?_, ?_⟩
  · obtain ⟨hsame, -, hkeys⟩ := halone thread outcomes houtcomes
    exact ⟨hsame, hkeys⟩
  · rw [exec_length, Backend.size_eq_sum_parts laws owner hsound.rest.1,
      (laws.perm_part laws owner hsound.rest.1 hvalid hrest).length_eq]
    have hparts : ∀ thread, (store.backend.part owner (some thread) threads.world.map).length =
        (backend'.part owner (some thread) (alone thread).after.map).length := by
      intro thread
      obtain ⟨outcomes, houtcomes⟩ := hall thread
      obtain ⟨-, hafter, hkeys⟩ := halone thread outcomes houtcomes
      exact (laws.perm_part laws' owner hsound.rest.1 hafter hkeys).length_eq
    simp only [hparts]
  · exact hrun.isDone_or_steps (store.keep_threads _ world) hfree
  · exact Threads.wellFounded_steps store.setting

-- Two keys of one shard with an owner each.
def ownerOfOdd : UInt8 → Option (Fin 2)
  | 1 => some ⟨0, Nat.two_pos⟩
  | 3 => some ⟨1, Nat.one_lt_two⟩
  | _ => none

def oddScripts : Fin 2 → List (Command UInt8 UInt8 (Surroundings Unit) Unit)
  | 0 => [.insert 1 10, .update 1 [.get 1] (.ok <| · + 1)]
  | 1 => [.getOrInsert 3 30]

-- The second thread adds its key when the first one has read its own and not yet written it back.
def betweenReadAndWrite : List Nat :=
  [0, 1] ++ List.replicate 10 0 ++ [1, 0, 0] ++ List.replicate 9 1 ++ List.replicate 9 0

theorem threads_do_as_alone_twoShards :
    let backend' : Backend UInt8 UInt8 (Buckets UInt8 UInt8 2) := .locked 2 UInt8.toNat
    let alone (thread : Fin 2) := (twoShards.over backend').record (oddScripts thread)
      (oneEntry.withMap (backend'.load [(0, 9)]))
    ∃ moves threads,
      (twoShards.sharing oddScripts [] oneEntry).play twoShards.setting betweenReadAndWrite =
        some (moves, threads) ∧
      (∀ thread : Fin 2, threads.routines[thread.val]? = some (.done (alone thread).outcomes)) ∧
      twoShards.backend.get 1 threads.world.map = some 11 ∧
      twoShards.backend.get 3 threads.world.map = some 30 ∧
      (twoShards.length.exec (World.serve twoShards.setting) threads.world).1 = .ok 3 := by
  intro backend' alone
  obtain ⟨⟨moves, threads⟩, hplay⟩ : ∃ last, (twoShards.sharing oddScripts [] oneEntry).play
      twoShards.setting betweenReadAndWrite = some last :=
    ⟨_, rfl⟩
  have hsaves : ((twoShards.sharing oddScripts [] oneEntry).play twoShards.setting
      betweenReadAndWrite).map (fun last => last.1.all fun move => !move.exchange.fails) =
      some true := rfl
  have hdone : ∀ thread : Fin 2, ∃ outcomes,
      ((twoShards.sharing oddScripts [] oneEntry).play twoShards.setting
        betweenReadAndWrite).bind (fun last => last.2.routines[thread.val]?) =
      some (.done outcomes) := fun
    | 0 => ⟨_, rfl⟩
    | 1 => ⟨_, rfl⟩
  rw [hplay] at hsaves hdone
  have hrun : Threads.Run twoShards.setting (twoShards.sharing oddScripts [] oneEntry) moves
      threads := Threads.Run.play .start hplay
  have hone : twoShards.HasOneWriter ownerOfOdd (fun _ _ => .ok ()) oddScripts
      ([] : List (List (Command UInt8 UInt8 (World (Shards UInt8 UInt8 2 1) Unit) Unit))) := by
    refine ⟨fun thread => ?_, by simp, by simp [twoShards], fun _ _ _ => rfl⟩
    match thread with
    | 0 => exact ⟨rfl, ⟨rfl, rfl, trivial⟩, trivial⟩
    | 1 => exact ⟨rfl, trivial⟩
  have hwell : twoShards.SavesWell (moves.map Move.exchange) := by
    intro _
    simpa using Option.some.inj hsaves
  have hwell' : ∀ thread, twoShards.SavesWell
      (((twoShards.over backend').performAll (Command.allWithin _ _ (oddScripts thread))).exchanges
        (World.serve (twoShards.over backend').setting)
        (oneEntry.withMap (backend'.load [(0, 9)]))) := by
    have hall : ∀ thread, (((twoShards.over backend').performAll
        (Command.allWithin _ _ (oddScripts thread))).exchanges
        (World.serve (twoShards.over backend').setting)
        (oneEntry.withMap (backend'.load [(0, 9)]))).all (!·.fails) = true := by
      decide +kernel
    intro thread _
    simpa using hall thread
  let laws := Backend.shardedLaws (K := UInt8) (V := UInt8) 2 1 UInt8.toNat
  let laws' := Backend.lockedLaws (K := UInt8) (V := UInt8) 2 UInt8.toNat
  have hsame : ∀ key, backend'.get key (backend'.load [(0, 9)]) =
      twoShards.backend.get key oneEntry.map := fun key =>
    (laws'.get_load_find _ key).trans (laws.get_load_find _ key).symm
  obtain ⟨halone, -, hlength, -⟩ := threads_do_as_alone laws hone (laws.valid_load [(0, 9)]) rfl
    hrun hwell laws' (laws'.valid_load [(0, 9)]) hsame hwell'
  refine ⟨moves, threads, hplay, fun thread => ?_, ?_, ?_, ?_⟩
  · obtain ⟨outcomes, houtcomes⟩ := hdone thread
    rw [← (halone thread outcomes houtcomes).1]
    exact houtcomes
  · obtain ⟨outcomes, houtcomes⟩ := hdone 0
    exact ((halone 0 outcomes houtcomes).2 1 rfl).trans rfl
  · obtain ⟨outcomes, houtcomes⟩ := hdone 1
    exact ((halone 1 outcomes houtcomes).2 3 rfl).trans rfl
  · exact (hlength hdone).trans rfl

end Store

end SnapshotStore
