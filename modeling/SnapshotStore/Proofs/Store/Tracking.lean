import Mathlib.Algebra.GroupWithZero.Nat
import SnapshotStore.Proofs.Backend.Laws
import SnapshotStore.Proofs.Store.Telling

namespace SnapshotStore

variable {K V S σ ω α β ρ : Type}

def Backend.bindings (backend : Backend K V S) (map : S) : K → Option V :=
  fun key => backend.get key map

namespace Backend

variable [DecidableEq K] {backend : Backend K V S} (laws : backend.Laws) {map : S}

theorem bindings_insert (hvalid : laws.Valid map) (key : K) (value : V) :
    backend.bindings (backend.insert key value map).2 =
      Function.update (backend.bindings map) key (some value) := by
  funext k
  rw [bindings, laws.get_insert key value k hvalid, Function.update_apply]
  simp only [eq_comm, bindings]

theorem bindings_remove (hvalid : laws.Valid map) (key : K) :
    backend.bindings (backend.remove key map).2 =
      Function.update (backend.bindings map) key none := by
  funext k
  rw [bindings, laws.get_remove key k hvalid, Function.update_apply]
  simp only [eq_comm, bindings]

theorem bindings_clear (hvalid : laws.Valid map) :
    backend.bindings (backend.clear map) = fun _ => none :=
  funext fun key => laws.get_clear hvalid key

end Backend

namespace Memory

variable (setting : Setting K V S σ) (world : World S σ)

theorem run_snapshotFrom (segments : List Nat) :
    (snapshotFrom segments).run (World.serve setting) world =
      (segments.flatMap fun segment => setting.backend.copy segment world.map, world) := by
  induction segments with
  | nil => rfl
  | cons segment rest ih =>
      rw [snapshotFrom, Routine.run_bind, Routine.run_ask]
      simp only [World.serve]
      rw [Routine.run_bind, ih]
      rfl

theorem run_wipeFrom {bulk : Bulk K S} (hbulk : setting.backend.bulk = some bulk)
    (segments : List Nat) :
    (wipeFrom segments).run (World.serve setting) world =
      ((), { world with
        map := segments.foldl (fun map segment => bulk.wipe segment map) world.map }) := by
  induction segments generalizing world with
  | nil => rfl
  | cons segment rest ih =>
      rw [wipeFrom, Routine.run_bind, Routine.run_ask]
      simp only [World.serve, World.wipe, hbulk]
      rw [ih]
      rfl

theorem run_removeAll (entries : List (K × V)) :
    (removeAll entries).run (World.serve setting) world =
      ((), { world with
        map := entries.foldl (fun map entry => (setting.backend.remove entry.1 map).2)
          world.map }) := by
  induction entries generalizing world with
  | nil => rfl
  | cons entry rest ih =>
      rw [removeAll, Routine.run_bind, Routine.run_ask]
      simp only [World.serve]
      rw [ih]
      rfl

theorem run_clear : (clear setting.backend).run (World.serve setting) world =
    ((), { world with map := setting.backend.clear world.map }) := by
  unfold clear Backend.clear
  cases hbulk : setting.backend.bulk with
  | some bulk => exact run_wipeFrom setting world hbulk _
  | none =>
      simp only
      rw [Routine.run_bind, snapshot, run_snapshotFrom]
      exact run_removeAll setting world _

theorem run_countFrom (segments : List Nat) :
    (countFrom segments).run (World.serve setting) world =
      ((segments.map fun segment => world.count setting segment).sum, world) := by
  induction segments with
  | nil => rfl
  | cons segment rest ih =>
      rw [countFrom, Routine.run_bind, Routine.run_ask]
      simp only [World.serve]
      rw [Routine.run_bind, ih]
      rfl

theorem run_size : (size setting.backend).run (World.serve setting) world =
    (setting.backend.size world.map, world) := by
  unfold size Backend.size
  cases hbulk : setting.backend.bulk with
  | some bulk =>
      simp only
      rw [run_countFrom, List.sum_eq_foldl, List.foldl_map]
      simp only [World.count, hbulk]
  | none =>
      simp only
      rw [Routine.run_bind, snapshot, run_snapshotFrom]
      rfl

theorem run_contains (key : K) : (contains setting.backend key).run (World.serve setting) world =
    (setting.backend.contains key world.map, world) := by
  unfold contains
  cases hbulk : setting.backend.bulk with
  | some bulk => rfl
  | none =>
      simp only [Backend.contains, hbulk]
      rfl

theorem silence_clear (backend : Backend K V S) :
    (clear backend : Routine K V ω Unit).Returns (silence K V) () :=
  Routine.returns_clear backend (fun _ => ⟨trivial, fun _ => rfl⟩)
    (fun _ _ => ⟨trivial, fun _ => rfl⟩) fun _ => ⟨trivial, fun _ => rfl⟩

end Memory

namespace Store

open SnapshotStore.Action

section Tracks

variable [DecidableEq K] {store : Store K V S σ} {laws : store.backend.Laws}
  {world middle after : World S σ} {exchanges : List (Exchange K V)}

-- The listeners are told what a routine does to the map, if nobody else uses the store.
def Logged (laws : store.backend.Laws) (routine : Routine K V (World S σ) α) (world : World S σ) :
    Prop :=
  laws.Valid world.map → laws.Valid (routine.run (World.serve store.setting) world).2.map ∧
    Logs store.listeners.length (store.backend.bindings world.map)
      (routine.exchanges (World.serve store.setting) world)
      (store.backend.bindings (routine.run (World.serve store.setting) world).2.map)

abbrev Tracks (laws : store.backend.Laws) (action : Action K V (World S σ) α)
    (world : World S σ) : Prop :=
  Logged laws action.run world

theorem logged_bind {routine : Routine K V (World S σ) α} {next : α → Routine K V (World S σ) β}
    (h : Logged laws routine world)
    (hnext : Logged laws (next (routine.run (World.serve store.setting) world).1)
      (routine.run (World.serve store.setting) world).2) :
    Logged laws (routine >>= next) world := by
  intro hvalid
  obtain ⟨hmiddle, hlogs⟩ := h hvalid
  obtain ⟨hafter, hlater⟩ := hnext hmiddle
  rw [Routine.run_bind, Routine.exchanges_bind]
  exact ⟨hafter, hlogs.append hlater⟩

theorem logged_quiet {routine : Routine K V (World S σ) α} (h : routine.Returns (quiet K V) ())
    (world : World S σ) : Logged laws routine world := by
  intro hvalid
  rw [Routine.run_quiet h store.setting world]
  exact ⟨hvalid, .silent (Routine.told_silence (Routine.silence_of_quiet h) _ _)⟩

theorem tracks_of_ends {action : Action K V (World S σ) α} {outcome : Except Failure α}
    (h : action.Ends (World.serve store.setting) world exchanges outcome after)
    (htracks : laws.Valid world.map → laws.Valid after.map ∧
      Logs store.listeners.length (store.backend.bindings world.map) exchanges
        (store.backend.bindings after.map)) :
    Tracks laws action world := by
  have hafter : (action.run.run (World.serve store.setting) world).2 = after :=
    congrArg Prod.snd h.exec
  intro hvalid
  rw [hafter, h.exchanges]
  exact htracks hvalid

theorem tracks_ofRoutine {routine : Routine K V (World S σ) α} (h : Logged laws routine world) :
    Tracks laws (ofRoutine routine) world :=
  logged_bind h (logged_quiet (Routine.returns_pure _) _)

-- What comes after a failure is not run.
theorem tracks_bind {action : Action K V (World S σ) α} {next : α → Action K V (World S σ) β}
    (h : Tracks laws action world)
    (hnext : ∀ answer after, action.exec (World.serve store.setting) world = (.ok answer, after) →
      Tracks laws (next answer) after) :
    Tracks laws (action >>= next) world := by
  unfold Tracks
  rw [ExceptT.run_bind]
  apply logged_bind h
  rcases hexec : action.run.run (World.serve store.setting) world with ⟨failure | answer, after⟩
  · exact logged_quiet (Routine.returns_pure _) after
  · exact hnext answer after hexec

theorem tracks_quiet {action : Action K V (World S σ) α} (h : action.Returns (quiet K V) ())
    (world : World S σ) : Tracks laws action world :=
  logged_quiet h world

theorem tracks_pure (answer : α) (world : World S σ) :
    Tracks laws (pure answer : Action K V (World S σ) α) world :=
  tracks_quiet (returns_pure answer) world

theorem tracks_map (f : α → β) {action : Action K V (World S σ) α} (h : Tracks laws action world) :
    Tracks laws (f <$> action) world := by
  rw [map_eq_pure_bind]
  exact tracks_bind h fun answer after _ => tracks_pure (f answer) after

theorem tracks_get_bind {key : K} {next : Option V → Action K V (World S σ) β}
    (hnext : Tracks laws (next (store.backend.get key world.map)) world) :
    Tracks laws (ask (.get key) >>= next) world := by
  apply tracks_bind (tracks_quiet (returns_ask (leftByLooks_quiet.get key)) world)
  intro answer after hexec
  obtain ⟨hanswer, rfl⟩ := Prod.mk.inj hexec
  obtain rfl := Except.ok.inj hanswer
  exact hnext

variable (hlisteners : ∀ listener ∈ store.listeners, listener.NeverFails)

include hlisteners

-- A change of which the listeners are told before anything else happens.
theorem tracks_change {change : Action K V (World S σ) α} {answer : α}
    {next : α → Action K V (World S σ) β} {rest : Action K V (World S σ) β} (event : Event K V)
    (h : change.Ends (World.serve store.setting) world exchanges (.ok answer) middle)
    (hsilent : ∀ position, told position exchanges = [])
    (hvalid : laws.Valid world.map → laws.Valid middle.map)
    (hfits : laws.Valid world.map → event.Fits (store.backend.bindings world.map))
    (hreplay : laws.Valid world.map →
      event.replay (store.backend.bindings world.map) = store.backend.bindings middle.map)
    (hnext : next answer = do
      store.tell event
      rest)
    (hrest : ∀ after, Tracks laws rest after) :
    Tracks laws (change >>= next) world := by
  intro hworld
  obtain ⟨notices, after, htell, hmap, heach⟩ := ends_tell hlisteners event middle
  have hlog : Logs store.listeners.length (store.backend.bindings world.map)
      (exchanges ++ notices) (store.backend.bindings after.map) := by
    refine (Logs.silent hsilent).append ⟨[event], heach, ?_⟩
    rw [hmap, ← hreplay hworld]
    exact .single (hfits hworld)
  obtain ⟨hlast, hlater⟩ := hrest after (hmap ▸ hvalid hworld)
  have hends : (next answer).Ends (World.serve store.setting) middle _ _ _ :=
    hnext ▸ htell.bind (rest.ends_exec (World.serve store.setting) after)
  refine tracks_of_ends (h.bind hends) (fun _ => ⟨hlast, ?_⟩) hworld
  rw [← List.append_assoc]
  exact hlog.append hlater

theorem tracks_tell (event : Event K V) (hfits : ∀ bindings, event.Fits bindings)
    (hreplay : ∀ bindings : K → Option V, event.replay bindings = bindings)
    (world : World S σ) : Tracks laws (store.tell event) world := by
  obtain ⟨exchanges, after, htell, hmap, htold⟩ := ends_tell hlisteners event world
  refine tracks_of_ends htell fun hvalid => ⟨hmap ▸ hvalid, [event], htold, ?_⟩
  rw [hmap]
  have hlog := Changelog.single (hfits (store.backend.bindings world.map))
  rwa [hreplay] at hlog

theorem tracks_report (failure : Failure) (world : World S σ) :
    Tracks laws (store.report failure) world := by
  have hraise : ∀ world, Tracks laws (raise failure : Action K V (World S σ) Unit) world :=
    tracks_quiet (returns_raise failure)
  cases failure with
  | store error =>
      have htell : Tracks laws (store.tell (.flushError error)) world :=
        tracks_tell hlisteners (.flushError error) (fun _ => trivial) (fun _ => rfl) world
      exact tracks_bind htell fun _ after _ => hraise after
  | exception text => exact hraise world
  | unknown => exact hraise world

theorem tracks_flush (world : World S σ) : Tracks laws store.flush world := by
  have hsave := store.persistence.quiet_saveFrom (ω := World S σ) store.backend
  apply tracks_bind (tracks_quiet (returns_ofRoutine hsave) world)
  rintro (failure | entries) after -
  · exact tracks_report hlisteners failure after
  · exact tracks_tell hlisteners (.flush entries) (fun _ => trivial) (fun _ => rfl) after

theorem tracks_settle (world : World S σ) : Tracks laws store.settle world := by
  unfold settle
  cases store.policy with
  | writeThrough => exact tracks_flush hlisteners world
  | background milliseconds =>
      have hnudge : (ask .nudge : Action K V (World S σ) Bool).Returns (quiet K V) () :=
        returns_ask ⟨trivial, fun _ => rfl⟩
      exact tracks_quiet (returns_bind hnudge fun _ => returns_pure _) world
  | callerDriven => exact tracks_pure () world

theorem tracks_settle_pure (answer : α) (world : World S σ) :
    Tracks laws (do
      store.settle
      pure answer) world :=
  tracks_bind (tracks_settle hlisteners world) fun _ after _ => tracks_pure answer after

theorem tracks_put (key : K) (value : V) (world : World S σ) :
    Tracks laws (store.put key value) world := by
  refine tracks_change hlisteners _ (ends_ask _ (.insert key value) world) (fun _ => rfl)
    (laws.valid_insert key value) ?_ ?_ rfl fun after => tracks_pure _ after
  · intro hvalid
    have hfits := Event.fits_ofPut (store.backend.bindings world.map) key value
    rwa [Backend.bindings, ← laws.insert_fst key value hvalid] at hfits
  · intro hvalid
    rw [Event.replay_ofPut]
    exact (Backend.bindings_insert laws hvalid key value).symm

theorem tracks_insert (key : K) (value : V) (world : World S σ) :
    Tracks laws (store.insert key value) world :=
  tracks_bind (tracks_put hlisteners key value world) fun previous after _ =>
    tracks_settle_pure hlisteners previous after

theorem tracks_putAll (entries : List (K × V)) (world : World S σ) :
    Tracks laws (store.putAll entries) world := by
  induction entries generalizing world with
  | nil => exact tracks_pure () world
  | cons entry rest ih =>
      exact tracks_bind (tracks_put hlisteners entry.1 entry.2 world) fun _ after _ => ih after

theorem tracks_extend (entries : List (K × V)) (world : World S σ) :
    Tracks laws (store.extend entries) world :=
  tracks_bind (tracks_putAll hlisteners entries world) fun _ after _ =>
    tracks_settle hlisteners after

theorem tracks_remove (key : K) (world : World S σ) :
    Tracks laws (store.remove key) world := by
  have hends := ends_ask (World.serve store.setting) (Request.remove (V := V) key) world
  cases hfound : (store.backend.remove key world.map).1 with
  | some value =>
      refine tracks_change hlisteners (.remove key) hends (fun _ => rfl) (laws.valid_remove key)
        ?_ ?_ ?_ fun after => tracks_settle_pure hlisteners (some value) after
      · intro hvalid
        rw [laws.remove_fst key hvalid] at hfound
        simp [Event.Fits, Backend.bindings, hfound]
      · exact fun hvalid => (Backend.bindings_remove laws hvalid key).symm
      · have hanswer : (world.serve store.setting (.remove key)).1 = some value := hfound
        rw [hanswer]
        rfl
  | none =>
      have hremove : Tracks laws (ask (.remove key)) world := by
        refine tracks_of_ends hends fun hvalid => ⟨laws.valid_remove key hvalid, ?_⟩
        rw [laws.remove_fst key hvalid] at hfound
        have hsame : store.backend.bindings (store.backend.remove key world.map).2 =
            store.backend.bindings world.map := by
          rw [Backend.bindings_remove laws hvalid, ← hfound]
          exact Function.update_eq_self key (store.backend.bindings world.map)
        exact hsame ▸ .silent fun _ => rfl
      apply tracks_bind hremove
      intro removed after hexec
      obtain rfl : (store.backend.remove key world.map).1 = removed :=
        Except.ok.inj (Prod.mk.inj hexec).1
      rw [hfound]
      exact tracks_settle_pure hlisteners none after

theorem tracks_clear (world : World S σ) : Tracks laws store.clear world := by
  have hends := ends_ofRoutine (World.serve store.setting) (Memory.clear store.backend) world
  have hrun := Memory.run_clear store.setting world
  rw [show store.setting.backend = store.backend from rfl] at hrun
  rw [hrun] at hends
  refine tracks_change hlisteners .clear hends ?_ laws.valid_clear (fun _ => trivial) ?_ rfl
    (tracks_settle hlisteners)
  · exact Routine.told_silence (Memory.silence_clear store.backend) _ _
  · exact fun hvalid => (Backend.bindings_clear laws hvalid).symm

theorem tracks_update {key : K} {mutate : V → Action K V (World S σ) (V × ρ)}
    (hmutate : ∀ current, store.backend.get key world.map = some current →
      Tracks laws (mutate current) world)
    (hminds : ∀ current made after, store.backend.get key world.map = some current →
      (mutate current).exec (World.serve store.setting) world = (.ok made, after) →
      store.backend.get key after.map = some current) :
    Tracks laws (store.update key mutate) world := by
  apply tracks_get_bind
  cases hcurrent : store.backend.get key world.map with
  | none => exact tracks_pure none world
  | some current =>
      apply tracks_bind (hmutate current hcurrent)
      intro made after hexec
      have hbound := hminds current made after hcurrent hexec
      refine tracks_change hlisteners (.update key current made.1)
        (ends_ask _ (.insert key made.1) after) (fun _ => rfl) (laws.valid_insert key made.1)
        (fun _ => hbound) ?_ rfl (tracks_settle_pure hlisteners (some made.2))
      exact fun hvalid => (Backend.bindings_insert laws hvalid key made.1).symm

-- What is done under a key that was found unbound.
theorem tracks_fill (key : K) (value : V) (answer : ρ) (world : World S σ) :
    Tracks laws (do
      let _ ← store.put key value
      store.settle
      pure answer) world :=
  tracks_bind (tracks_put hlisteners key value world) fun _ after _ =>
    tracks_settle_pure hlisteners answer after

theorem tracks_getOrInsertWith {key : K} {make : Action K V (World S σ) (V × ρ)}
    (hmake : store.backend.get key world.map = none → Tracks laws make world) :
    Tracks laws (store.getOrInsertWith key make) world := by
  apply tracks_get_bind
  cases hfound : store.backend.get key world.map with
  | some existing => exact tracks_pure (existing, none) world
  | none =>
      exact tracks_bind (hmake hfound) fun made after _ =>
        tracks_fill hlisteners key made.1 (made.1, some made.2) after

theorem tracks_getOrInsert (key : K) (value : V) (world : World S σ) :
    Tracks laws (store.getOrInsert key value) world := by
  apply tracks_get_bind
  cases store.backend.get key world.map with
  | some existing => exact tracks_pure existing world
  | none => exact tracks_fill hlisteners key value value world

end Tracks

end Store

end SnapshotStore
