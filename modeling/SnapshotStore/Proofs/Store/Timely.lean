import SnapshotStore.Proofs.Store.Closed
import SnapshotStore.Proofs.Store.Sights

namespace SnapshotStore

variable {K V S σ ω α β : Type}

-- Entries that are set one after the other, the later ones over the earlier ones.
def setAll [DecidableEq K] (entries : List (K × V)) (bindings : K → Option V) : K → Option V :=
  entries.foldl (fun bindings entry => Function.update bindings entry.1 (some entry.2)) bindings

namespace Backend

variable [DecidableEq K] {backend : Backend K V S} (laws : backend.Laws) {map : S}

theorem insertAll_spec (hvalid : laws.Valid map) (entries : List (K × V)) :
    laws.Valid (backend.insertAll entries map) ∧
    backend.bindings (backend.insertAll entries map) = setAll entries (backend.bindings map) := by
  induction entries generalizing map with
  | nil => exact ⟨hvalid, rfl⟩
  | cons entry rest ih =>
      obtain ⟨hrest, hbindings⟩ := ih (laws.valid_insert entry.1 entry.2 hvalid)
      refine ⟨hrest, hbindings.trans ?_⟩
      rw [bindings_insert laws hvalid]
      rfl

omit [DecidableEq K] in
theorem landing_puts (entries : List (K × V)) (map : S) :
    Report.landing (backend.puts entries map) map = backend.insertAll entries map := by
  induction entries generalizing map with
  | nil => rfl
  | cons entry rest ih => exact ih _

end Backend

namespace Command

variable [DecidableEq K]

-- What is done beside the store is nothing to its map.
theorem effectAll_of_mindsDesk {inner : List (Command K V (World S σ) β)}
    (h : ∀ command ∈ inner, command.MindsDesk) (bindings : K → Option V) :
    effectAll inner bindings = bindings := by
  induction inner with
  | nil => rfl
  | cons command rest ih =>
      rw [List.forall_mem_cons] at h
      cases command with
      | aside act => exact ih h.2
      | _ => exact h.1.elim

theorem landing_reports {backend : Backend K V S} (laws : backend.Laws) {map : S}
    (hvalid : laws.Valid map) {command : Command K V (World S σ) β} (h : command.Abstains) :
    backend.bindings (Report.landing (command.reports backend map) map) =
      command.effect (backend.bindings map) := by
  have hset (key : K) (value : V) := Backend.bindings_insert laws hvalid key value
  cases command with
  | insert key value => exact hset key value
  | clear => exact Backend.bindings_clear laws hvalid
  | extend batch =>
      refine (congrArg backend.bindings (Backend.landing_puts batch map)).trans ?_
      exact (Backend.insertAll_spec laws hvalid batch).2
  | remove key =>
      simp only [reports, effect]
      rw [← Backend.bindings_remove laws hvalid key]
      cases hremoved : (backend.remove key map).1 with
      | none => exact (Backend.bindings_remove_unbound laws hvalid hremoved).symm
      | some value => rfl
  | update key inner edit =>
      simp only [reports, effect, effectAll_of_mindsDesk h, Backend.bindings]
      cases backend.get key map with
      | none => rfl
      | some current =>
          dsimp only
          cases edit current with
          | error failure => rfl
          | ok value => exact hset key value
  | getOrInsert key value =>
      simp only [reports, effect, Backend.bindings]
      cases backend.get key map with
      | none => exact hset key value
      | some existing => rfl
  | getOrInsertWith key inner make =>
      simp only [reports, effect, effectAll_of_mindsDesk h, Backend.bindings]
      cases backend.get key map with
      | some existing => rfl
      | none =>
          cases make with
          | error failure => rfl
          | ok value => exact hset key value
  | _ => rfl

end Command

-- What a listener finds while it is told of something that comes of a command, given the world
-- before the command. A change is there already when it is reported, but it is not saved yet.
def Sighting.IsTimely [DecidableEq K] (sighting : Sighting K V S) (store : Store K V S σ)
    (command : Command K V ω β) (before : World S σ) : Prop :=
  match sighting.event with
  | .insert key value =>
    store.backend.get key sighting.map = some value ∧ sighting.files = before.files
  | .update key _ value =>
    store.backend.get key sighting.map = some value ∧ sighting.files = before.files
  | .remove key => store.backend.get key sighting.map = none ∧ sighting.files = before.files
  | .clear => store.backend.snapshot sighting.map = [] ∧ sighting.files = before.files
  | .flush written =>
    store.backend.bindings sighting.map = command.effect (store.backend.bindings before.map) ∧
    written = store.backend.size sighting.map ∧
    ∃ entries, store.persistence.load sighting.files = .ok entries ∧
      entries.Perm (store.backend.snapshot sighting.map)
  | .flushError _ =>
    store.backend.bindings sighting.map = command.effect (store.backend.bindings before.map) ∧
    sighting.files.look store.path = before.files.look store.path

theorem Report.Tell.replays [DecidableEq K] {backend : Backend K V S}
    {reports : List (Report K V S)} {map : S} (h : Report.Tell backend reports map)
    {report : Report K V S} (hmem : report ∈ reports) : report.event.isMutation = true ∧
      ∃ bindings, backend.bindings report.map = report.event.replay bindings := by
  induction reports generalizing map with
  | nil => cases hmem
  | cons first rest ih =>
      rcases List.mem_cons.mp hmem with rfl | hrest
      · exact ⟨h.1, _, h.2.1⟩
      · exact ih h.2.2 hrest

namespace Store

variable {store : Store K V S σ}

section

variable [DecidableEq K] {laws : store.backend.Laws} {world : World S σ} {map : S}

theorem isTimely_of_replay (command : Command K V ω β) (hvalid : laws.Valid map)
    {event : Event K V} (hmutation : event.isMutation = true) {bindings : K → Option V}
    (hreplay : store.backend.bindings map = event.replay bindings) :
    (⟨event, map, world.files⟩ : Sighting K V S).IsTimely store command world := by
  cases event with
  | insert key value => exact ⟨(congrFun hreplay key).trans (Function.update_self ..), rfl⟩
  | update key old value => exact ⟨(congrFun hreplay key).trans (Function.update_self ..), rfl⟩
  | remove key => exact ⟨(congrFun hreplay key).trans (Function.update_self ..), rfl⟩
  | clear =>
      refine ⟨List.eq_nil_iff_forall_not_mem.mpr ?_, rfl⟩
      rintro ⟨key, value⟩ hmem
      have hget := (laws.mem_snapshot hvalid key value).mp hmem
      cases hget.symm.trans (congrFun hreplay key)
  | flush written => cases hmutation
  | flushError error => cases hmutation

theorem isTimely_of_showsSave (hserializer : store.persistence.serializer.RoundTrips)
    (command : Command K V ω β) {sighting : Sighting K V S}
    (hbindings : store.backend.bindings map = command.effect (store.backend.bindings world.map))
    (h : ShowsSave laws world.files map sighting) : sighting.IsTimely store command world := by
  obtain ⟨event, seen, files⟩ := sighting
  obtain ⟨hvalid, hseen, hfiles⟩ := h
  cases event with
  | flush written =>
      obtain ⟨⟨bytes, hbytes, hlook⟩, hwritten⟩ := hfiles
      refine ⟨hseen.trans hbindings, hwritten.trans (laws.size_eq hvalid).symm, ?_⟩
      exact Persistence.load_serialized hserializer (laws.nodup_snapshot hvalid) hbytes hlook
  | flushError error => exact ⟨hseen.trans hbindings, hfiles.look⟩
  | _ => exact hfiles.elim

theorem Beholds.isTimely {position : Nat} {command : Command K V (World S σ) β}
    (hserializer : store.persistence.serializer.RoundTrips) (hvalid : laws.Valid world.map)
    (habstains : command.Abstains) (h : Beholds laws position (store.perform command) world
      (command.reports store.backend world.map)) :
    ∀ sighting ∈ (store.perform command).sightings store.setting position world,
      sighting.IsTimely store command world := by
  intro sighting hmem
  obtain ⟨i, hi⟩ := List.mem_iff_getElem?.mp hmem
  rcases h.sees.cases_getElem? hi with ⟨hseen, ⟨report, hreport, rfl⟩ | ⟨-, hsave⟩⟩
  · have htell := tell_reports laws hvalid command
    obtain ⟨hmutation, bindings, hreplay⟩ := htell.replays (List.mem_of_getElem? hreport)
    exact isTimely_of_replay command hseen hmutation hreplay
  · have hlanding := Command.landing_reports laws hvalid habstains
    exact isTimely_of_showsSave hserializer command hlanding hsave

theorem Beholds.batch {position : Nat} {entries : List (K × V)} (hvalid : laws.Valid world.map)
    (h : Beholds laws position (store.perform (.extend entries : Command K V (World S σ) β)) world
      (store.backend.puts entries world.map)) {i : Nat} {entry : K × V}
    (hentry : entries[i]? = some entry) {sighting : Sighting K V S}
    (hi : ((store.perform (.extend entries : Command K V (World S σ) β)).sightings store.setting
      position world)[i]? = some sighting) :
    sighting.event = .ofPut entry.1
      (setAll (entries.take i) (store.backend.bindings world.map) entry.1) entry.2 ∧
    store.backend.bindings sighting.map =
      setAll (entries.take (i + 1)) (store.backend.bindings world.map) := by
  have hputs := store.backend.getElem?_puts entries world.map i
  rw [hentry] at hputs
  obtain ⟨hbefore, hbindings⟩ := Backend.insertAll_spec laws hvalid (entries.take i)
  obtain ⟨-, hafter⟩ := Backend.insertAll_spec laws hvalid (entries.take (i + 1))
  rcases h.sees.cases_getElem? hi with ⟨-, ⟨report, hreport, rfl⟩ | ⟨rfl, -⟩⟩
  · obtain rfl := Option.some.inj (hreport.symm.trans hputs)
    refine ⟨?_, hafter⟩
    dsimp only
    rw [laws.insert_fst _ _ hbefore, ← hbindings]
    rfl
  · rw [List.getElem?_eq_none (Nat.le_refl _)] at hputs
    cases hputs

end

end Store

-- Any commands on a store that has just been opened, on any backend, with any failures of its
-- saves, with callbacks that do not touch the store and listeners that may fail. A flush by a
-- worker is a command like any other.
theorem listeners_look_in_time [DecidableEq K] {backend : Backend K V S} (laws : backend.Laws)
    {builder : Builder K V σ} {serializer : Bool → Serializer K V}
    (hserializer : (serializer builder.pretty).RoundTrips) {files : FileTree}
    (hclear : files.Clear builder.path) {opened : Opened K V S σ}
    (hopened : builder.build backend serializer files = .ok opened) {world : World S σ}
    (hfiles : world.files = files) (hmap : world.map = opened.map)
    {earlier : List (Command K V (World S σ) β)} {command : Command K V (World S σ) β}
    (hearlier : ∀ before ∈ earlier, before.Abstains) (hcommand : command.Abstains)
    (later : List (Command K V (World S σ) β)) {position : Nat}
    (hlt : position < builder.listeners.length) :
    let store := opened.store
    let before := ((store.performAll earlier).run (World.serve store.setting) world).2
    let after := ((store.perform command).exec (World.serve store.setting) before).2
    let seen := (store.perform command).sightings store.setting position before
    -- what is seen while the command is run, which is once for each event
    (store.performAll (earlier ++ command :: later)).sightings store.setting position world =
      (store.performAll earlier).sightings store.setting position world ++
        (seen ++ (store.performAll later).sightings store.setting position after) ∧
    seen.map Sighting.event =
      told position ((store.perform command).run.exchanges (World.serve store.setting) before) ∧
    (∀ sighting ∈ seen, sighting.IsTimely store command before) ∧
    -- the entries of a batch are set and reported one by one
    ∀ entries, command = .extend entries → ∀ i entry sighting, entries[i]? = some entry →
      seen[i]? = some sighting →
      sighting.event = .ofPut entry.1
        (setAll (entries.take i) (store.backend.bindings before.map) entry.1) entry.2 ∧
      store.backend.bindings sighting.map =
        setAll (entries.take (i + 1)) (store.backend.bindings before.map) := by
  obtain ⟨-, entries, hload, hfill⟩ := Builder.build_eq_ok hopened
  obtain ⟨hstore, hentries, -⟩ := Builder.fill_eq_ok hfill
  obtain ⟨store, map, worker⟩ := opened
  dsimp only at hstore hentries
  subst hstore hentries
  intro store before after seen
  have hstart : @Store.Fit K V S σ store _ laws world :=
    ⟨hmap ▸ laws.valid_load entries, hfiles ▸ hclear,
      hfiles ▸ Persistence.readable_of_load hload⟩
  have hfit := store.fit_performAll hlt hstart hearlier
  have hbeholds := Store.beholds_perform hlt hfit hcommand
  refine ⟨?_, Routine.map_event_sightings _ _, hbeholds.isTimely hserializer hfit.valid hcommand, ?_⟩
  · rw [Store.performAll_sightings_append, Store.performAll_sightings_cons]
  · rintro batch rfl i entry sighting hentry hi
    exact hbeholds.batch hfit.valid hentry hi

-- A store with one listener, opened on a file with one entry. The first save fails.
def attended : Builder UInt8 UInt8 Unit where
  path := ⟨"db"⟩
  policy := .writeThrough
  listeners := [.silent]

def attendedOpened : Opened UInt8 UInt8 (Shards UInt8 UInt8 4 4) Unit where
  store := ⟨Store.noted.backend, ⟨⟨"db"⟩, .pairs⟩, .writeThrough, false, false, [.silent]⟩
  map := Store.noted.backend.load [(0, 9)]
  worker := none

def attendedStart : World (Shards UInt8 UInt8 4 4) Unit where
  files := ⟨.ofEntries [(["db"], .file [0, 9])], [], []⟩
  channel := default
  mishaps save := if save = 0 then .opening .accessDenied else .none
  desk := ()
  map := attendedOpened.map

def unsavedInsert : Command UInt8 UInt8 (World (Shards UInt8 UInt8 4 4) Unit) Unit :=
  .insert 0 7

def savedBatch : Command UInt8 UInt8 (World (Shards UInt8 UInt8 4 4) Unit) Unit :=
  .extend [(1, 10), (1, 11)]

def afterUnsavedInsert : World (Shards UInt8 UInt8 4 4) Unit :=
  ((attendedOpened.store.performAll [unsavedInsert]).run
    (World.serve attendedOpened.store.setting) attendedStart).2

def seenOfBatch : List (Sighting UInt8 UInt8 (Shards UInt8 UInt8 4 4)) :=
  (attendedOpened.store.perform savedBatch).sightings attendedOpened.store.setting 0
    afterUnsavedInsert

theorem listeners_look_in_time_savedBatch :
    seenOfBatch.map Sighting.event = [.insert 1 10, .update 1 10 11, .flush 2] ∧
    seenOfBatch.map (fun sighting => sighting.files.look ⟨"db"⟩) =
      [.ok (some (.file [0, 9])), .ok (some (.file [0, 9])), .ok (some (.file [0, 7, 1, 11]))] ∧
    (∀ sighting ∈ seenOfBatch,
      sighting.IsTimely attendedOpened.store savedBatch afterUnsavedInsert) ∧
    ∀ sighting, seenOfBatch[0]? = some sighting →
      attendedOpened.store.backend.bindings sighting.map =
        setAll [(1, 10)] (attendedOpened.store.backend.bindings afterUnsavedInsert.map) := by
  have hclear : attendedStart.files.Clear attended.path :=
    FileTree.clear_of_resolve ["db.json.tmp"] (.found ["db"] (.file [0, 9])) rfl
      (FileTree.isPlain_of_none rfl) rfl (by decide)
  have hopened : attended.build (.sharded 4 4 UInt8.toNat) (fun _ => .pairs)
      attendedStart.files = .ok attendedOpened := rfl
  have habstains : ∀ before ∈ [unsavedInsert], before.Abstains :=
    List.forall_mem_singleton.mpr trivial
  obtain ⟨-, -, htimely, hbatch⟩ := listeners_look_in_time (Backend.shardedLaws 4 4 UInt8.toNat)
    Serializer.roundTrips_pairs hclear hopened rfl rfl habstains
    (show savedBatch.Abstains from trivial) [] (show 0 < attended.listeners.length by decide)
  exact ⟨rfl, rfl, htimely, fun sighting hfirst => (hbatch _ rfl 0 (1, 10) sighting rfl hfirst).2⟩

end SnapshotStore
