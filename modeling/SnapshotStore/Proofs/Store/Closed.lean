import SnapshotStore.Proofs.Store.CallerDriven
import SnapshotStore.Proofs.Store.Looking
import SnapshotStore.Proofs.Store.Tracking

namespace SnapshotStore

variable {K V S σ ω α β ρ : Type}

open SnapshotStore.Action (ask aside ofRoutine)

namespace Command

variable [DecidableEq K]

-- A key is bound to what a callback has made, if it has made anything.
def bind (key : K) (made : Except Failure V) (bindings : K → Option V) : K → Option V :=
  match made with
  | .ok value => Function.update bindings key (some value)
  | .error _ => bindings

mutual

def effect : Command K V ω β → (K → Option V) → K → Option V
  | .insert key value, bindings => Function.update bindings key (some value)
  | .remove key, bindings => Function.update bindings key none
  | .clear, _ => fun _ => none
  | .extend pairs, bindings =>
    pairs.foldl (fun bindings pair => Function.update bindings pair.1 (some pair.2)) bindings
  | .update key inner edit, bindings =>
    match bindings key with
    | none => bindings
    | some current => bind key (edit current) (effectAll inner bindings)
  | .getOrInsert key value, bindings =>
    match bindings key with
    | none => Function.update bindings key (some value)
    | some _ => bindings
  | .getOrInsertWith key inner make, bindings =>
    match bindings key with
    | none => bind key make (effectAll inner bindings)
    | some _ => bindings
  | _, bindings => bindings

def effectAll : List (Command K V ω β) → (K → Option V) → K → Option V
  | [], bindings => bindings
  | command :: rest, bindings => effectAll rest (command.effect bindings)

end

-- How a change ends: as its callback does, if that is called.
omit [DecidableEq K] in
def ending : Command K V ω β → (K → Option V) → Except Failure Unit
  | .update key _ edit, bindings =>
    match bindings key with
    | none => .ok ()
    | some current => (edit current).map fun _ => ()
  | .getOrInsertWith key _ make, bindings =>
    match bindings key with
    | none => make.map fun _ => ()
    | some _ => .ok ()
  | _, _ => .ok ()

mutual

-- What callbacks do beside the store leaves its map alone and opens no channel again.
def Respects : Command K V (World S σ) β → Prop
  | .update _ inner _ => RespectAll inner
  | .getOrInsertWith _ inner _ => RespectAll inner
  | .aside act => ∀ world, (act world).2.map = world.map ∧
    (world.channel.closed = true → (act world).2.channel.closed = true)
  | _ => True

def RespectAll : List (Command K V (World S σ) β) → Prop
  | [] => True
  | command :: rest => command.Respects ∧ RespectAll rest

end

end Command

-- The protocol of a single phase in which nothing happens beside a store with so many segments.
def unaided (K V : Type) (segments : Nat) : Protocol K V Unit where
  Allows _ request := ∀ segment, request = .wipe segment → segment < segments
  AllowsAside _ := False
  after _ _ _ := ()

theorem Routine.unaided_of_looks {segments : Nat} {routine : Routine K V ω α}
    (h : routine.Returns (looking K V) ()) : routine.Returns (unaided K V segments) () := by
  induction routine with
  | done answer => exact h
  | call request next ih =>
      refine ⟨?_, fun response => ih response (h.2 response)⟩
      have hwrites : request.WritesOnly fun _ => False := h.1
      rintro segment rfl
      exact hwrites.elim
  | aside act next ih => exact h.1.elim

-- Whether it is not a nudge that was accepted.
def Exchange.isMuted : Exchange K V → Bool
  | ⟨.nudge, accepted⟩ => !accepted
  | _ => true

namespace Store

theorem leftByWrites_unaided (segments : Nat) :
    LeftByWrites segments (unaided K V segments) () where
  get _ := ⟨fun _ => nofun, fun _ => rfl⟩
  contains _ := ⟨fun _ => nofun, fun _ => rfl⟩
  count _ := ⟨fun _ => nofun, fun _ => rfl⟩
  copy _ := ⟨fun _ => nofun, fun _ => rfl⟩
  notify _ _ := ⟨fun _ => nofun, fun _ => rfl⟩
  insert _ _ := ⟨fun _ => nofun, fun _ => rfl⟩
  remove _ := ⟨fun _ => nofun, fun _ => rfl⟩
  wipe _ hlt := ⟨fun _ h => Request.wipe.inj h ▸ hlt, fun _ => rfl⟩

section

variable [DecidableEq K] {store : Store K V S σ} {laws : store.backend.Laws}
  {world after : World S σ} {bindings : K → Option V}

structure Shut (laws : store.backend.Laws) (bindings : K → Option V) (world : World S σ) :
    Prop where
  valid : laws.Valid world.map
  bindings : store.backend.bindings world.map = bindings
  closed : world.channel.closed = true

-- Run on a world whose channel is closed, a routine has no nudge accepted, and it comes to an end
-- with such an answer and such bindings.
structure Fares (laws : store.backend.Laws) (routine : Routine K V (World S σ) α)
    (world : World S σ) (post : α → (K → Option V) → Prop) : Prop where
  muted : (routine.exchanges (World.serve store.setting) world).all Exchange.isMuted = true
  ends : ∃ bindings, Shut laws bindings (routine.run (World.serve store.setting) world).2 ∧
    post (routine.run (World.serve store.setting) world).1 bindings

theorem shut_serve (h : Shut laws bindings world) {request : Request K V}
    (hwipe : ∀ segment, request = .wipe segment → segment < store.backend.segments) :
    Shut laws (store.backend.bindings (world.serve store.setting request).2.map)
        (world.serve store.setting request).2 ∧
      Exchange.isMuted ⟨request, (world.serve store.setting request).1⟩ = true := by
  obtain ⟨accepted, hchannel⟩ := World.serve_channel store.setting request world
  have hvalid := valid_serve laws request h.valid hwipe
  refine ⟨⟨hvalid, rfl, ?_⟩, ?_⟩
  · rw [hchannel]
    exact h.closed
  · cases request with
    | nudge => simp [Exchange.isMuted, World.serve, Nudge.Channel.trySend_fst, h.closed]
    | _ => rfl

-- Where nothing happens beside the store, only the end is left to be looked at.
theorem fares_of_unaided {routine : Routine K V (World S σ) α} {post : α → (K → Option V) → Prop}
    (hunaided : routine.Returns (unaided K V store.backend.segments) ())
    (h : Shut laws bindings world)
    (hpost : post (routine.run (World.serve store.setting) world).1
      (store.backend.bindings (routine.run (World.serve store.setting) world).2.map)) :
    Fares laws routine world post := by
  induction routine generalizing world bindings with
  | done answer => exact ⟨rfl, _, ⟨h.valid, rfl, h.closed⟩, hpost⟩
  | call request next ih =>
      obtain ⟨hshut, hmuted⟩ := shut_serve h hunaided.1
      obtain ⟨hrest, hends⟩ := ih _ (hunaided.2 _) hshut hpost
      refine ⟨?_, hends⟩
      rw [Routine.exchanges, List.all_cons, hmuted, Bool.true_and]
      exact hrest
  | aside act next ih => exact hunaided.1.elim

theorem fares_bind {routine : Routine K V (World S σ) α} {next : α → Routine K V (World S σ) β}
    {post : α → (K → Option V) → Prop} {post' : β → (K → Option V) → Prop}
    (h : Fares laws routine world post)
    (hnext : ∀ answer bindings after, post answer bindings → Shut laws bindings after →
      Fares laws (next answer) after post') :
    Fares laws (routine >>= next) world post' := by
  obtain ⟨hmuted, bindings, hshut, hpost⟩ := h
  obtain ⟨hrest, hends⟩ := hnext _ _ _ hpost hshut
  constructor
  · rw [Routine.exchanges_bind, List.all_append, hmuted, Bool.true_and]
    exact hrest
  · rw [Routine.run_bind]
    exact hends

-- What comes after a failure is not run.
theorem fares_andThen {action : Action K V (World S σ) α} {next : α → Action K V (World S σ) β}
    {post : Except Failure α → (K → Option V) → Prop}
    {post' : Except Failure β → (K → Option V) → Prop}
    (h : Fares laws action.run world post)
    (hnext : ∀ answer bindings after, post (.ok answer) bindings → Shut laws bindings after →
      Fares laws (next answer).run after post')
    (hfails : ∀ failure bindings, post (.error failure) bindings →
      post' (.error failure) bindings) :
    Fares laws (action >>= next).run world post' := by
  rw [ExceptT.run_bind]
  apply fares_bind h
  rintro (failure | answer) bindings after hpost hshut
  · exact ⟨rfl, bindings, hshut, hfails failure bindings hpost⟩
  · exact hnext answer bindings after hpost hshut

-- An action ends like this and leaves such bindings.
def EndsIn (ending : Except Failure Unit) (bindings : K → Option V) (outcome : Except Failure α)
    (after : K → Option V) : Prop :=
  outcome.map (fun _ => ()) = ending ∧ after = bindings

abbrev Does (laws : store.backend.Laws) (action : Action K V (World S σ) α) (world : World S σ)
    (ending : Except Failure Unit) (bindings : K → Option V) : Prop :=
  Fares laws action.run world (EndsIn ending bindings)

theorem does_bind {action : Action K V (World S σ) α} {next : α → Action K V (World S σ) β}
    {ending : Except Failure Unit} {middle : K → Option V}
    (h : Does laws action world (.ok ()) middle)
    (hnext : ∀ answer after, Shut laws middle after →
      Does laws (next answer) after ending bindings) :
    Does laws (action >>= next) world ending bindings := by
  apply fares_andThen h
  · rintro answer _ after ⟨-, rfl⟩ hshut
    exact hnext answer after hshut
  · rintro failure _ ⟨hfails, -⟩
    cases hfails

theorem does_map (f : α → β) {action : Action K V (World S σ) α} {ending : Except Failure Unit}
    (h : Does laws action world ending bindings) :
    Does laws (f <$> action) world ending bindings := by
  rw [map_eq_pure_bind]
  apply fares_andThen h
  · intro answer _ after hends hshut
    exact ⟨rfl, _, hshut, hends⟩
  · exact fun failure _ hends => hends

theorem does_of_exec {action : Action K V (World S σ) α} {answer : α} {middle : K → Option V}
    (hunaided : action.Returns (unaided K V store.backend.segments) ())
    (h : Shut laws middle world)
    (hexec : action.exec (World.serve store.setting) world = (.ok answer, after))
    (hafter : store.backend.bindings after.map = bindings) :
    Does laws action world (.ok ()) bindings := by
  apply fares_of_unaided hunaided h
  rw [show action.run.run (World.serve store.setting) world = (.ok answer, after) from hexec]
  exact ⟨rfl, hafter⟩

theorem does_pure (answer : α) (h : Shut laws bindings world) :
    Does laws (pure answer) world (.ok ()) bindings :=
  does_of_exec (Action.returns_pure answer) h rfl h.bindings

theorem does_ask (request : Request K V)
    (hwipe : ∀ segment, request = .wipe segment → segment < store.backend.segments)
    (h : Shut laws bindings world) :
    Does laws (ask request) world (.ok ())
      (store.backend.bindings (world.serve store.setting request).2.map) :=
  does_of_exec (Action.returns_ask ⟨hwipe, fun _ => rfl⟩) h rfl rfl

-- A request that leaves the map alone.
theorem does_look (request : Request K V)
    (hwrites : Exchange.writes ⟨request, (world.serve store.setting request).1⟩ = false)
    (h : Shut laws bindings world) : Does laws (ask request) world (.ok ()) bindings := by
  have hmap := World.serve_map store.setting request world hwrites
  refine does_of_exec (Action.returns_ask ⟨?_, fun _ => rfl⟩) h rfl
    ((congrArg store.backend.bindings hmap).trans h.bindings)
  rintro segment rfl
  cases hwrites

variable (hlisteners : ∀ listener ∈ store.listeners, listener.NeverFails)

include hlisteners

theorem does_tell (event : Event K V) (h : Shut laws bindings world) :
    Does laws (store.tell event) world (.ok ()) bindings := by
  obtain ⟨exchanges, after, htell, hmap, -⟩ := ends_tell hlisteners event world
  have hunaided : (store.tell event : Action K V (World S σ) Unit).Returns
      (unaided K V store.backend.segments) () :=
    store.returns_tell (leftByWrites_unaided _).toLeftByReads event
  exact does_of_exec hunaided h htell.exec (hmap ▸ h.bindings)

omit hlisteners in
theorem does_insertion (key : K) (value : V) (h : Shut laws bindings world) :
    Does laws (ask (.insert key value)) world (.ok ())
      (Function.update bindings key (some value)) := by
  have hinsert : Does laws (ask (.insert key value)) world (.ok ()) _ :=
    does_ask (.insert key value) (fun _ => nofun) h
  have hbindings := Backend.bindings_insert laws h.valid key value
  rw [h.bindings] at hbindings
  rwa [← hbindings]

theorem does_put (key : K) (value : V) (h : Shut laws bindings world) :
    Does laws (store.put key value) world (.ok ())
      (Function.update bindings key (some value)) := by
  apply does_bind (does_insertion key value h)
  intro previous after hshut
  exact does_bind (does_tell hlisteners _ hshut) fun _ _ hshut => does_pure previous hshut

theorem does_putAll (pairs : List (K × V)) (h : Shut laws bindings world) :
    Does laws (store.putAll pairs) world (.ok ())
      (pairs.foldl (fun bindings pair => Function.update bindings pair.1 (some pair.2))
        bindings) := by
  induction pairs generalizing world bindings with
  | nil => exact does_pure () h
  | cons pair rest ih =>
      exact does_bind (does_put hlisteners pair.1 pair.2 h) fun _ _ hshut => ih hshut

variable {milliseconds : Int64} (hpolicy : store.policy = .background milliseconds)

include hpolicy

omit hlisteners in
theorem does_settle (h : Shut laws bindings world) :
    Does laws store.settle world (.ok ()) bindings := by
  unfold settle
  rw [hpolicy]
  exact does_bind (does_look .nudge rfl h) fun _ _ hshut => does_pure () hshut

omit hlisteners in
theorem does_settle_pure (answer : α) (h : Shut laws bindings world) :
    Does laws (do
      store.settle
      pure answer) world (.ok ()) bindings :=
  does_bind (does_settle hpolicy h) fun _ _ hshut => does_pure answer hshut

theorem does_insert (key : K) (value : V) (h : Shut laws bindings world) :
    Does laws (store.insert key value) world (.ok ())
      (Function.update bindings key (some value)) :=
  does_bind (does_put hlisteners key value h) fun previous _ hshut =>
    does_settle_pure hpolicy previous hshut

theorem does_extend (pairs : List (K × V)) (h : Shut laws bindings world) :
    Does laws (store.extend pairs) world (.ok ())
      (pairs.foldl (fun bindings pair => Function.update bindings pair.1 (some pair.2))
        bindings) :=
  does_bind (does_putAll hlisteners pairs h) fun _ _ hshut => does_settle hpolicy hshut

theorem does_remove (key : K) (h : Shut laws bindings world) :
    Does laws (store.remove key) world (.ok ()) (Function.update bindings key none) := by
  have hremove : Does laws (ask (.remove key)) world (.ok ()) _ :=
    does_ask (.remove key) (fun _ => nofun) h
  have hbindings := Backend.bindings_remove laws h.valid key
  rw [h.bindings] at hbindings
  rw [← hbindings]
  apply does_bind hremove
  intro removed after hshut
  have htell : Does laws (store.tellRemoval key removed) after (.ok ())
      (store.backend.bindings (store.backend.remove key world.map).2) := by
    cases removed with
    | none => exact does_pure () hshut
    | some value => exact does_tell hlisteners (.remove key) hshut
  exact does_bind htell fun _ _ hshut => does_settle_pure hpolicy removed hshut

theorem does_clear (h : Shut laws bindings world) :
    Does laws store.clear world (.ok ()) fun _ => none := by
  have hrun := Memory.run_clear store.setting world
  have hunaided : (ofRoutine (Memory.clear store.backend) :
      Action K V (World S σ) Unit).Returns (unaided K V store.backend.segments) () := by
    have hwrites := leftByWrites_unaided (K := K) (V := V) store.backend.segments
    exact Action.returns_ofRoutine
      (Routine.returns_clear _ hwrites.copy hwrites.wipe hwrites.remove)
  have hexec := Action.exec_ofRoutine (World.serve store.setting) (Memory.clear store.backend) world
  rw [show store.setting.backend = store.backend from rfl] at hrun
  rw [hrun] at hexec
  have hclear : Does laws (ofRoutine (Memory.clear store.backend)) world (.ok ()) fun _ => none :=
    does_of_exec hunaided h hexec (Backend.bindings_clear laws h.valid)
  apply does_bind hclear
  intro _ after hshut
  exact does_bind (does_tell hlisteners .clear hshut) fun _ _ hshut => does_settle hpolicy hshut

omit hlisteners hpolicy in
theorem does_get_bind {key : K} {found : Option V} (hfound : bindings key = found)
    {next : Option V → Action K V (World S σ) β} {ending : Except Failure Unit}
    {effect : K → Option V} (h : Shut laws bindings world)
    (hnext : Does laws (next found) world ending effect) :
    Does laws (ask (.get key) >>= next) world ending effect := by
  obtain rfl : store.backend.get key world.map = found := (congrFun h.bindings key).trans hfound
  exact ⟨hnext.muted, hnext.ends⟩

-- What is done under a key that was found unbound.
theorem does_fill (key : K) (value : V) (answer : ρ) (h : Shut laws bindings world) :
    Does laws (do
      let _ ← store.put key value
      store.settle
      pure answer) world (.ok ()) (Function.update bindings key (some value)) :=
  does_bind (does_put hlisteners key value h) fun _ _ hshut =>
    does_settle_pure hpolicy answer hshut

theorem does_getOrInsert (key : K) (value : V) (h : Shut laws bindings world) :
    Does laws (store.getOrInsert key value) world (.ok ()) (match bindings key with
      | none => Function.update bindings key (some value)
      | some _ => bindings) := by
  cases hfound : bindings key with
  | none => exact does_get_bind hfound h (does_fill hlisteners hpolicy key value value h)
  | some existing => exact does_get_bind hfound h (does_pure existing h)

-- What a callback makes of a value, after it has done something that leaves such bindings.
def Makes (made : Except Failure V) (bindings : K → Option V) (outcome : Except Failure (V × ρ))
    (after : K → Option V) : Prop :=
  outcome.map Prod.fst = made ∧ after = bindings

omit hlisteners hpolicy in
theorem fares_callback {inner : Routine K V (World S σ) α} (made : Except Failure V)
    (h : Fares laws inner world fun _ after => after = bindings) :
    Fares laws (do
      let answer ← ofRoutine inner
      let value ← Action.ofExcept made
      pure (value, answer) : Action K V (World S σ) (V × α)).run world (Makes made bindings) := by
  have hinner : Does laws (ofRoutine inner) world (.ok ()) bindings :=
    fares_bind h fun answer _ after hbindings hshut => ⟨rfl, _, hshut, rfl, hbindings⟩
  apply fares_andThen hinner
  · rintro answer _ after ⟨-, rfl⟩ hshut
    cases made with
    | error failure => exact ⟨rfl, _, hshut, rfl, rfl⟩
    | ok value => exact ⟨rfl, _, hshut, rfl, rfl⟩
  · rintro failure _ ⟨hfails, -⟩
    cases hfails

theorem does_getOrInsertWith (key : K) {inner : List (Command K V ω β)}
    {made : Except Failure V} {make : Action K V (World S σ) (V × ρ)}
    (h : Shut laws bindings world)
    (hmake : Fares laws make.run world (Makes made (Command.effectAll inner bindings))) :
    Does laws (store.getOrInsertWith key make) world
      ((Command.getOrInsertWith key inner made).ending bindings)
      ((Command.getOrInsertWith key inner made).effect bindings) := by
  rw [Command.effect, Command.ending]
  cases hfound : bindings key with
  | some existing => exact does_get_bind hfound h (does_pure (existing, none) h)
  | none =>
      apply does_get_bind hfound h
      apply fares_andThen hmake
      · rintro ⟨value, answer⟩ effect after ⟨rfl, rfl⟩ hshut
        exact does_fill hlisteners hpolicy key value (value, some answer) hshut
      · rintro failure _ ⟨rfl, rfl⟩
        exact ⟨rfl, rfl⟩

theorem does_replace (key : K) (current updated : V) (answer : ρ) (h : Shut laws bindings world) :
    Does laws (do
      let _ ← ask (.insert key updated)
      store.tell (.update key current updated)
      store.settle
      pure (some answer)) world (.ok ()) (Function.update bindings key (some updated)) := by
  apply does_bind (does_insertion key updated h)
  intro _ last hshut
  exact does_bind (does_tell hlisteners _ hshut) fun _ _ hshut =>
    does_settle_pure hpolicy (some answer) hshut

theorem does_update (key : K) {inner : List (Command K V ω β)} {edit : V → Except Failure V}
    {mutate : V → Action K V (World S σ) (V × ρ)} (h : Shut laws bindings world)
    (hmutate : ∀ current, Fares laws (mutate current).run world
      (Makes (edit current) (Command.effectAll inner bindings))) :
    Does laws (store.update key mutate) world
      ((Command.update key inner edit).ending bindings)
      ((Command.update key inner edit).effect bindings) := by
  rw [Command.effect, Command.ending]
  cases hcurrent : bindings key with
  | none => exact does_get_bind hcurrent h (does_pure none h)
  | some current =>
      dsimp only
      generalize hmade : edit current = made
      apply does_get_bind hcurrent h
      apply fares_andThen (hmade ▸ hmutate current)
      · rintro ⟨updated, answer⟩ effect after ⟨rfl, rfl⟩ hshut
        exact does_replace hlisteners hpolicy key current updated answer hshut
      · rintro failure _ ⟨rfl, rfl⟩
        exact ⟨rfl, rfl⟩

-- Of a command that only reads or saves, no more is said than that the map stays as it is.
omit hlisteners hpolicy in
theorem fares_looks {command : Command K V (World S σ) β} (hlooks : command.Looks)
    (h : Shut laws bindings world) :
    Fares laws (store.perform command).run world fun _ after => after = bindings := by
  have hreturns := store.looks_perform (ω := World S σ) hlooks
  obtain ⟨hmap, -⟩ := Routine.run_looks hreturns store.setting world
  refine fares_of_unaided (Routine.unaided_of_looks hreturns) h ?_
  rw [hmap]
  exact h.bindings

end

section

variable [DecidableEq K] {store : Store K V S σ} {laws : store.backend.Laws}
  {milliseconds : Int64}

theorem fares_mono {routine : Routine K V (World S σ) α} {world : World S σ}
    {post post' : α → (K → Option V) → Prop} (h : Fares laws routine world post)
    (himp : ∀ answer bindings, post answer bindings → post' answer bindings) :
    Fares laws routine world post' := by
  obtain ⟨hmuted, bindings, hshut, hpost⟩ := h
  exact ⟨hmuted, bindings, hshut, himp _ _ hpost⟩

-- What is said of a command in general.
def Suits (command : Command K V (World S σ) β) (bindings : K → Option V)
    (outcome : Outcome K V β) (after : K → Option V) : Prop :=
  after = command.effect bindings ∧
    (command.Changes → outcome.map (fun _ => ()) = command.ending bindings)

theorem fares_map_of_does {command : Command K V (World S σ) β} {world : World S σ}
    {bindings : K → Option V} {action : Action K V (World S σ) α} (answer : α → Answer K V β)
    (h : Does laws action world (command.ending bindings) (command.effect bindings)) :
    Fares laws (answer <$> action).run world (Suits command bindings) :=
  fares_mono (does_map answer h) fun _ _ hends => ⟨hends.2, fun _ => hends.1⟩

mutual

theorem fares_perform (hlisteners : ∀ listener ∈ store.listeners, listener.NeverFails)
    (hpolicy : store.policy = .background milliseconds) (command : Command K V (World S σ) β)
    (hrespects : command.Respects) {world : World S σ} {bindings : K → Option V}
    (h : Shut laws bindings world) :
    Fares laws (store.perform command).run world (Suits command bindings) := by
  cases command with
  | insert key value =>
      rw [perform]
      exact fares_map_of_does _ (does_insert hlisteners hpolicy key value h)
  | remove key =>
      rw [perform]
      exact fares_map_of_does _ (does_remove hlisteners hpolicy key h)
  | clear =>
      rw [perform]
      exact fares_map_of_does _ (does_clear hlisteners hpolicy h)
  | extend pairs =>
      rw [perform]
      exact fares_map_of_does _ (does_extend hlisteners hpolicy pairs h)
  | update key inner edit =>
      rw [perform]
      rw [Command.Respects] at hrespects
      have hinner := fares_performFrom hlisteners hpolicy inner [] hrespects h
      exact fares_map_of_does _ (does_update hlisteners hpolicy key h fun current =>
        fares_callback (edit current) hinner)
  | getOrInsert key value =>
      rw [perform]
      exact fares_map_of_does _ (does_getOrInsert hlisteners hpolicy key value h)
  | getOrInsertWith key inner make =>
      rw [perform]
      rw [Command.Respects] at hrespects
      have hinner := fares_performFrom hlisteners hpolicy inner [] hrespects h
      exact fares_map_of_does _ (does_getOrInsertWith hlisteners hpolicy key h
        (fares_callback make hinner))
  | aside act =>
      rw [perform]
      rw [Command.Respects] at hrespects
      obtain ⟨hmap, hclosed⟩ := hrespects world
      refine ⟨rfl, bindings, ⟨?_, ?_, hclosed h.closed⟩, rfl, False.elim⟩
      · exact hmap ▸ h.valid
      · exact hmap ▸ h.bindings
  | _ => exact fares_mono (fares_looks trivial h) fun _ _ hsame => ⟨hsame, False.elim⟩

theorem fares_performFrom (hlisteners : ∀ listener ∈ store.listeners, listener.NeverFails)
    (hpolicy : store.policy = .background milliseconds)
    (commands : List (Command K V (World S σ) β)) (before : List (Outcome K V β))
    (hrespects : Command.RespectAll commands) {world : World S σ} {bindings : K → Option V}
    (h : Shut laws bindings world) :
    Fares laws (store.performFrom commands before) world fun _ after =>
      after = Command.effectAll commands bindings := by
  cases commands with
  | nil =>
      rw [performFrom, Command.effectAll]
      exact ⟨rfl, _, h, rfl⟩
  | cons command rest =>
      rw [Command.RespectAll] at hrespects
      rw [performFrom, Command.effectAll]
      apply fares_bind (fares_perform hlisteners hpolicy command hrespects.1 h)
      rintro outcome _ after ⟨rfl, -⟩ hshut
      exact fares_performFrom hlisteners hpolicy rest (outcome :: before) hrespects.2 hshut

end

end

end Store

end SnapshotStore
