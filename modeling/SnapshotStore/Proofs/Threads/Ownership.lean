import SnapshotStore.Proofs.Routine.Terms
import SnapshotStore.Proofs.Store.Tracking
import SnapshotStore.Proofs.Threads.Lock

namespace SnapshotStore

variable {K V S σ α : Type} {setting : Setting K V S σ}

-- What a listener makes of an event depends on nothing else.
def Listener.Judges (listener : Listener K V σ) (verdict : Event K V → Except Failure Unit) :
    Prop :=
  ∀ event sight desk, (listener.notify event sight desk).1 = verdict event

-- The protocol of a single phase that allows any request that does not write to the map.
def looking (K V : Type) : Protocol K V Unit where
  Allows _ := Request.WritesOnly fun _ => False
  AllowsAside _ := False
  after _ _ _ := ()

section World

variable [DecidableEq K] (laws : setting.backend.Laws) {own : K → Prop} {request : Request K V}
  {world : World S σ}

theorem World.bindings_serve (hvalid : laws.Valid world.map) (hwrites : request.WritesOnly own) :
    laws.Valid (world.serve setting request).2.map ∧
    setting.backend.bindings (world.serve setting request).2.map =
      request.rebind (setting.backend.bindings world.map) := by
  refine ⟨Threads.valid_serve laws request hvalid ?_, ?_⟩
  · rintro segment rfl
    exact hwrites.elim
  cases request with
  | insert key value => exact Backend.bindings_insert laws hvalid key value
  | remove key => exact Backend.bindings_remove laws hvalid key
  | wipe segment => exact hwrites.elim
  | _ =>
      rw [World.serve_map setting _ world rfl]
      rfl

end World

namespace Terms

variable [DecidableEq K] {terms : Terms K V} {laws : setting.backend.Laws}
  {view : K → Option V} {world : World S σ} {request : Request K V}

-- The listeners that a thread counts on.
structure Given (terms : Terms K V) (setting : Setting K V S σ) : Prop where
  listeners : setting.listeners.length = terms.listeners
  verdict : ∀ (position : Nat) (listener : Listener K V σ),
    setting.listeners[position]? = some listener → listener.Judges (terms.verdict position)

-- What a thread knows of the map: the bindings of its own keys.
structure Knows (terms : Terms K V) {backend : Backend K V S} (laws : backend.Laws)
    (view : K → Option V) (map : S) : Prop where
  valid : laws.Valid map
  own : ∀ key, terms.own key → view key = backend.get key map

theorem Knows.start (hvalid : laws.Valid world.map) :
    terms.Knows laws (setting.backend.bindings world.map) world.map :=
  ⟨hvalid, fun _ _ => rfl⟩

theorem Knows.expects (h : terms.Knows laws view world.map) (given : terms.Given setting)
    (hallows : terms.Allows request)
    (hsaves : terms.saves → Exchange.fails ⟨request, (world.serve setting request).1⟩ = false) :
    terms.Expects view request (world.serve setting request).1 := by
  cases request with
  | insert key value => exact (laws.insert_fst key value h.valid).trans (h.own key hallows).symm
  | get key => exact (h.own key hallows).symm
  | remove key => exact (laws.remove_fst key h.valid).trans (h.own key hallows).symm
  | contains key =>
      rw [Expects, h.own key hallows]
      exact laws.contains_eq h.valid key
  | notify position event =>
      obtain ⟨listener, hlistener⟩ : ∃ listener, setting.listeners[position]? = some listener :=
        ⟨_, List.getElem?_eq_getElem (given.listeners ▸ hallows)⟩
      simp only [Expects, World.serve, World.notify, hlistener]
      exact given.verdict position listener hlistener event _ _
  | serialize entries => exact hsaves hallows
  | create path => exact hsaves hallows
  | append location bytes => exact hsaves hallows
  | sync location => exact hsaves hallows
  | rename source target => exact hsaves hallows
  | _ => exact rfl

theorem Knows.serve (h : terms.Knows laws view world.map) (hallows : terms.Allows request) :
    terms.Knows laws (request.rebind view) (world.serve setting request).2.map := by
  obtain ⟨hvalid, hbindings⟩ := World.bindings_serve laws h.valid hallows.writesOnly
  refine ⟨hvalid, fun key hkey => ?_⟩
  rw [show setting.backend.get key (world.serve setting request).2.map =
    request.rebind (setting.backend.bindings world.map) key from congrFun hbindings key]
  have hsame := h.own key hkey
  cases request with
  | insert other value =>
      simp only [Request.rebind, Function.update_apply]
      rw [hsame]
      rfl
  | remove other =>
      simp only [Request.rebind, Function.update_apply]
      rw [hsame]
      rfl
  | _ => exact hsame

-- What is written to other keys is of no concern.
theorem Knows.serve_other (h : terms.Knows laws view world.map) {own : K → Prop}
    (hwrites : request.WritesOnly own) (hother : ∀ key, terms.own key → ¬own key) :
    terms.Knows laws view (world.serve setting request).2.map := by
  obtain ⟨hvalid, hbindings⟩ := World.bindings_serve laws h.valid hwrites
  refine ⟨hvalid, fun key hkey => ?_⟩
  rw [h.own key hkey]
  exact (hwrites.rebind_eq _ (hother key hkey)).symm.trans (congrFun hbindings key).symm

-- A routine on these terms that nobody else disturbs.
theorem Knows.run (given : terms.Given setting) {routine : Routine K V (World S σ) α}
    {post : (K → Option V) → α → Prop}
    (hobeys : routine.Obeys terms.protocol (Kept post) (some view))
    (h : terms.Knows laws view world.map)
    (hsaves : terms.saves →
      ∀ exchange ∈ routine.exchanges (World.serve setting) world, exchange.fails = false) :
    ∃ last, post last (routine.run (World.serve setting) world).1 ∧
      terms.Knows laws last (routine.run (World.serve setting) world).2.map := by
  induction routine generalizing view world with
  | done answer => exact ⟨view, hobeys view rfl, h⟩
  | call request next ih =>
      have hallows : terms.Allows request := hobeys.1 (Option.some_ne_none view)
      have hexpects := h.expects given hallows fun hsaved => hsaves hsaved _ List.mem_cons_self
      have hrest := hobeys.2 (world.serve setting request).1
      rw [protocol_after hexpects] at hrest
      exact ih _ hrest (h.serve hallows) fun hsaved exchange hmem =>
        hsaves hsaved exchange (List.mem_cons_of_mem _ hmem)
  | aside act next ih => cases hobeys.1

end Terms

namespace Threads

open Terms (Kept)

variable [DecidableEq K] {laws : setting.backend.Laws} {terms : Nat → Terms K V} {keepers : Nat}
  {start threads : Threads K V S σ α} {moves : List (Move K V S)}

-- The first threads keep to their terms, by which no key belongs to two of them, and the others
-- only look.
structure ShareKeys (setting : Setting K V S σ) (laws : setting.backend.Laws)
    (terms : Nat → Terms K V) (keepers : Nat) (start : Threads K V S σ α) : Prop where
  valid : laws.Valid start.world.map
  given : ∀ thread, (terms thread).Given setting
  own_unique : ∀ thread other key, (terms thread).own key → (terms other).own key → thread = other
  keeps : ∀ thread < keepers, ∀ routine, start.routines[thread]? = some routine →
    ∃ post, routine.Obeys (terms thread).protocol (Kept post)
      (some (setting.backend.bindings start.world.map))
  looks : ∀ thread ≥ keepers, ∀ routine, start.routines[thread]? = some routine →
    routine.Returns (looking K V) ()

-- What a thread knows is what its own requests have made of the bindings at the start.
structure KeysSound (laws : setting.backend.Laws) (terms : Nat → Terms K V) (keepers : Nat)
    (found : K → Option V) (moves : List (Move K V S)) (map : S) : Prop where
  knows : ∀ thread < keepers, ∃ view,
    (terms thread).protocol.along (some found) (Move.own thread moves) = some view ∧
    (terms thread).Knows laws view map
  rest : laws.Valid map ∧ ∀ key, (∀ thread, ¬(terms thread).own key) →
    setting.backend.get key map = found key

theorem keysSound_start (hvalid : laws.Valid start.world.map) :
    KeysSound laws terms keepers (setting.backend.bindings start.world.map) [] start.world.map :=
  ⟨fun _ _ => ⟨_, rfl, .start hvalid⟩, hvalid, fun _ _ => rfl⟩

-- One request, by a thread that writes to no keys but its own.
theorem KeysSound.serve {found : K → Option V} {world : World S σ}
    (h : KeysSound laws terms keepers found moves world.map) {mover : Nat} {request : Request K V}
    (hunique : ∀ thread other key, (terms thread).own key → (terms other).own key → thread = other)
    (hwrites : request.WritesOnly (terms mover).own)
    (hmover : mover < keepers → (terms mover).Given setting ∧ (terms mover).Allows request ∧
      ((terms mover).saves → Exchange.fails ⟨request, (world.serve setting request).1⟩ = false)) :
    KeysSound laws terms keepers found (moves ++ [world.move setting mover request])
      (world.serve setting request).2.map := by
  refine ⟨fun thread hthread => ?_, ?_, fun key hnobody => ?_⟩
  · obtain ⟨view, halong, hknows⟩ := h.knows thread hthread
    by_cases hsame : mover = thread
    · subst hsame
      obtain ⟨hgiven, hallows, hsaves⟩ := hmover hthread
      refine ⟨request.rebind view, ?_, hknows.serve hallows⟩
      rw [World.move, own_append_self, Protocol.along, List.foldl_append]
      change (terms mover).protocol.after ((terms mover).protocol.along _ _) _ _ = _
      rw [halong]
      exact Terms.protocol_after (hknows.expects hgiven hallows hsaves)
    · refine ⟨view, ?_, hknows.serve_other hwrites fun key hkey hother => ?_⟩
      · rw [World.move, own_append_other hsame]
        exact halong
      · exact hsame (hunique mover thread key hother hkey)
  · exact (World.bindings_serve laws h.rest.1 hwrites).1
  · rw [← h.rest.2 key hnobody]
    exact (congrFun (World.bindings_serve laws h.rest.1 hwrites).2 key).trans
      (hwrites.rebind_eq _ (hnobody mover))

theorem Run.keysSound (share : ShareKeys setting laws terms keepers start)
    (h : Run setting start moves threads)
    (hsaves : ∀ move ∈ moves, (terms move.thread).saves → move.exchange.fails = false) :
    KeysSound laws terms keepers (setting.backend.bindings start.world.map) moves
      threads.world.map := by
  induction h with
  | start => exact keysSound_start share.valid
  | @serve moves threads after mover request next hrun hcall hstep ih =>
      rw [List.forall_mem_append] at hsaves
      have hinv := ih hsaves.1
      obtain ⟨routine, hroutine, hfollows⟩ := hrun.follows hcall
      rw [(step?_call hcall hstep).2.2]
      have hallows : mover < keepers → (terms mover).Allows request := by
        intro hkeeper
        obtain ⟨post, hobeys⟩ := share.keeps mover hkeeper routine hroutine
        obtain ⟨view, halong, -⟩ := hinv.knows mover hkeeper
        have hrest := hfollows.obeys hobeys
        rw [halong] at hrest
        exact hrest.1 (Option.some_ne_none view)
      refine hinv.serve share.own_unique ?_ fun hkeeper =>
        ⟨share.given mover, hallows hkeeper, hsaves.2 _ (List.mem_singleton_self _)⟩
      rcases Nat.lt_or_ge mover keepers with hkeeper | hlooker
      · exact (hallows hkeeper).writesOnly
      · have hlooks := hfollows.obeys (share.looks mover hlooker routine hroutine)
        exact Request.WritesOnly.mono hlooks.1 fun _ => False.elim
  | beside _ _ _ huntouched ih =>
      rw [huntouched.map]
      exact ih hsaves

-- What has come of a thread that is done.
theorem Run.of_done (share : ShareKeys setting laws terms keepers start)
    (h : Run setting start moves threads)
    (hsaves : ∀ move ∈ moves, (terms move.thread).saves → move.exchange.fails = false)
    {thread : Nat} (hthread : thread < keepers) {answer : α}
    (hdone : threads.routines[thread]? = some (.done answer)) :
    ∃ routine, start.routines[thread]? = some routine ∧
      ∀ post, routine.Obeys (terms thread).protocol (Kept post)
        (some (setting.backend.bindings start.world.map)) →
      ∃ view, post view answer ∧ (terms thread).Knows laws view threads.world.map := by
  obtain ⟨routine, hroutine, hfollows⟩ := h.follows hdone
  refine ⟨routine, hroutine, fun post hobeys => ?_⟩
  obtain ⟨view, halong, hknows⟩ := (h.keysSound share hsaves).knows thread hthread
  have hpost := hfollows.obeys hobeys
  exact ⟨view, hpost view halong, hknows⟩

end Threads

end SnapshotStore
