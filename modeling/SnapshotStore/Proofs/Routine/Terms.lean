import Mathlib.Logic.Function.Basic
import SnapshotStore.Proofs.Routine.Protocol
import SnapshotStore.Proofs.Store.Flushing

namespace SnapshotStore

variable {K V ω ω' α β : Type}

structure Terms (K V : Type) where
  own : K → Prop
  saves : Prop
  listeners : Nat
  -- by the position of the listener
  verdict : Nat → Event K V → Except Failure Unit

-- The bindings after a request, if nobody else writes to the map.
def Request.rebind [DecidableEq K] (request : Request K V) (bindings : K → Option V) :
    K → Option V :=
  match request with
  | .insert key value => Function.update bindings key (some value)
  | .remove key => Function.update bindings key none
  | _ => bindings

-- The keys to which a request may write.
def Request.WritesOnly (own : K → Prop) : Request K V → Prop
  | .insert key _ => own key
  | .remove key => own key
  | .wipe _ => False
  | _ => True

theorem Request.WritesOnly.mono {own own' : K → Prop} {request : Request K V}
    (h : request.WritesOnly own) (himp : ∀ key, own key → own' key) : request.WritesOnly own' := by
  cases request with
  | insert key value => exact himp key h
  | remove key => exact himp key h
  | _ => exact h

theorem Request.WritesOnly.rebind_eq [DecidableEq K] {own : K → Prop} {request : Request K V}
    (h : request.WritesOnly own) (bindings : K → Option V) {key : K} (hkey : ¬own key) :
    request.rebind bindings key = bindings key := by
  cases request with
  | insert other value =>
      have hother : key ≠ other := fun hsame => hkey (hsame.symm ▸ (h : own other))
      exact Function.update_of_ne hother _ _
  | remove other =>
      have hother : key ≠ other := fun hsame => hkey (hsame.symm ▸ (h : own other))
      exact Function.update_of_ne hother _ _
  | _ => rfl

-- A request of whose answer nothing is known beforehand but that it is no refusal.
def Request.IsPlain : Request K V → Prop
  | .insert _ _ => False
  | .get _ => False
  | .remove _ => False
  | .contains _ => False
  | .wipe _ => False
  | .notify _ _ => False
  | _ => True

namespace Terms

def Allows (terms : Terms K V) : Request K V → Prop
  | .insert key _ => terms.own key
  | .get key => terms.own key
  | .remove key => terms.own key
  | .contains key => terms.own key
  | .wipe _ => False
  | .serialize _ => terms.saves
  | .create _ => terms.saves
  | .append _ _ => terms.saves
  | .sync _ => terms.saves
  | .rename _ _ => terms.saves
  | .notify position _ => position < terms.listeners
  | _ => True

-- What a thread may be answered whose keys have these bindings.
def Expects (terms : Terms K V) (bindings : K → Option V) :
    (request : Request K V) → request.Response → Prop
  | .insert key _, previous => previous = bindings key
  | .get key, value => value = bindings key
  | .remove key, removed => removed = bindings key
  | .contains key, found => found = (bindings key).isSome
  | .notify position event, outcome => outcome = terms.verdict position event
  | request, response => Exchange.fails ⟨request, response⟩ = false

theorem Allows.writesOnly {terms : Terms K V} {request : Request K V}
    (h : terms.Allows request) : request.WritesOnly terms.own := by
  cases request <;> first | exact h | exact trivial

variable [DecidableEq K]

-- The phase is what the bindings of the thread's keys are, and none as soon as the thread has been
-- answered what it need not count with.
open Classical in
noncomputable def protocol (terms : Terms K V) : Protocol K V (Option (K → Option V)) where
  Allows phase request := phase ≠ none → terms.Allows request
  AllowsAside phase := phase = none
  after phase request response := phase.bind fun bindings =>
    if terms.Expects bindings request response then some (request.rebind bindings) else none

variable {terms : Terms K V} {bindings after : K → Option V}

theorem protocol_after {request : Request K V} {response : request.Response}
    (h : terms.Expects bindings request response) :
    terms.protocol.after (some bindings) request response = some (request.rebind bindings) :=
  if_pos h

theorem protocol_after_unexpected {request : Request K V} {response : request.Response}
    (h : ¬terms.Expects bindings request response) :
    terms.protocol.after (some bindings) request response = none :=
  if_neg h

-- What a routine ends in as long as the terms are kept.
def Kept (post : (K → Option V) → α → Prop) (phase : Option (K → Option V)) (answer : α) : Prop :=
  ∀ bindings, phase = some bindings → post bindings answer

theorem obeys_none (routine : Routine K V ω α) (post : (K → Option V) → α → Prop) :
    routine.Obeys terms.protocol (Kept post) none := by
  induction routine with
  | done answer => exact fun _ h => nomatch h
  | call request next ih => exact ⟨fun h => (h rfl).elim, ih⟩
  | aside act next ih => exact ⟨rfl, ih⟩

theorem obeys_call {request : Request K V} {next : request.Response → Routine K V ω α}
    {post : (K → Option V) → α → Prop} (hallows : terms.Allows request)
    (hnext : ∀ response, terms.Expects bindings request response →
      (next response).Obeys terms.protocol (Kept post) (some (request.rebind bindings))) :
    (Routine.call request next).Obeys terms.protocol (Kept post) (some bindings) := by
  refine ⟨fun _ => hallows, fun response => ?_⟩
  by_cases h : terms.Expects bindings request response
  · rw [protocol_after h]
    exact hnext response h
  · rw [protocol_after_unexpected h]
    exact obeys_none _ _

theorem obeys_bind {routine : Routine K V ω α} {next : α → Routine K V ω β}
    {post : (K → Option V) → α → Prop} {last : (K → Option V) → β → Prop}
    (h : routine.Obeys terms.protocol (Kept post) (some bindings))
    (hnext : ∀ after answer, post after answer →
      (next answer).Obeys terms.protocol (Kept last) (some after)) :
    (routine >>= next).Obeys terms.protocol (Kept last) (some bindings) := by
  refine (Routine.obeys_bind routine next).mpr (h.mono ?_)
  rintro (_ | after) answer hpost
  · exact obeys_none _ _
  · exact hnext after answer (hpost after rfl)

-- Both routines end in the same answer and leave the same bindings, whatever else they are
-- answered.
def Agree (terms : Terms K V) (routine : Routine K V ω α) (routine' : Routine K V ω' α) : Prop :=
  ∀ bindings, ∃ answer after,
    routine.Obeys terms.protocol (Kept fun last found => last = after ∧ found = answer)
      (some bindings) ∧
    routine'.Obeys terms.protocol (Kept fun last found => last = after ∧ found = answer)
      (some bindings)

theorem agree_pure (answer : α) :
    terms.Agree (pure answer : Routine K V ω α) (pure answer : Routine K V ω' α) := by
  refine fun bindings => ⟨answer, bindings, ?_, ?_⟩ <;>
  · rintro last h
    exact ⟨(Option.some.inj h).symm, rfl⟩

theorem agree_bind {routine : Routine K V ω α} {routine' : Routine K V ω' α}
    {next : α → Routine K V ω β} {next' : α → Routine K V ω' β}
    (h : terms.Agree routine routine')
    (hnext : ∀ answer, terms.Agree (next answer) (next' answer)) :
    terms.Agree (routine >>= next) (routine' >>= next') := by
  intro bindings
  obtain ⟨answer, middle, hfirst, hfirst'⟩ := h bindings
  obtain ⟨outcome, after, hrest, hrest'⟩ := hnext answer middle
  refine ⟨outcome, after, obeys_bind hfirst ?_, obeys_bind hfirst' ?_⟩
  · rintro _ _ ⟨rfl, rfl⟩
    exact hrest
  · rintro _ _ ⟨rfl, rfl⟩
    exact hrest'

theorem agree_map (f : α → β) {routine : Routine K V ω α} {routine' : Routine K V ω' α}
    (h : terms.Agree routine routine') : terms.Agree (f <$> routine) (f <$> routine') := by
  rw [map_eq_pure_bind, map_eq_pure_bind]
  exact agree_bind h fun answer => agree_pure (f answer)

theorem agree_ask {request : Request K V} (hallows : terms.Allows request)
    (answer : (K → Option V) → request.Response)
    (hanswer : ∀ bindings response, terms.Expects bindings request response →
      response = answer bindings) :
    terms.Agree (Routine.ask request : Routine K V ω _)
      (Routine.ask request : Routine K V ω' _) := by
  refine fun bindings => ⟨answer bindings, request.rebind bindings, ?_, ?_⟩ <;>
  · refine obeys_call hallows fun response hexpects last h => ?_
    exact ⟨(Option.some.inj h).symm, hanswer bindings response hexpects⟩

abbrev ActAgree (terms : Terms K V) (action : Action K V ω α) (action' : Action K V ω' α) : Prop :=
  terms.Agree action.run action'.run

theorem act_pure (answer : α) :
    terms.ActAgree (pure answer : Action K V ω α) (pure answer : Action K V ω' α) :=
  agree_pure _

theorem act_ofExcept (outcome : Except Failure α) :
    terms.ActAgree (Action.ofExcept outcome : Action K V ω α)
      (Action.ofExcept outcome : Action K V ω' α) :=
  agree_pure _

theorem act_ofRoutine {routine : Routine K V ω α} {routine' : Routine K V ω' α}
    (h : terms.Agree routine routine') :
    terms.ActAgree (Action.ofRoutine routine) (Action.ofRoutine routine') :=
  agree_bind h fun _ => agree_pure _

theorem act_bind {action : Action K V ω α} {action' : Action K V ω' α}
    {next : α → Action K V ω β} {next' : α → Action K V ω' β} (h : terms.ActAgree action action')
    (hnext : ∀ answer, terms.ActAgree (next answer) (next' answer)) :
    terms.ActAgree (action >>= next) (action' >>= next') := by
  unfold ActAgree
  rw [ExceptT.run_bind, ExceptT.run_bind]
  refine agree_bind h fun outcome => ?_
  cases outcome with
  | ok answer => exact hnext answer
  | error failure => exact agree_pure _

theorem act_map (f : α → β) {action : Action K V ω α} {action' : Action K V ω' α}
    (h : terms.ActAgree action action') : terms.ActAgree (f <$> action) (f <$> action') := by
  rw [map_eq_pure_bind, map_eq_pure_bind]
  exact act_bind h fun answer => act_pure (f answer)

-- An action that never fails and leaves the bindings as they are.
def Passes (terms : Terms K V) (action : Action K V ω α) : Prop :=
  ∀ bindings, action.run.Obeys terms.protocol
    (Kept fun last outcome => last = bindings ∧ ∃ answer, outcome = .ok answer) (some bindings)

theorem passes_pure (answer : α) : terms.Passes (pure answer : Action K V ω α) := by
  rintro bindings last h
  exact ⟨(Option.some.inj h).symm, answer, rfl⟩

theorem passes_bind {action : Action K V ω α} {next : α → Action K V ω β}
    (h : terms.Passes action) (hnext : ∀ answer, terms.Passes (next answer)) :
    terms.Passes (action >>= next) := by
  intro bindings
  rw [ExceptT.run_bind]
  refine obeys_bind (h bindings) ?_
  rintro _ _ ⟨rfl, answer, rfl⟩
  exact hnext answer _

-- A plain request is answered somehow, but not with a refusal, and leaves the bindings alone.
theorem obeys_plain {request : Request K V} {next : request.Response → Routine K V ω α}
    {post : (K → Option V) → α → Prop} (hplain : request.IsPlain) (hsaves : terms.saves)
    (hnext : ∀ response, Exchange.fails ⟨request, response⟩ = false →
      (next response).Obeys terms.protocol (Kept post) (some bindings)) :
    (Routine.call request next).Obeys terms.protocol (Kept post) (some bindings) := by
  have hallows : terms.Allows request := by
    cases request <;> first | exact trivial | exact hsaves | exact hplain.elim
  refine obeys_call hallows fun response hexpects => ?_
  cases request <;> first | exact hnext response hexpects | exact hplain.elim

theorem passes_ask_bind {request : Request K V} {next : request.Response → Action K V ω α}
    (hplain : request.IsPlain) (hsaves : terms.saves)
    (hnext : ∀ response, Exchange.fails ⟨request, response⟩ = false →
      terms.Passes (next response)) :
    terms.Passes (Action.ask request >>= next) := by
  intro bindings
  exact obeys_plain hplain hsaves fun response hfails => hnext response hfails bindings

theorem passes_ofRoutine_bind {routine : Routine K V ω α} {next : α → Action K V ω β}
    {P : α → Prop}
    (h : ∀ bindings, routine.Obeys terms.protocol
      (Kept fun last answer => last = bindings ∧ P answer) (some bindings))
    (hnext : ∀ answer, P answer → terms.Passes (next answer)) :
    terms.Passes (Action.ofRoutine routine >>= next) := by
  intro bindings
  have hrun : (Action.ofRoutine routine >>= next).run =
      routine >>= fun answer => (next answer).run := by
    rw [ExceptT.run_bind]
    exact bind_assoc routine _ _
  rw [hrun]
  refine obeys_bind (h bindings) ?_
  rintro _ answer ⟨rfl, hanswer⟩
  exact hnext answer hanswer _

theorem passes_exclusively {action : Action K V ω α} (h : terms.Passes action)
    (hsaves : terms.saves) : terms.Passes (Action.exclusively action) := by
  intro bindings
  refine obeys_plain trivial hsaves fun _ _ => ?_
  change Routine.Obeys _ _ (action.run >>= fun outcome => Routine.ask .release >>= fun _ =>
    pure outcome) _
  refine obeys_bind (h bindings) ?_
  rintro _ outcome ⟨rfl, answer, rfl⟩
  refine obeys_plain trivial hsaves fun _ _ last h => ?_
  exact ⟨(Option.some.inj h).symm, answer, rfl⟩

theorem agree_of_passes {action : Action K V ω Unit} {action' : Action K V ω' Unit}
    (h : terms.Passes action) (h' : terms.Passes action') : terms.ActAgree action action' := by
  refine fun bindings => ⟨.ok (), bindings, (h bindings).mono ?_, (h' bindings).mono ?_⟩ <;>
  · rintro phase outcome hkept last hlast
    obtain ⟨hbindings, answer, houtcome⟩ := hkept last hlast
    exact ⟨hbindings, houtcome⟩

end Terms

end SnapshotStore
