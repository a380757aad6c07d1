import SnapshotStore.Routine.Run

namespace SnapshotStore

structure Exchange (K V : Type) where
  request : Request K V
  response : request.Response

namespace Exchange

variable {K V : Type}

-- Whether the map may be another one afterwards.
def writes (exchange : Exchange K V) : Bool :=
  match exchange.request with
  | .insert _ _ => true
  | .remove _ => true
  | .wipe _ => true
  | _ => false

-- Whether a file was moved over another name.
def renames : Exchange K V → Bool
  | ⟨.rename _ _, .ok _⟩ => true
  | _ => false

-- Whether a file could not be opened for writing.
def refuses : Exchange K V → Bool
  | ⟨.create _, .error _⟩ => true
  | _ => false

end Exchange

structure Protocol (K V Φ : Type) where
  Allows : Φ → Request K V → Prop
  -- whether a callback may do something beside the store
  AllowsAside : Φ → Prop
  after : Φ → (request : Request K V) → request.Response → Φ

-- The phase after some exchanges.
def Protocol.along {K V Φ : Type} (protocol : Protocol K V Φ) (phase : Φ)
    (exchanges : List (Exchange K V)) : Φ :=
  exchanges.foldl (fun phase exchange => protocol.after phase exchange.request exchange.response)
    phase

-- Each request is allowed in the phase that the exchanges before it lead to.
def Protocol.Admits {K V Φ : Type} (protocol : Protocol K V Φ) : Φ → List (Exchange K V) → Prop
  | _, [] => True
  | phase, exchange :: rest => protocol.Allows phase exchange.request ∧
      protocol.Admits (protocol.after phase exchange.request exchange.response) rest

theorem Protocol.admits_append {K V Φ : Type} {protocol : Protocol K V Φ} {phase : Φ}
    (first second : List (Exchange K V)) : protocol.Admits phase (first ++ second) ↔
      protocol.Admits phase first ∧ protocol.Admits (protocol.along phase first) second := by
  induction first generalizing phase with
  | nil => exact (and_iff_right trivial).symm
  | cons exchange rest ih => exact (and_congr_right fun _ => ih).trans and_assoc.symm

namespace Routine

variable {K V ω α β Φ : Type}

-- The exchanges lead from one routine to what is left of it.
inductive Follows : Routine K V ω α → List (Exchange K V) → Routine K V ω α → Prop where
  | start (routine : Routine K V ω α) : Follows routine [] routine
  | call {routine : Routine K V ω α} {exchanges : List (Exchange K V)} {request : Request K V}
      {next : request.Response → Routine K V ω α} (response : request.Response) :
      Follows routine exchanges (.call request next) →
        Follows routine (exchanges ++ [⟨request, response⟩]) (next response)
  | aside {γ : Type} {routine : Routine K V ω α} {exchanges : List (Exchange K V)}
      {act : ω → γ × ω} {next : γ → Routine K V ω α} (answer : γ) :
      Follows routine exchanges (.aside act next) → Follows routine exchanges (next answer)

theorem Follows.cons {request : Request K V} {next : request.Response → Routine K V ω α}
    {response : request.Response} {exchanges : List (Exchange K V)} {rest : Routine K V ω α}
    (h : (next response).Follows exchanges rest) :
    (Routine.call request next).Follows (⟨request, response⟩ :: exchanges) rest := by
  generalize hfirst : next response = first at h
  induction h with
  | start routine =>
      subst hfirst
      exact .call response (.start _)
  | call response' _ ih => exact .call response' (ih hfirst)
  | aside answer _ ih => exact .aside answer (ih hfirst)

theorem Follows.trans {first second third : Routine K V ω α}
    {exchanges others : List (Exchange K V)} (h : first.Follows exchanges second)
    (h' : second.Follows others third) : first.Follows (exchanges ++ others) third := by
  induction h' with
  | start routine => rwa [List.append_nil]
  | call response _ ih =>
      rw [← List.append_assoc]
      exact .call response (ih h)
  | aside answer _ ih => exact .aside answer (ih h)

-- What is asked and answered when a routine is run.
def exchanges (serve : Server K V ω) : Routine K V ω α → ω → List (Exchange K V)
  | .done _, _ => []
  | .call request next, whole =>
    ⟨request, (serve request whole).1⟩ ::
      (next (serve request whole).1).exchanges serve (serve request whole).2
  | .aside act next, whole => (next (act whole).1).exchanges serve (act whole).2

theorem follows_exchanges (serve : Server K V ω) (routine : Routine K V ω α) (whole : ω) :
    routine.Follows (routine.exchanges serve whole) (.done (routine.run serve whole).1) := by
  induction routine generalizing whole with
  | done answer => exact .start _
  | call request next ih => exact .cons (ih _ _)
  | aside act next ih => exact (Follows.aside _ (.start _)).trans (ih _ _)

def Obeys (protocol : Protocol K V Φ) (post : Φ → α → Prop) : Routine K V ω α → Φ → Prop
  | .done answer, phase => post phase answer
  | .call request next, phase => protocol.Allows phase request ∧
      ∀ response, (next response).Obeys protocol post (protocol.after phase request response)
  | .aside _ next, phase => protocol.AllowsAside phase ∧
      ∀ answer, (next answer).Obeys protocol post phase

variable {protocol : Protocol K V Φ} {post : Φ → α → Prop} {phase : Φ}

@[simp]
theorem obeys_pure (answer : α) :
    (pure answer : Routine K V ω α).Obeys protocol post phase ↔ post phase answer :=
  Iff.rfl

@[simp]
theorem obeys_ask (request : Request K V) {post : Φ → request.Response → Prop} :
    (ask request : Routine K V ω request.Response).Obeys protocol post phase ↔
      protocol.Allows phase request ∧
      ∀ response, post (protocol.after phase request response) response :=
  Iff.rfl

-- The first part has to end where the second one may start.
@[simp]
theorem obeys_bind (routine : Routine K V ω α) (next : α → Routine K V ω β)
    {post : Φ → β → Prop} :
    (routine >>= next).Obeys protocol post phase ↔
      routine.Obeys protocol (fun phase answer => (next answer).Obeys protocol post phase)
        phase := by
  change (routine.bind next).Obeys protocol post phase ↔ _
  induction routine generalizing phase with
  | done answer => exact Iff.rfl
  | call request rest ih => exact and_congr_right fun _ => forall_congr' fun response => ih response
  | aside act rest ih => exact and_congr_right fun _ => forall_congr' fun answer => ih answer

@[simp]
theorem obeys_map (f : α → β) (routine : Routine K V ω α) {post : Φ → β → Prop} :
    (f <$> routine).Obeys protocol post phase ↔
      routine.Obeys protocol (fun phase answer => post phase (f answer)) phase := by
  rw [map_eq_pure_bind, obeys_bind]
  rfl

theorem Obeys.mono {routine : Routine K V ω α} (h : routine.Obeys protocol post phase)
    {post' : Φ → α → Prop} (himp : ∀ phase answer, post phase answer → post' phase answer) :
    routine.Obeys protocol post' phase := by
  induction routine generalizing phase with
  | done answer => exact himp _ _ h
  | call request rest ih => exact ⟨h.1, fun response => ih response (h.2 response)⟩
  | aside act rest ih => exact ⟨h.1, fun answer => ih answer (h.2 answer)⟩

-- A routine that obeys a protocol obeys any other one in which the same goes on.
theorem Obeys.embed {Ψ : Type} {other : Protocol K V Ψ} (image : Φ → Ψ)
    (hallows : ∀ phase request, protocol.Allows phase request → other.Allows (image phase) request)
    (hafter : ∀ phase request response, protocol.Allows phase request →
      other.after (image phase) request response = image (protocol.after phase request response))
    (haside : ∀ phase, protocol.AllowsAside phase → other.AllowsAside (image phase))
    {routine : Routine K V ω α} (h : routine.Obeys protocol post phase) :
    routine.Obeys other (fun phase' answer => ∃ phase, phase' = image phase ∧ post phase answer)
      (image phase) := by
  induction routine generalizing phase with
  | done answer => exact ⟨phase, rfl, h⟩
  | call request rest ih =>
      refine ⟨hallows _ _ h.1, fun response => ?_⟩
      rw [hafter _ _ _ h.1]
      exact ih response (h.2 response)
  | aside act rest ih => exact ⟨haside _ h.1, fun answer => ih answer (h.2 answer)⟩

-- What is left of a routine obeys the protocol from the phase that it has come to.
theorem Follows.obeys {routine rest : Routine K V ω α} {exchanges : List (Exchange K V)}
    (h : routine.Follows exchanges rest) (hobeys : routine.Obeys protocol post phase) :
    rest.Obeys protocol post (protocol.along phase exchanges) := by
  induction h with
  | start => exact hobeys
  | call response _ ih =>
      rw [Protocol.along, List.foldl_append]
      exact (ih hobeys).2 response
  | aside answer _ ih => exact (ih hobeys).2 answer

theorem Follows.admits {routine rest : Routine K V ω α} {exchanges : List (Exchange K V)}
    (h : routine.Follows exchanges rest) (hobeys : routine.Obeys protocol post phase) :
    protocol.Admits phase exchanges := by
  induction h with
  | start => trivial
  | call response hfollows ih =>
      refine (Protocol.admits_append _ _).mpr ⟨ih hobeys, ?_, trivial⟩
      exact (hfollows.obeys hobeys).1
  | aside answer _ ih => exact ih hobeys

end Routine

namespace Action

variable {K V S σ ω α β Φ : Type} {protocol : Protocol K V Φ} {phase : Φ}
  {post : Φ → Except Failure α → Prop}

def Obeys (protocol : Protocol K V Φ) (post : Φ → Except Failure α → Prop)
    (action : Action K V ω α) (phase : Φ) : Prop :=
  action.run.Obeys protocol post phase

@[simp]
theorem obeys_pure (answer : α) :
    (pure answer : Action K V ω α).Obeys protocol post phase ↔ post phase (.ok answer) :=
  Iff.rfl

@[simp]
theorem obeys_raise (failure : Failure) :
    (raise failure : Action K V ω α).Obeys protocol post phase ↔ post phase (.error failure) :=
  Iff.rfl

@[simp]
theorem obeys_ofExcept (outcome : Except Failure α) :
    (ofExcept outcome : Action K V ω α).Obeys protocol post phase ↔ post phase outcome :=
  Iff.rfl

@[simp]
theorem obeys_ofRoutine (routine : Routine K V ω α) :
    (ofRoutine routine).Obeys protocol post phase ↔
      routine.Obeys protocol (fun phase answer => post phase (.ok answer)) phase :=
  Routine.obeys_bind routine _

@[simp]
theorem obeys_ask (request : Request K V) {post : Φ → Except Failure request.Response → Prop} :
    (ask request : Action K V ω request.Response).Obeys protocol post phase ↔
      protocol.Allows phase request ∧
      ∀ response, post (protocol.after phase request response) (.ok response) :=
  Iff.rfl

@[simp]
theorem obeys_aside (act : ω → α × ω) :
    (aside act : Action K V ω α).Obeys protocol post phase ↔
      protocol.AllowsAside phase ∧ ∀ answer, post phase (.ok answer) :=
  Iff.rfl

-- A failure ends the action at once.
@[simp]
theorem obeys_bind (action : Action K V ω α) (next : α → Action K V ω β)
    {post : Φ → Except Failure β → Prop} :
    (action >>= next).Obeys protocol post phase ↔
      action.Obeys protocol (fun phase outcome => match outcome with
        | .ok answer => (next answer).Obeys protocol post phase
        | .error failure => post phase (.error failure)) phase := by
  unfold Obeys
  rw [ExceptT.run_bind, Routine.obeys_bind]
  refine ⟨fun h => h.mono ?_, fun h => h.mono ?_⟩ <;>
  · rintro phase (failure | answer) hpost
    · exact hpost
    · exact hpost

theorem obeys_ask_bind (request : Request K V) (next : request.Response → Action K V ω β)
    {post : Φ → Except Failure β → Prop} :
    (ask request >>= next).Obeys protocol post phase ↔ protocol.Allows phase request ∧
      ∀ response, (next response).Obeys protocol post (protocol.after phase request response) := by
  rw [obeys_bind, obeys_ask]

theorem obeys_ofRoutine_bind (routine : Routine K V ω α) (next : α → Action K V ω β)
    {post : Φ → Except Failure β → Prop} :
    (ofRoutine routine >>= next).Obeys protocol post phase ↔ routine.Obeys protocol
      (fun phase answer => (next answer).Obeys protocol post phase) phase := by
  rw [obeys_bind, obeys_ofRoutine]

@[simp]
theorem obeys_map (f : α → β) (action : Action K V ω α)
    {post : Φ → Except Failure β → Prop} :
    (f <$> action).Obeys protocol post phase ↔
      action.Obeys protocol (fun phase outcome => post phase (outcome.map f)) phase := by
  rw [map_eq_pure_bind, obeys_bind]
  refine ⟨fun h => Routine.Obeys.mono h ?_, fun h => Routine.Obeys.mono h ?_⟩ <;>
  · rintro phase (failure | answer) hpost
    · exact hpost
    · exact hpost

@[simp]
theorem obeys_exclusively (action : Action K V ω α) :
    (exclusively action).Obeys protocol post phase ↔
      protocol.Allows phase .acquire ∧ action.Obeys protocol (fun phase outcome =>
        protocol.Allows phase .release ∧ post (protocol.after phase .release ()) outcome)
        (protocol.after phase .acquire ()) := by
  unfold Obeys exclusively
  rw [ExceptT.run_mk, Routine.obeys_bind, Routine.obeys_ask]
  simp only [Routine.obeys_bind, Routine.obeys_pure]
  apply and_congr_right
  intro _
  constructor
  · intro h
    exact (h ()).mono fun _ _ hends => ⟨hends.1, hends.2 ()⟩
  · intro h _
    exact h.mono fun _ _ hends => ⟨hends.1, fun _ => hends.2⟩

theorem Obeys.mono {action : Action K V ω α} (h : action.Obeys protocol post phase)
    {post' : Φ → Except Failure α → Prop}
    (himp : ∀ phase outcome, post phase outcome → post' phase outcome) :
    action.Obeys protocol post' phase :=
  Routine.Obeys.mono h himp

end Action

end SnapshotStore
