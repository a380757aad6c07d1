import SnapshotStore.Persistence
import SnapshotStore.Routine.Run

namespace SnapshotStore

variable {K V S S' σ σ' α α' β β' : Type}

inductive Glimpse (K V : Type) where
  | told (position : Nat) (event : Event K V) (outcome : Except Failure Unit)
  | nudged (accepted : Bool)
  -- the files as they are after a request to them, or after something that a callback does
  | files (tree : FileTree)

def Glimpse.isTold : Glimpse K V → Bool
  | .told _ _ _ => true
  | _ => false

def Request.glimpses (request : Request K V) (response : request.Response) (files : FileTree) :
    List (Glimpse K V) :=
  match request, response with
  | .create _, _ => [.files files]
  | .append _ _, _ => [.files files]
  | .sync _, _ => [.files files]
  | .rename _ _, _ => [.files files]
  | .discard _, _ => [.files files]
  | .notify position event, outcome => [.told position event outcome]
  | .nudge, accepted => [.nudged accepted]
  | _, _ => []

-- A request to what is beside the map and the desk.
def Request.IsOutside : Request K V → Prop
  | .acquire => True
  | .release => True
  | .create _ => True
  | .append _ _ => True
  | .sync _ => True
  | .rename _ _ => True
  | .discard _ => True
  | .nudge => True
  | _ => False

namespace Routine

-- What is seen of a run from beside the map.
def chronicle (setting : Setting K V S σ) :
    Routine K V (World S σ) α → World S σ → List (Glimpse K V)
  | .done _, _ => []
  | .call request next, world =>
    let (response, after) := world.serve setting request
    request.glimpses response after.files ++ (next response).chronicle setting after
  | .aside act next, world =>
    let (answer, after) := act world
    .files after.files :: (next answer).chronicle setting after

theorem chronicle_bind (setting : Setting K V S σ) (routine : Routine K V (World S σ) α)
    (next : α → Routine K V (World S σ) β) (world : World S σ) :
    (routine >>= next).chronicle setting world = routine.chronicle setting world ++
      (next (routine.run (World.serve setting) world).1).chronicle setting
        (routine.run (World.serve setting) world).2 := by
  change (routine.bind next).chronicle setting world = _
  induction routine generalizing world with
  | done answer => rfl
  | call request rest ih =>
      simp only [bind, chronicle, run, List.append_assoc]
      exact congrArg (_ ++ ·) (ih _ _)
  | aside act rest ih => exact congrArg (List.cons _) (ih _ _)

end Routine

-- How the results of two actions are compared, by way of their answers.
inductive Outcomes (answers : α → α' → Prop) : Except Failure α → Except Failure α' → Prop where
  | ok {answer : α} {answer' : α'} : answers answer answer' →
      Outcomes answers (.ok answer) (.ok answer')
  | error (failure : Failure) : Outcomes answers (.error failure) (.error failure)

-- What two runs have to have in common.
structure Likeness (setting : Setting K V S σ) (setting' : Setting K V S' σ') where
  maps : S → S' → Prop
  desks : σ → σ' → Prop
  -- lists that are made from the maps
  lists {γ : Type} : List γ → List γ → Prop
  lists_map {γ δ : Type} (f : γ → δ) {list list' : List γ} :
    lists list list' → lists (list.map f) (list'.map f)
  lists_length {γ : Type} {list list' : List γ} : lists list list' → list.length = list'.length
  -- the part of the chronicles that is compared
  compared : Glimpse K V → Bool

namespace Likeness

variable {setting : Setting K V S σ} {setting' : Setting K V S' σ'}

structure Worlds (likeness : Likeness setting setting') (world : World S σ)
    (world' : World S' σ') : Prop where
  map : likeness.maps world.map world'.map
  desk : likeness.desks world.desk world'.desk
  files : world'.files = world.files
  channel : world'.channel = world.channel
  mishaps : world'.mishaps = world.mishaps
  saving : world'.saving = world.saving
  saves : world'.saves = world.saves

-- Run in worlds that are alike, the routines give answers that are alike and leave worlds that are
-- alike, and their chronicles do not differ where they are compared.
def Alike (likeness : Likeness setting setting') (answers : α → α' → Prop)
    (routine : Routine K V (World S σ) α) (routine' : Routine K V (World S' σ') α') : Prop :=
  ∀ world world', likeness.Worlds world world' →
    answers (routine.run (World.serve setting) world).1
      (routine'.run (World.serve setting') world').1 ∧
    likeness.Worlds (routine.run (World.serve setting) world).2
      (routine'.run (World.serve setting') world').2 ∧
    (routine.chronicle setting world).filter likeness.compared =
      (routine'.chronicle setting' world').filter likeness.compared

abbrev ActAlike (likeness : Likeness setting setting') (answers : α → α' → Prop)
    (action : Action K V (World S σ) α) (action' : Action K V (World S' σ') α') : Prop :=
  likeness.Alike (Outcomes answers) action.run action'.run

variable {likeness : Likeness setting setting'} {answers : α → α' → Prop}
  {outcomes : β → β' → Prop}

theorem Alike.mono {routine : Routine K V (World S σ) α} {routine' : Routine K V (World S' σ') α'}
    {others : α → α' → Prop} (h : likeness.Alike answers routine routine')
    (hmono : ∀ answer answer', answers answer answer' → others answer answer') :
    likeness.Alike others routine routine' := by
  intro world world' hworlds
  obtain ⟨hanswers, hafter, hchronicle⟩ := h world world' hworlds
  exact ⟨hmono _ _ hanswers, hafter, hchronicle⟩

theorem alike_pure {answer : α} {answer' : α'} (h : answers answer answer') :
    likeness.Alike answers (pure answer) (pure answer') :=
  fun _ _ hworlds => ⟨h, hworlds, rfl⟩

theorem alike_bind {routine : Routine K V (World S σ) α}
    {routine' : Routine K V (World S' σ') α'} {next : α → Routine K V (World S σ) β}
    {next' : α' → Routine K V (World S' σ') β'} (h : likeness.Alike answers routine routine')
    (hnext : ∀ answer answer', answers answer answer' →
      likeness.Alike outcomes (next answer) (next' answer')) :
    likeness.Alike outcomes (routine >>= next) (routine' >>= next') := by
  intro world world' hworlds
  obtain ⟨hanswers, hmiddle, hfirst⟩ := h world world' hworlds
  obtain ⟨houtcomes, hafter, hrest⟩ := hnext _ _ hanswers _ _ hmiddle
  rw [Routine.run_bind, Routine.run_bind, Routine.chronicle_bind, Routine.chronicle_bind,
    List.filter_append, List.filter_append, hfirst, hrest]
  exact ⟨houtcomes, hafter, rfl⟩

theorem alike_map {f : α → β} {f' : α' → β'} {routine : Routine K V (World S σ) α}
    {routine' : Routine K V (World S' σ') α'} (h : likeness.Alike answers routine routine')
    (hf : ∀ answer answer', answers answer answer' → outcomes (f answer) (f' answer')) :
    likeness.Alike outcomes (f <$> routine) (f' <$> routine') := by
  rw [map_eq_pure_bind, map_eq_pure_bind]
  exact alike_bind h fun answer answer' hanswers => alike_pure (hf answer answer' hanswers)

theorem act_pure {answer : α} {answer' : α'} (h : answers answer answer') :
    likeness.ActAlike answers (pure answer) (pure answer') :=
  alike_pure (.ok h)

theorem act_raise (failure : Failure) :
    likeness.ActAlike answers (Action.raise failure) (Action.raise failure) :=
  alike_pure (.error failure)

theorem act_ofExcept (outcome : Except Failure α) :
    likeness.ActAlike Eq (Action.ofExcept outcome) (Action.ofExcept outcome) := by
  refine alike_pure ?_
  cases outcome with
  | error failure => exact .error failure
  | ok answer => exact .ok rfl

theorem act_ofRoutine {routine : Routine K V (World S σ) α}
    {routine' : Routine K V (World S' σ') α'} (h : likeness.Alike answers routine routine') :
    likeness.ActAlike answers (Action.ofRoutine routine) (Action.ofRoutine routine') :=
  alike_bind h fun _ _ hanswers => alike_pure (.ok hanswers)

-- A failure on one side is the same failure on the other, and the rest is run on neither.
theorem act_bind {action : Action K V (World S σ) α} {action' : Action K V (World S' σ') α'}
    {next : α → Action K V (World S σ) β} {next' : α' → Action K V (World S' σ') β'}
    (h : likeness.ActAlike answers action action')
    (hnext : ∀ answer answer', answers answer answer' →
      likeness.ActAlike outcomes (next answer) (next' answer')) :
    likeness.ActAlike outcomes (action >>= next) (action' >>= next') := by
  unfold ActAlike
  rw [ExceptT.run_bind, ExceptT.run_bind]
  refine alike_bind h fun outcome outcome' houtcomes => ?_
  cases houtcomes with
  | ok hanswers => exact hnext _ _ hanswers
  | error failure => exact alike_pure (.error failure)

theorem act_map {f : α → β} {f' : α' → β'} {action : Action K V (World S σ) α}
    {action' : Action K V (World S' σ') α'} (h : likeness.ActAlike answers action action')
    (hf : ∀ answer answer', answers answer answer' → outcomes (f answer) (f' answer')) :
    likeness.ActAlike outcomes (f <$> action) (f' <$> action') := by
  rw [map_eq_pure_bind, map_eq_pure_bind]
  exact act_bind h fun answer answer' hanswers => act_pure (hf answer answer' hanswers)

theorem Worlds.change {world : World S σ} {world' : World S' σ'}
    (h : likeness.Worlds world world') (outcome : Except Errno FileTree) :
    (world'.change outcome).1 = (world.change outcome).1 ∧
    likeness.Worlds (world.change outcome).2 (world'.change outcome).2 := by
  cases outcome with
  | error reason => exact ⟨rfl, h⟩
  | ok files => exact ⟨rfl, { h with files := rfl }⟩

theorem Worlds.mishap {world : World S σ} {world' : World S' σ'}
    (h : likeness.Worlds world world') : world'.mishap = world.mishap := by
  rw [World.mishap, World.mishap, h.mishaps, h.saves]

theorem Worlds.create {world : World S σ} {world' : World S' σ'}
    (h : likeness.Worlds world world') (path : Path) :
    (world'.create path).1 = (world.create path).1 ∧
    likeness.Worlds (world.create path).2 (world'.create path).2 := by
  unfold World.create
  rw [h.mishap, h.files]
  split
  · exact ⟨rfl, h⟩
  · cases world.files.create path with
    | error reason => exact ⟨rfl, h⟩
    | ok created => exact ⟨rfl, { h with files := rfl }⟩

theorem Worlds.serve_outside {request : Request K V} {world : World S σ} {world' : World S' σ'}
    (h : likeness.Worlds world world') (hrequest : request.IsOutside) :
    (world'.serve setting' request).1 = (world.serve setting request).1 ∧
    likeness.Worlds (world.serve setting request).2 (world'.serve setting' request).2 := by
  cases request with
  | acquire => exact ⟨rfl, { h with saving := rfl }⟩
  | release =>
      exact ⟨rfl, { h with saving := rfl, saves := congrArg (· + 1) h.saves }⟩
  | discard path => exact ⟨rfl, { h with files := congrArg (·.discard path) h.files }⟩
  | nudge =>
      simp only [World.serve, h.channel]
      exact ⟨trivial, { h with channel := rfl }⟩
  | create path => exact h.create path
  | append location bytes =>
      simp only [World.serve, World.append, h.mishap, h.files]
      rcases world.mishap with _ | _ | _ | ⟨written, reason⟩ | _ | _ <;>
        first
        | exact h.change _
        | exact ⟨rfl, (h.change _).2⟩
  | sync location =>
      simp only [World.serve, World.sync, h.mishap]
      exact ⟨trivial, h⟩
  | rename source target =>
      simp only [World.serve, World.rename, h.mishap, h.files]
      cases world.mishap <;>
        first
        | exact h.change _
        | exact ⟨rfl, h⟩
  | _ => exact hrequest.elim

theorem alike_ask {request : Request K V}
    (h : ∀ world world', likeness.Worlds world world' →
      (world'.serve setting' request).1 = (world.serve setting request).1 ∧
      likeness.Worlds (world.serve setting request).2 (world'.serve setting' request).2) :
    likeness.Alike Eq (Routine.ask request) (Routine.ask request) := by
  intro world world' hworlds
  obtain ⟨hresponse, hafter⟩ := h world world' hworlds
  refine ⟨hresponse.symm, hafter, ?_⟩
  simp only [Routine.ask, Routine.chronicle, hresponse, hafter.files]

theorem alike_outside {request : Request K V} (hrequest : request.IsOutside) :
    likeness.Alike Eq (Routine.ask request) (Routine.ask request) :=
  alike_ask fun _ _ hworlds => hworlds.serve_outside hrequest

theorem act_outside {request : Request K V} (hrequest : request.IsOutside) :
    likeness.ActAlike Eq (Action.ask request) (Action.ask request) :=
  act_ofRoutine (alike_outside hrequest)

theorem act_exclusively {action : Action K V (World S σ) α} {action' : Action K V (World S' σ') α'}
    (h : likeness.ActAlike answers action action') :
    likeness.ActAlike answers (Action.exclusively action) (Action.exclusively action') := by
  refine alike_bind (alike_outside trivial) fun _ _ _ => ?_
  refine alike_bind h fun outcome outcome' houtcomes => ?_
  exact alike_bind (alike_outside trivial) fun _ _ _ => alike_pure houtcomes

theorem alike_appendAll (location : Location) (chunks : List Bytes) :
    likeness.Alike Eq (Persistence.appendAll location chunks)
      (Persistence.appendAll location chunks) := by
  induction chunks with
  | nil => exact alike_outside trivial
  | cons chunk rest ih =>
      refine alike_bind (alike_outside trivial) ?_
      rintro (reason | _) _ rfl
      · exact alike_pure rfl
      · exact ih

theorem act_abandon (temporary : Path) (cause : IoCause) :
    likeness.ActAlike answers (Persistence.abandon temporary cause)
      (Persistence.abandon temporary cause) := by
  have hdiscard : likeness.ActAlike Eq (Action.ask (.discard temporary))
      (Action.ask (.discard temporary)) := act_outside trivial
  exact act_bind hdiscard fun _ _ _ => act_raise _

theorem act_replaceFile (path : Path) (chunks : List Bytes) :
    likeness.ActAlike Eq (Persistence.replaceFile path chunks)
      (Persistence.replaceFile path chunks) := by
  refine act_bind (act_outside trivial) ?_
  rintro (reason | location) _ rfl
  · exact act_raise _
  · refine act_bind (act_ofRoutine (alike_appendAll location chunks)) ?_
    rintro (reason | _) _ rfl
    · exact act_abandon _ _
    · refine act_bind (act_outside trivial) ?_
      rintro (reason | _) _ rfl
      · exact act_abandon _ _
      · exact act_pure rfl

end Likeness

end SnapshotStore
