import SnapshotStore.Persistence
import SnapshotStore.Proofs.Routine.Protocol

namespace SnapshotStore.Persistence

inductive Stage where
  | unopened
  -- open, with what has been written so far
  | opened (location : Location) (written : Bytes)
  -- written whole and brought to the disk
  | synced (location : Location)
  -- something went wrong with the open file
  | spoiled (location : Location)
  | refused
  | dropped
  | replaced
  deriving DecidableEq

namespace Stage

variable {K V : Type}

-- What may be asked for while `content` takes the place of the file.
def Allows (path : Path) (content : Bytes) : Stage → Request K V → Prop
  | unopened, .create target => target = path.temporary
  | opened location _, .append target _ => target = location
  | opened location written, .sync target => target = location ∧ written = content
  | synced _, .rename source target => source = path.temporary ∧ target = path
  | spoiled _, .discard target => target = path.temporary
  | _, _ => False

def after : Stage → (request : Request K V) → request.Response → Stage
  | unopened, .create _, .ok location => opened location []
  | unopened, .create _, .error _ => refused
  | opened location written, .append _ bytes, .ok _ => opened location (written ++ bytes)
  | opened location _, .append _ _, .error _ => spoiled location
  | opened location _, .sync _, .ok _ => synced location
  | opened location _, .sync _, .error _ => spoiled location
  | synced _, .rename _ _, .ok _ => replaced
  | synced location, .rename _ _, .error _ => spoiled location
  | spoiled _, .discard _, _ => dropped
  | stage, _, _ => stage

-- How the replacement ends in a stage from which nothing more is asked for.
def EndsWith (path : Path) : Stage → Except Failure Unit → Prop
  | replaced, outcome => outcome = .ok ()
  | refused, outcome => outcome = .error (.store (.io (.openTemporary path.temporary)))
  | dropped, outcome =>
    outcome = .error (.store (.io (.writeTemporary path.temporary))) ∨
    ∃ reason, outcome = .error (.store (.io (.rename path.temporary path reason)))
  | _, _ => False

end Stage

-- The steps that the stages allow, each with what it leads to.
inductive Turn {K V : Type} (path : Path) (content : Bytes) :
    Stage → Exchange K V → Stage → Prop where
  | opens (location : Location) : Turn path content .unopened
      ⟨.create path.temporary, .ok location⟩ (.opened location [])
  | refuses (reason : Errno) : Turn path content .unopened
      ⟨.create path.temporary, .error reason⟩ .refused
  | appends (location : Location) (written bytes : Bytes) : Turn path content
      (.opened location written) ⟨.append location bytes, .ok ()⟩
      (.opened location (written ++ bytes))
  | appendFails (location : Location) (written bytes : Bytes) (reason : Errno) : Turn path content
      (.opened location written) ⟨.append location bytes, .error reason⟩ (.spoiled location)
  | syncs (location : Location) : Turn path content (.opened location content)
      ⟨.sync location, .ok ()⟩ (.synced location)
  | syncFails (location : Location) (reason : Errno) : Turn path content
      (.opened location content) ⟨.sync location, .error reason⟩ (.spoiled location)
  | renames (location : Location) : Turn path content (.synced location)
      ⟨.rename path.temporary path, .ok ()⟩ .replaced
  | renameFails (location : Location) (reason : Errno) : Turn path content (.synced location)
      ⟨.rename path.temporary path, .error reason⟩ (.spoiled location)
  | discards (location : Location) : Turn path content (.spoiled location)
      ⟨.discard path.temporary, ()⟩ .dropped

theorem Stage.Allows.turn {K V : Type} {path : Path} {content : Bytes} {stage : Stage}
    {request : Request K V} (h : stage.Allows path content request)
    (response : request.Response) :
    Turn path content stage ⟨request, response⟩ (stage.after request response) := by
  cases stage with
  | unopened =>
      cases request with
      | create target =>
          obtain rfl : target = path.temporary := h
          cases response with
          | ok location => exact .opens location
          | error reason => exact .refuses reason
      | _ => exact h.elim
  | opened location written =>
      cases request with
      | append target bytes =>
          obtain rfl : target = location := h
          cases response with
          | ok _ => exact .appends target written bytes
          | error reason => exact .appendFails target written bytes reason
      | sync target =>
          obtain ⟨rfl, rfl⟩ := h
          cases response with
          | ok _ => exact .syncs target
          | error reason => exact .syncFails target reason
      | _ => exact h.elim
  | synced location =>
      cases request with
      | rename source target =>
          obtain ⟨rfl, rfl⟩ := h
          cases response with
          | ok _ => exact .renames location
          | error reason => exact .renameFails location reason
      | _ => exact h.elim
  | spoiled location =>
      cases request with
      | discard target =>
          obtain rfl : target = path.temporary := h
          exact .discards location
      | _ => exact h.elim
  | refused => cases request <;> exact h.elim
  | dropped => cases request <;> exact h.elim
  | replaced => cases request <;> exact h.elim

theorem Turn.eq_replaced_iff {K V : Type} {path : Path} {content : Bytes} {stage next : Stage}
    {exchange : Exchange K V} (h : Turn path content stage exchange next) :
    next = .replaced ↔ stage = .replaced ∨ exchange.renames = true := by
  cases h <;> simp [Exchange.renames]

theorem Turn.eq_refused_iff {K V : Type} {path : Path} {content : Bytes} {stage next : Stage}
    {exchange : Exchange K V} (h : Turn path content stage exchange next) :
    next = .refused ↔ stage = .refused ∨ exchange.refuses = true := by
  cases h <;> simp [Exchange.refuses]

def replacement (K V : Type) (path : Path) (content : Bytes) : Protocol K V Stage where
  Allows := Stage.Allows path content
  AllowsAside _ := False
  after := Stage.after

variable {K V ω : Type}

-- The chunks are written one after the other, up to the first one that fails.
theorem obeys_appendAll (path : Path) (location : Location) (chunks : List Bytes)
    (written : Bytes) :
    (appendAll location chunks : Routine K V ω _).Obeys
      (replacement K V path (written ++ chunks.flatten))
      (fun stage outcome => match outcome with
        | .ok _ => stage = .synced location
        | .error _ => stage = .spoiled location)
      (.opened location written) := by
  induction chunks generalizing written with
  | nil =>
      refine ⟨⟨rfl, by simp⟩, ?_⟩
      rintro (reason | _)
      · exact rfl
      · exact rfl
  | cons chunk rest ih =>
      rw [appendAll, Routine.obeys_bind]
      refine ⟨rfl, ?_⟩
      rintro (reason | _)
      · exact rfl
      · have hrest := ih (written ++ chunk)
        rw [List.append_assoc] at hrest
        exact hrest

theorem obeys_abandon (path : Path) (location : Location) (content : Bytes) (cause : IoCause)
    (hcause : cause = .writeTemporary path.temporary ∨
      ∃ reason, cause = .rename path.temporary path reason) :
    (abandon path.temporary cause : Action K V ω Unit).Obeys (replacement K V path content)
      (Stage.EndsWith path) (.spoiled location) := by
  refine ⟨rfl, fun _ => ?_⟩
  rcases hcause with rfl | ⟨reason, rfl⟩
  · exact .inl rfl
  · exact .inr ⟨reason, rfl⟩

theorem obeys_replaceFile (path : Path) (chunks : List Bytes) :
    (replaceFile path chunks : Action K V ω Unit).Obeys (replacement K V path chunks.flatten)
      (Stage.EndsWith path) .unopened := by
  refine (Action.obeys_ask_bind _ _).mpr ⟨rfl, ?_⟩
  rintro (reason | location)
  · exact rfl
  · refine (Action.obeys_ofRoutine_bind _ _).mpr ((obeys_appendAll path location chunks []).mono ?_)
    rintro stage (reason | _) rfl
    · exact obeys_abandon path location _ _ (.inl rfl)
    · refine (Action.obeys_ask_bind _ _).mpr ⟨⟨rfl, rfl⟩, ?_⟩
      rintro (reason | _)
      · exact obeys_abandon path location _ _ (.inr ⟨reason, rfl⟩)
      · exact rfl

end SnapshotStore.Persistence
