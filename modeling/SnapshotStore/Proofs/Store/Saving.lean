import SnapshotStore.Proofs.Persistence.Stages
import SnapshotStore.Store.Command

namespace SnapshotStore.Store

open Persistence (Stage)

inductive Phase (K V : Type) where
  | outside
  -- so many segments are copied
  | copying (count : Nat) (copied : List (K × V))
  | replacing (copied : List (K × V)) (bytes : Bytes) (stage : Stage)
  -- there were no bytes to write
  | unencoded

namespace Phase

variable {K V S : Type}

-- The requests to the map and to the listeners.
def IsPlain (segments : Nat) : Request K V → Prop
  | .insert _ _ => True
  | .get _ => True
  | .remove _ => True
  | .contains _ => True
  | .copy _ => True
  | .count _ => True
  | .wipe segment => segment < segments
  | .notify _ _ => True
  | .nudge => True
  | _ => False

def Allows (segments : Nat) (path : Path) : Phase K V → Request K V → Prop
  | outside, .acquire => True
  | outside, request => IsPlain segments request
  | copying count _, .copy segment => segment = count ∧ count < segments
  | copying count copied, .serialize entries => count = segments ∧ entries = copied
  | replacing _ _ stage, .release => stage = .refused ∨ stage = .dropped ∨ stage = .replaced
  | replacing _ bytes stage, request => stage.Allows path bytes request
  | unencoded, .release => True
  | _, _ => False

def after : Phase K V → (request : Request K V) → request.Response → Phase K V
  | outside, .acquire, _ => copying 0 []
  | copying count copied, .copy _, entries => copying (count + 1) (copied ++ entries)
  | copying _ copied, .serialize _, .ok bytes => replacing copied bytes .unopened
  | copying _ _, .serialize _, .error _ => unencoded
  | replacing _ _ _, .release, _ => outside
  | replacing copied bytes stage, request, response =>
    replacing copied bytes (stage.after request response)
  | unencoded, .release, _ => outside
  | phase, _, _ => phase

-- Phases in which a save has nothing more to ask for than to give the lock back.
def IsClosing : Phase K V → Prop
  | replacing _ _ stage => stage = .refused ∨ stage = .dropped ∨ stage = .replaced
  | unencoded => True
  | _ => False

end Phase

-- Callbacks run outside of saves.
def saving (K V : Type) (segments : Nat) (path : Path) : Protocol K V (Phase K V) where
  Allows := Phase.Allows segments path
  AllowsAside phase := phase = .outside
  after := Phase.after

-- The steps that the phases allow, each with what it leads to.
inductive Turn {K V : Type} (segments : Nat) (path : Path) :
    Phase K V → Exchange K V → Phase K V → Prop where
  | plain {request : Request K V} (response : request.Response) : Phase.IsPlain segments request →
      Turn segments path .outside ⟨request, response⟩ .outside
  | acquires : Turn segments path .outside ⟨.acquire, ()⟩ (.copying 0 [])
  | copies {count : Nat} (copied entries : List (K × V)) : count < segments →
      Turn segments path (.copying count copied) ⟨.copy count, entries⟩
        (.copying (count + 1) (copied ++ entries))
  | encodes (copied : List (K × V)) (bytes : Bytes) : Turn segments path
      (.copying segments copied) ⟨.serialize copied, .ok bytes⟩
      (.replacing copied bytes .unopened)
  | encodeFails (copied : List (K × V)) (failure : Failure) : Turn segments path
      (.copying segments copied) ⟨.serialize copied, .error failure⟩ .unencoded
  | replaces (copied : List (K × V)) {bytes : Bytes} {stage next : Stage}
      {exchange : Exchange K V} : Persistence.Turn path bytes stage exchange next →
      Turn segments path (.replacing copied bytes stage) exchange (.replacing copied bytes next)
  | releases {phase : Phase K V} : phase.IsClosing →
      Turn segments path phase ⟨.release, ()⟩ .outside

theorem Phase.Allows.turn {K V : Type} {segments : Nat} {path : Path} {phase : Phase K V}
    {request : Request K V} (h : phase.Allows segments path request)
    (response : request.Response) :
    Turn segments path phase ⟨request, response⟩ (phase.after request response) := by
  cases phase with
  | outside =>
      cases request with
      | acquire => exact .acquires
      | _ => exact .plain response h
  | copying count copied =>
      cases request with
      | copy segment =>
          obtain ⟨rfl, hcount⟩ := h
          exact .copies copied response hcount
      | serialize entries =>
          obtain ⟨rfl, rfl⟩ := h
          cases response with
          | ok bytes => exact .encodes entries bytes
          | error failure => exact .encodeFails entries failure
      | _ => exact h.elim
  | replacing copied bytes stage =>
      cases request with
      | release => exact .releases h
      | _ => exact .replaces copied (Persistence.Stage.Allows.turn h response)
  | unencoded =>
      cases request with
      | release => exact .releases trivial
      | _ => exact h.elim

variable {K V S σ ω α β : Type} {segments : Nat} {path : Path}

theorem obeys_snapshotFrom (count n : Nat) (hn : count + n ≤ segments) (copied : List (K × V)) :
    (Memory.snapshotFrom (List.range' count n) : Routine K V ω _).Obeys (saving K V segments path)
      (fun phase entries => phase = .copying (count + n) (copied ++ entries))
      (.copying count copied) := by
  induction n generalizing count copied with
  | zero =>
      rw [List.range'_zero, Memory.snapshotFrom, Routine.obeys_pure, List.append_nil]
      rfl
  | succ n ih =>
      rw [List.range'_succ, Memory.snapshotFrom, Routine.obeys_bind, Routine.obeys_ask]
      refine ⟨⟨rfl, by omega⟩, fun entries => ?_⟩
      rw [Routine.obeys_bind]
      apply (ih (count + 1) (by omega) (copied ++ entries)).mono
      rintro phase others rfl
      rw [Routine.obeys_pure, List.append_assoc, show count + 1 + n = count + (n + 1) by omega]

theorem obeys_snapshot (backend : Backend K V S) :
    (Memory.snapshot backend : Routine K V ω _).Obeys (saving K V backend.segments path)
      (fun phase entries => phase = .copying backend.segments entries) (.copying 0 []) := by
  unfold Memory.snapshot
  rw [List.range_eq_range']
  apply (obeys_snapshotFrom 0 backend.segments (by omega) []).mono
  rintro phase entries rfl
  rw [Nat.zero_add, List.nil_append]

-- The stages of replacing the file go on inside a save.
theorem obeys_of_replacement {post : Stage → α → Prop} {routine : Routine K V ω α} {bytes : Bytes}
    {stage : Stage} (segments : Nat) (copied : List (K × V))
    (h : routine.Obeys (Persistence.replacement K V path bytes) post stage) :
    routine.Obeys (saving K V segments path)
      (fun phase answer => ∃ stage, phase = .replacing copied bytes stage ∧ post stage answer)
      (.replacing copied bytes stage) := by
  refine h.embed (Phase.replacing copied bytes) ?_ ?_ ?_
  · intro stage request hallows
    cases request with
    | release => cases stage <;> exact hallows.elim
    | _ => exact hallows
  · intro stage request response hallows
    cases request with
    | release => cases stage <;> exact hallows.elim
    | _ => exact rfl
  · exact fun _ hfalse => False.elim hfalse

theorem flatten_chunksOf (bytes : Bytes) : (Persistence.chunksOf bytes).flatten = bytes := by
  cases bytes with
  | nil => rfl
  | cons byte rest => simp [Persistence.chunksOf]

theorem obeys_write (persistence : Persistence K V) (entries : List (K × V)) :
    (persistence.write entries : Action K V ω Unit).Obeys
      (saving K V segments persistence.path) (fun phase _ => phase.IsClosing)
      (.copying segments entries) := by
  refine (Action.obeys_ask_bind _ _).mpr ⟨⟨rfl, rfl⟩, ?_⟩
  rintro (failure | bytes)
  · exact trivial
  · have hreplace := obeys_of_replacement segments entries
      (Persistence.obeys_replaceFile (K := K) (V := V) (ω := ω) persistence.path
        (Persistence.chunksOf bytes))
    rw [flatten_chunksOf] at hreplace
    apply hreplace.mono
    rintro _ outcome ⟨stage, rfl, hends⟩
    cases stage with
    | refused => exact .inl rfl
    | dropped => exact .inr (.inl rfl)
    | replaced => exact .inr (.inr rfl)
    | _ => exact hends.elim

theorem obeys_saveFrom (persistence : Persistence K V) (backend : Backend K V S) :
    (persistence.saveFrom backend : Action K V ω Nat).Obeys
      (saving K V backend.segments persistence.path) (fun phase _ => phase = .outside)
      .outside := by
  refine (Action.obeys_exclusively _).mpr ⟨trivial, ?_⟩
  refine (Action.obeys_ofRoutine_bind _ _).mpr ((obeys_snapshot backend).mono ?_)
  rintro _ entries rfl
  rw [Action.obeys_bind]
  apply (obeys_write persistence entries).mono
  rintro phase outcome hclosing
  have hrelease : (saving K V backend.segments persistence.path).Allows phase .release ∧
      (saving K V backend.segments persistence.path).after phase .release () = .outside := by
    cases phase with
    | replacing copied bytes stage => exact ⟨hclosing, rfl⟩
    | unencoded => exact ⟨trivial, rfl⟩
    | _ => exact hclosing.elim
  cases outcome with
  | ok _ => exact hrelease
  | error failure => exact hrelease

end SnapshotStore.Store
