import SnapshotStore.Proofs.Routine.Protocol

namespace SnapshotStore

namespace FileTree

-- A request for the files is done as they allow it, or it fails. What fails leaves them alone,
-- except that a part of the bytes may be written. Other requests do not touch the files.
def Serves {K V : Type} (before : FileTree) :
    (request : Request K V) → request.Response → FileTree → Prop
  | .create path, .ok location, after => before.create path = .ok (location, after)
  | .append location bytes, .ok _, after => before.append location bytes = .ok after
  | .append location bytes, .error _, after =>
    after = before ∨ ∃ count, before.append location (bytes.take count) = .ok after
  | .rename source target, .ok _, after => before.rename source target = .ok after
  | .discard path, _, after => after = before.discard path
  | _, _, after => after = before

def ServesAll {K V : Type} : FileTree → List (Exchange K V) → FileTree → Prop
  | before, [], after => after = before
  | before, exchange :: rest, after => ∃ middle : FileTree,
    before.Serves exchange.request exchange.response middle ∧ middle.ServesAll rest after

end FileTree

-- A world serves its requests on the files that it has.
theorem World.serves {K V S σ : Type} (setting : Setting K V S σ) (request : Request K V)
    (world : World S σ) : world.files.Serves request (world.serve setting request).1
      (world.serve setting request).2.files := by
  cases request with
  | create path =>
      simp only [serve, create]
      split
      · exact rfl
      · split
        · rename_i hcreate
          exact hcreate
        · exact rfl
  | append location bytes =>
      simp only [serve, append, change]
      split
      · rename_i written reason _
        cases happend : world.files.append location (bytes.take written) with
        | ok files => exact .inr ⟨written, happend⟩
        | error reason => exact .inl rfl
      · cases happend : world.files.append location bytes with
        | ok files => exact happend
        | error reason => exact .inl rfl
  | rename source target =>
      simp only [serve, rename, change]
      split
      · exact rfl
      · cases hrename : world.files.rename source target with
        | ok files => exact hrename
        | error reason => exact rfl
  | wipe segment =>
      simp only [serve, wipe]
      cases setting.backend.bulk with
      | none => exact rfl
      | some bulk => exact rfl
  | notify position event =>
      simp only [serve, notify]
      cases setting.listeners[position]? with
      | none => exact rfl
      | some listener => exact rfl
  | _ => exact rfl

end SnapshotStore
