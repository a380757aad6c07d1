import SnapshotStore.Persistence
import SnapshotStore.Proofs.Routine.Yields

namespace SnapshotStore

variable {K V S ω : Type}

-- So many entries have been encoded, and the temporary file has been renamed.
def Wrote (path : Path) (exchanges : List (Exchange K V)) (n : Nat) : Prop :=
  ∃ entries bytes, ⟨.serialize entries, .ok bytes⟩ ∈ exchanges ∧ entries.length = n ∧
    ⟨.rename path.temporary path, .ok ()⟩ ∈ exchanges

-- Only errors of the store itself come from the serializer.
def EncodesOrReports (exchanges : List (Exchange K V)) : Prop :=
  ∀ entries failure, ⟨.serialize entries, .error failure⟩ ∈ exchanges →
    ∃ error, failure = .store error

namespace Persistence

open SnapshotStore.Action

variable {persistence : Persistence K V} {backend : Backend K V S}
  {exchanges : List (Exchange K V)}

theorem error_of_abandon {temporary : Path} {cause : IoCause} {outcome : Except Failure Unit}
    (h : (abandon temporary cause : Action K V ω Unit).Yields exchanges outcome) :
    outcome = .error (.store (.io cause)) := by
  obtain ⟨_, others, rfl, hothers⟩ := Yields.of_ask_bind h
  exact hothers.of_raise.2

theorem replaceFile_of_yields {path : Path} {chunks : List Bytes} {outcome : Except Failure Unit}
    (h : (replaceFile path chunks : Action K V ω Unit).Yields exchanges outcome) :
    (outcome = .ok () ∧ ⟨.rename path.temporary path, .ok ()⟩ ∈ exchanges) ∨
      ∃ cause, outcome = .error (.store (.io cause)) := by
  obtain ⟨created, others, rfl, hothers⟩ := Yields.of_ask_bind h
  cases created with
  | error reason => exact .inr ⟨_, hothers.of_raise.2⟩
  | ok location =>
      obtain ⟨written, first, rest, rfl, -, hrest⟩ := Yields.of_ofRoutine_bind hothers
      cases written with
      | error reason => exact .inr ⟨_, error_of_abandon hrest⟩
      | ok _ =>
          obtain ⟨renamed, last, rfl, hlast⟩ := Yields.of_ask_bind hrest
          cases renamed with
          | error reason => exact .inr ⟨_, error_of_abandon hlast⟩
          | ok _ => exact .inl ⟨hlast.of_pure.2, by simp⟩

theorem write_of_yields {entries : List (K × V)} {outcome : Except Failure Unit}
    (h : (persistence.write entries : Action K V ω Unit).Yields exchanges outcome) :
    (outcome = .ok () ∧ Wrote persistence.path exchanges entries.length) ∨
      ∃ failure, outcome = .error failure ∧ ((∃ error, failure = .store error) ∨
        ⟨.serialize entries, .error failure⟩ ∈ exchanges) := by
  obtain ⟨encoded, others, rfl, hothers⟩ := Yields.of_ask_bind h
  rcases hothers.of_bind with ⟨failure, rfl, hfails⟩ | ⟨bytes, first, rest, rfl, hok, hrest⟩
  · obtain ⟨-, rfl⟩ := hfails.of_ofExcept
    exact .inr ⟨failure, rfl, .inr List.mem_cons_self⟩
  · obtain ⟨-, rfl⟩ := hok.of_ofExcept
    rcases replaceFile_of_yields hrest with ⟨rfl, hrename⟩ | ⟨cause, rfl⟩
    · exact .inl ⟨rfl, entries, bytes, List.mem_cons_self, rfl, by simp [hrename]⟩
    · exact .inr ⟨_, rfl, .inl ⟨_, rfl⟩⟩

theorem saveFrom_of_yields {outcome : Except Failure Nat}
    (h : (persistence.saveFrom backend : Action K V ω Nat).Yields exchanges outcome) :
    (∃ n, outcome = .ok n ∧ Wrote persistence.path exchanges n) ∨
      ∃ failure, outcome = .error failure ∧ ((∃ error, failure = .store error) ∨
        ∃ entries, ⟨.serialize entries, .error failure⟩ ∈ exchanges) := by
  obtain ⟨inside, rfl, hinside⟩ := Yields.of_exclusively h
  obtain ⟨entries, copies, others, rfl, -, hothers⟩ := Yields.of_ofRoutine_bind hinside
  rcases hothers.of_bind with ⟨failure, rfl, hwrite⟩ | ⟨_, first, rest, rfl, hwrite, hpure⟩
  · rcases write_of_yields hwrite with ⟨hok, -⟩ | ⟨_, hfailure, hcause⟩
    · cases hok
    · obtain rfl := Except.error.inj hfailure
      exact .inr ⟨failure, rfl, hcause.imp_right fun hmem => ⟨entries, by simp [hmem]⟩⟩
  · obtain ⟨-, rfl⟩ := hpure.of_pure
    rcases write_of_yields hwrite with ⟨-, hwrote⟩ | ⟨_, hfails, -⟩
    · obtain ⟨encoded, bytes, hencoded, hlength, hrename⟩ := hwrote
      exact .inl ⟨_, rfl, encoded, bytes, by simp [hencoded], hlength, by simp [hrename]⟩
    · cases hfails

end Persistence

end SnapshotStore
