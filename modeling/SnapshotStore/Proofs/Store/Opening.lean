import SnapshotStore.Builder
import SnapshotStore.Proofs.Backend.Laws
import SnapshotStore.Proofs.Persistence.Load

namespace SnapshotStore

variable {K V S σ : Type}

theorem Backend.Laws.valid_load [DecidableEq K] {backend : Backend K V S} (laws : backend.Laws)
    (entries : List (K × V)) : laws.Valid (backend.load entries) := by
  unfold Backend.load
  have hvalid := laws.valid_empty
  generalize backend.empty = map at hvalid
  induction entries generalizing map with
  | nil => exact hvalid
  | cons entry rest ih => exact ih _ (laws.valid_insert entry.1 entry.2 hvalid)

theorem Store.create_eq_ok {backend : Backend K V S} {persistence : Persistence K V}
    {policy : FlushPolicy} {pretty connected : Bool} {listeners : List (Listener K V σ)}
    {store : Store K V S σ}
    (h : Store.create (some backend) (some persistence) policy pretty connected listeners =
      .ok store) : store = ⟨backend, persistence, policy, pretty, connected, listeners⟩ := by
  unfold Store.create at h
  cases hpolicy : policy.validate with
  | error error => simp [hpolicy, bind, Except.bind] at h
  | ok _ =>
      cases hchannel : checkChannel policy connected with
      | error error => simp [hpolicy, hchannel, bind, Except.bind] at h
      | ok _ =>
          simp only [hpolicy, hchannel, bind, Except.bind] at h
          exact (Except.ok.inj h).symm

namespace Builder

variable {builder : Builder K V σ} {backend : Backend K V S} {serializer : Bool → Serializer K V}
  {files : FileTree} {opened : Opened K V S σ}

-- What is built once the file is loaded.
def fill (builder : Builder K V σ) (backend : Backend K V S)
    (serializer : Bool → Serializer K V) (entries : List (K × V)) :
    Except Failure (Opened K V S σ) := do
  let worker ← builder.worker?.mapError .store
  let store ← (Store.create (some backend) (some ⟨builder.path, serializer builder.pretty⟩)
    builder.policy builder.pretty worker.isSome builder.listeners).mapError .store
  .ok ⟨store, backend.load entries, worker⟩

theorem build_eq : builder.build backend serializer files = (do
    (builder.check files).mapError .store
    let entries ← Persistence.load ⟨builder.path, serializer builder.pretty⟩ files
    builder.fill backend serializer entries) := rfl

-- Only the map depends on the entries.
theorem fill_eq_ok {entries : List (K × V)}
    (h : builder.fill backend serializer entries = .ok opened) :
    opened.store = ⟨backend, ⟨builder.path, serializer builder.pretty⟩, builder.policy,
      builder.pretty, opened.worker.isSome, builder.listeners⟩ ∧
    opened.map = backend.load entries ∧
    ∀ others, builder.fill backend serializer others =
      .ok ⟨opened.store, backend.load others, opened.worker⟩ := by
  unfold fill at h ⊢
  cases hworker : builder.worker? with
  | error error =>
      rw [hworker] at h
      cases h
  | ok worker =>
      rw [hworker] at h
      cases hstore : Store.create (some backend)
          (some (⟨builder.path, serializer builder.pretty⟩ : Persistence K V))
          builder.policy builder.pretty worker.isSome builder.listeners with
      | error error =>
          simp only [Except.mapError, bind, Except.bind, hstore] at h
          cases h
      | ok store =>
          simp only [Except.mapError, bind, Except.bind, hstore] at h
          obtain rfl := Except.ok.inj h
          refine ⟨Store.create_eq_ok hstore, rfl, fun others => ?_⟩
          simp only [Except.mapError, bind, Except.bind, hstore]

theorem check_eq_ok_iff : builder.check files = .ok () ↔ builder.path.text.isEmpty = false ∧
    files.isDirectory builder.path = false ∧ builder.policy.validate = .ok () := by
  unfold check
  cases builder.path.text.isEmpty with
  | true => simp
  | false => cases files.isDirectory builder.path <;> simp

theorem build_eq_ok (h : builder.build backend serializer files = .ok opened) :
    builder.check files = .ok () ∧ ∃ entries,
      Persistence.load ⟨builder.path, serializer builder.pretty⟩ files = .ok entries ∧
      builder.fill backend serializer entries = .ok opened := by
  rw [build_eq] at h
  cases hcheck : builder.check files with
  | error error =>
      rw [hcheck] at h
      cases h
  | ok _ =>
      rw [hcheck] at h
      cases hload : Persistence.load ⟨builder.path, serializer builder.pretty⟩ files with
      | error failure =>
          rw [hload] at h
          cases h
      | ok entries =>
          rw [hload] at h
          exact ⟨rfl, entries, rfl, h⟩

-- A store can be opened again on any files from which its file can be loaded.
theorem build_again (h : builder.build backend serializer files = .ok opened) {after : FileTree}
    {entries : List (K × V)} (hload : opened.store.persistence.load after = .ok entries) :
    builder.build backend serializer after =
      .ok ⟨opened.store, backend.load entries, opened.worker⟩ := by
  obtain ⟨hcheck, before, -, hfill⟩ := build_eq_ok h
  obtain ⟨hstore, -, hagain⟩ := fill_eq_ok hfill
  rw [hstore] at hload
  have hdirectory := Persistence.isDirectory_of_load hload
  obtain ⟨hpath, -, hpolicy⟩ := check_eq_ok_iff.mp hcheck
  rw [build_eq, check_eq_ok_iff.mpr ⟨hpath, hdirectory, hpolicy⟩, hload]
  exact hagain entries

end Builder

end SnapshotStore
