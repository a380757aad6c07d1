import Mathlib.Data.List.Induction
import SnapshotStore.Proofs.Backend.Laws

namespace SnapshotStore

variable {K V S : Type}

-- The map segment by segment, each as it was when it was copied.
def Backend.assemble (backend : Backend K V S) (views : List S) : List (K × V) :=
  views.zipIdx.flatMap fun (map, segment) => backend.copy segment map

theorem Backend.assemble_append (backend : Backend K V S) (views : List S) (map : S) :
    backend.assemble (views ++ [map]) =
      backend.assemble views ++ backend.copy views.length map := by
  simp [assemble, List.zipIdx_append]

namespace Backend.Laws

variable [DecidableEq K] {backend : Backend K V S} (laws : backend.Laws) {views : List S}

include laws

theorem mem_assemble (hvalid : ∀ view ∈ views, laws.Valid view)
    (hlength : views.length ≤ backend.segments) (key : K) (value : V) :
    (key, value) ∈ backend.assemble views ↔
      ∃ view, views[laws.segmentOf key]? = some view ∧ backend.get key view = some value := by
  rw [assemble, List.mem_flatMap]
  constructor
  · rintro ⟨⟨view, segment⟩, hview, hmem⟩
    rw [List.mk_mem_zipIdx_iff_getElem?] at hview
    obtain ⟨hlt, -⟩ := List.getElem?_eq_some_iff.mp hview
    have hv := hvalid view (List.mem_of_getElem? hview)
    obtain ⟨rfl, hget⟩ := (laws.mem_copy key value hv (by omega)).mp hmem
    exact ⟨view, hview, hget⟩
  · rintro ⟨view, hview, hget⟩
    have hv := hvalid view (List.mem_of_getElem? hview)
    refine ⟨(view, laws.segmentOf key), List.mk_mem_zipIdx_iff_getElem?.mpr hview, ?_⟩
    exact (laws.mem_copy key value hv (laws.segmentOf_lt key)).mpr ⟨rfl, hget⟩

-- Two segments have no key in common, whatever was written between their copies.
theorem nodup_assemble (hvalid : ∀ view ∈ views, laws.Valid view)
    (hlength : views.length ≤ backend.segments) :
    ((backend.assemble views).map Prod.fst).Nodup := by
  induction views using List.reverseRecOn with
  | nil => exact List.nodup_nil
  | append_singleton views map ih =>
      rw [List.length_append, List.length_singleton] at hlength
      have hviews : ∀ view ∈ views, laws.Valid view :=
        fun view hview => hvalid view (List.mem_append_left _ hview)
      have hmap := hvalid map (List.mem_append_right _ (List.mem_singleton_self map))
      rw [assemble_append, List.map_append]
      apply (ih hviews (by omega)).append (laws.nodup_copy hmap (by omega))
      intro key hold hnew
      obtain ⟨⟨k, v⟩, hk, rfl⟩ := List.mem_map.mp hold
      obtain ⟨⟨k', v'⟩, hk', hkey⟩ := List.mem_map.mp hnew
      obtain rfl : k' = k := hkey
      obtain ⟨view, hview, -⟩ := (laws.mem_assemble hviews (by omega) k' v).mp hk
      obtain ⟨hlt, -⟩ := List.getElem?_eq_some_iff.mp hview
      have hsegment := ((laws.mem_copy k' v' hmap (by omega)).mp hk').1
      omega

theorem perm_assemble {map : S} (hvalid : ∀ view ∈ views, laws.Valid view)
    (hlength : views.length = backend.segments) (hmap : laws.Valid map)
    (hget : ∀ view ∈ views, ∀ key, backend.get key view = backend.get key map) :
    (backend.assemble views).Perm (backend.snapshot map) := by
  apply laws.perm_snapshot hmap (laws.nodup_assemble hvalid (Nat.le_of_eq hlength))
  intro key value
  rw [laws.mem_assemble hvalid (Nat.le_of_eq hlength)]
  constructor
  · rintro ⟨view, hview, hvalue⟩
    rw [← hget view (List.mem_of_getElem? hview) key]
    exact hvalue
  · intro hvalue
    have hlt : laws.segmentOf key < views.length := hlength ▸ laws.segmentOf_lt key
    refine ⟨views[laws.segmentOf key], List.getElem?_eq_getElem hlt, ?_⟩
    rw [hget _ (List.getElem_mem hlt) key]
    exact hvalue

end Backend.Laws

end SnapshotStore
