import Mathlib.Algebra.BigOperators.Group.Finset.Basic
import SnapshotStore.Proofs.Background.Latest
import SnapshotStore.Proofs.Store.Concurrent

namespace SnapshotStore

variable {K V S σ β : Type}

namespace Store

variable {store : Store K V S σ} {exchanges : List (Exchange K V)} {efforts : List Effort}

end Store

namespace Staffed

variable {store : Store K V S σ} {deeds : List (Deed K V S)} {position : Nat}

-- The courses of the threads and, in the place behind the last of them, that of the worker, with
-- what they have cost.
structure Accounted (store : Store K V S σ) (scripts : List (List (Command K V (World S σ) β)))
    (answers : List (List (Outcome K V β))) (deeds : List (Deed K V S))
    (efforts : Nat → List Effort) : Prop where
  threads : ∀ (thread : Nat) (commands : List (Command K V (World S σ) β))
    (outcomes : List (Outcome K V β)), scripts[thread]? = some commands →
    answers[thread]? = some outcomes →
    store.Courses commands (Move.own thread (Deed.moves deeds)) outcomes (efforts thread)
  worker : ∃ outcomes, store.Courses
    (List.replicate (Deed.flushes deeds) (.flush : Command K V (World S σ) β))
    (Move.own scripts.length (Deed.moves deeds)) outcomes (efforts scripts.length)

variable {scripts : List (List (Command K V (World S σ) β))} {world : World S σ} {worker : Worker}
  {answers : List (List (Outcome K V β))} {last : Staffed K V S σ (List (Outcome K V β))}

section Told

variable {threads participant : Nat} {efforts : Nat → List Effort}

variable (htold : ∀ participant < threads,
  ((savesTold position (Deed.moves deeds)).filter (·.1 = participant)).map Prod.snd =
    Effort.attempts (efforts participant))

include htold

variable (hmovers : ∀ move ∈ Deed.moves deeds, move.thread < threads)

include hmovers

end Told

section Counted

variable {stats : Stats} {threads listeners : Nat} {efforts : Nat → List Effort}
  (hcounts : stats.Counts (endedParts position deeds))
  (htold : ∀ (part : Stats.Part), ∀ participant < threads,
    ((savesTold (position + part.place) (Deed.moves deeds)).filter (·.1 = participant)).map
      Prod.snd = Effort.attempts (efforts participant))
  (htells : ∀ participant < threads,
    Tells listeners (Move.own participant (Deed.moves deeds)))
  (hlt : ∀ part : Stats.Part, position + part.place < listeners)

include hcounts htold htells hlt

end Counted

theorem Accounted.bears {efforts : Nat → List Effort}
    (h : Accounted store scripts answers deeds efforts)
    (hlength : answers.length = scripts.length) :
    ∀ participant < scripts.length + 1,
      store.Bears (Move.own participant (Deed.moves deeds)) (efforts participant) := by
  intro participant hlt
  by_cases hworker : participant = scripts.length
  · obtain ⟨outcomes, hcourses⟩ := h.worker
    exact hworker ▸ Store.Courses.bears hcourses
  · have hscript : participant < scripts.length := by omega
    exact Store.Courses.bears (h.threads participant _ _ (List.getElem?_eq_getElem hscript)
      (List.getElem?_eq_getElem (hlength ▸ hscript)))

end Staffed

end SnapshotStore
