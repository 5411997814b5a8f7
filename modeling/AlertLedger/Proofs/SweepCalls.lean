import AlertLedger.Proofs.PlanEvaluation
import Mathlib.Data.List.Flatten
import Mathlib.Data.List.Nodup

namespace AlertLedger

/-- The stores after these calls, when they take all of them. -/
def Stores.afterCalls (s : Stores) (calls : List StoreCall) : Stores :=
  calls.foldl (fun s c => (s.answer c).2) s

/-- The calls that a plan makes at stores that take every call. -/
def Plan.calls {α : Type} : Plan α → Stores → List StoreCall
  | .done _, _ => []
  | .ask c next, s => c :: (next (s.answer c).1).calls (s.answer c).2

/-- The call that finds the hashes, if they have to be found. -/
def Reset.search (r : Reset) : List StoreCall :=
  match r.scope with
  | .allChains => [.snapshot (.hashesStarting chainHashStem)]
  | .chain _ => []

def Reset.visit (r : Reset) (s : Snapshot) (hash : String) : List StoreCall := [
  .snapshot (.fieldsOf hash), .snapshot (.removeFields hash ((s.fields hash).filter r.drops))]

theorem Reset.nodup_hashes (r : Reset) (s : Snapshot) : (r.hashes s).Nodup := by
  unfold hashes
  split
  · exact s.nodup_hashesStarting chainHashStem
  · exact List.nodup_singleton _

namespace Plan

variable {α β : Type}

theorem calls_bind (p : Plan α) (f : α → Plan β) (s : Stores) :
    (p >>= f).calls s = p.calls s ++ (f (p.evaluate s).1).calls (p.evaluate s).2 := by
  induction p generalizing s with
  | done a => rfl
  | ask c next ih => exact congrArg (c :: ·) (ih (s.answer c).1 (s.answer c).2)

theorem evaluate_stores (p : Plan α) (s : Stores) :
    (p.evaluate s).2 = s.afterCalls (p.calls s) := by
  induction p generalizing s with
  | done a => rfl
  | ask c next ih => exact ih (s.answer c).1 (s.answer c).2

theorem calls_sweepHashes (r : Reset) {hashes : List String} (distinct : hashes.Nodup)
    (s : Stores) : (sweepHashes r hashes).calls s = hashes.flatMap (r.visit s.snapshot) := by
  induction hashes generalizing s with
  | nil => rfl
  | cons hash rest ih =>
    obtain ⟨fresh, distinct⟩ := List.nodup_cons.mp distinct
    have later := ih distinct ⟨s.history,
      s.snapshot.remove hash ((s.snapshot.fields hash).filter r.drops)⟩
    -- the fields of the later hashes are as they were
    have same : rest.flatMap (r.visit
        (s.snapshot.remove hash ((s.snapshot.fields hash).filter r.drops))) =
          rest.flatMap (r.visit s.snapshot) := by
      apply List.flatMap_congr
      intro h hh
      have other : h ≠ hash := fun he => fresh (he ▸ hh)
      simp only [Reset.visit, s.snapshot.fields_remove_of_ne _ other]
    rw [sweepHashes, calls_bind, calls_bind, evaluate_sweepHash, later, same]
    exact congrArg (r.visit s.snapshot hash ++ ·) (List.append_nil _)

theorem calls_hashesOf (r : Reset) (s : Stores) : (hashesOf r.scope).calls s = r.search := by
  unfold Reset.search
  cases r.scope <;> rfl

/-- A reset at stores that take every call: it finds its hashes, and then visits them. -/
theorem calls_reset (r : Reset) (s : Stores) :
    (reset r).calls s = r.search ++ (r.hashes s.snapshot).flatMap (r.visit s.snapshot) := by
  have swept := calls_sweepHashes r (r.nodup_hashes s.snapshot) s
  rw [reset, calls_bind, calls_bind, evaluate_hashesOf, calls_hashesOf, swept]
  exact congrArg (r.search ++ ·) (List.append_nil _)

end Plan

end AlertLedger
