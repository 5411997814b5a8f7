import AlertLedger.Proofs.TableCells
import AlertLedger.Upkeep

namespace AlertLedger

def noFailure (_ : Nat) (_ : StoreCall) : Bool := false

namespace Plan

/-- What a plan comes to and the stores after it, when they take every call. -/
def evaluate {α : Type} : Plan α → Stores → α × Stores
  | .done a, s => (a, s)
  | .ask c next, s => (next (s.answer c).1).evaluate (s.answer c).2

@[simp] theorem evaluate_pure {α : Type} (a : α) (s : Stores) :
    (pure a : Plan α).evaluate s = (a, s) := rfl

@[simp] theorem evaluate_bind {α β : Type} (p : Plan α) (f : α → Plan β) (s : Stores) :
    (p >>= f).evaluate s = (f (p.evaluate s).1).evaluate (p.evaluate s).2 := by
  induction p generalizing s with
  | done a => rfl
  | ask c next ih => exact ih (s.answer c).1 (s.answer c).2

theorem perform_noFailure {α : Type} (p : Plan α) (s : StoreSession) :
    (p.perform (StoreSession.access noFailure) s).1 = .ok (p.evaluate s.stores).1 ∧
      (p.perform (StoreSession.access noFailure) s).2.stores = (p.evaluate s.stores).2 := by
  induction p generalizing s with
  | done a => exact ⟨rfl, rfl⟩
  | ask c next ih =>
    exact ih (s.stores.answer c).1 ⟨(s.stores.answer c).2, s.calls ++ [⟨c, true⟩]⟩

end Plan

def Reset.reaches (r : Reset) (hash : String) : Bool :=
  match r.scope with
  | .allChains => chainHashStem.toList.isPrefixOf hash.toList
  | .chain parent => hash = chainHash parent

/-- The hashes that a reset visits, in its order. -/
def Reset.hashes (r : Reset) (s : Snapshot) : List String :=
  match r.scope with
  | .allChains => s.hashesStarting chainHashStem
  | .chain parent => [chainHash parent]

namespace Snapshot

/-- The snapshot without the cells that a reset is about, all at once. -/
def sweep (r : Reset) (s : Snapshot) : Snapshot :=
  s.keepCells fun hash field => !(r.reaches hash && r.drops field)

@[simp] theorem get?_sweep (r : Reset) (s : Snapshot) (hash field : String) :
    (s.sweep r).get? hash field =
      if r.reaches hash ∧ r.drops field then none else s.get? hash field := by
  by_cases hr : r.reaches hash <;> by_cases hd : r.drops field <;> simp [sweep, hr, hd]

theorem get?_remove_listed {s : Snapshot} {hash : String} {fields : List String}
    (listed : fields.Perm (s.fields hash)) (p : String → Bool) (h f : String) :
    (s.remove hash (fields.filter p)).get? h f = if h = hash ∧ p f then none else s.get? h f := by
  simp only [get?_remove, List.mem_filter, listed.mem_iff, mem_fields_iff]
  by_cases hh : h = hash
  · subst hh
    cases hv : s.get? h f <;> simp
  · simp [hh]

theorem mem_hashes_iff_reaches {r : Reset} {s : Snapshot} {hash field : String}
    (present : (s.get? hash field).isSome) : hash ∈ r.hashes s ↔ r.reaches hash := by
  unfold Reset.hashes Reset.reaches
  cases r.scope with
  | allChains =>
    simp only [mem_hashesStarting_iff, List.isPrefixOf_iff_prefix]
    exact ⟨And.left, fun hp => ⟨hp, field, present⟩⟩
  | chain parent => simp

/-- To sweep the hashes that a reset visits is to sweep all that it reaches. The hashes in reach
that it does not visit are empty. -/
theorem eq_sweep {r : Reset} {s swept : Snapshot} {hashes : List String}
    (visited : ∀ hash, hash ∈ hashes ↔ hash ∈ r.hashes s)
    (cells : ∀ hash field, swept.get? hash field =
      if hash ∈ hashes ∧ r.drops field then none else s.get? hash field) :
    swept = s.sweep r := by
  apply Snapshot.ext_get?
  intro hash field
  rw [cells, get?_sweep]
  cases present : s.get? hash field with
  | none => simp
  | some v =>
    have there : (s.get? hash field).isSome := by simp [present]
    simp only [visited, mem_hashes_iff_reaches there]

end Snapshot

namespace Plan

theorem evaluate_sweepHash (r : Reset) (hash : String) (s : Stores) :
    ((sweepHash r hash).evaluate s).2 =
      ⟨s.history, s.snapshot.remove hash ((s.snapshot.fields hash).filter r.drops)⟩ := rfl

theorem evaluate_sweepHashes (r : Reset) (hashes : List String) (s : Stores) :
    ((sweepHashes r hashes).evaluate s).2.history = s.history ∧
      ∀ h f, ((sweepHashes r hashes).evaluate s).2.snapshot.get? h f =
        if h ∈ hashes ∧ r.drops f then none else s.snapshot.get? h f := by
  induction hashes generalizing s with
  | nil => simp [sweepHashes]
  | cons hash rest ih =>
    simp only [sweepHashes, evaluate_bind, evaluate_pure, evaluate_sweepHash]
    obtain ⟨history, cells⟩ :=
      ih ⟨s.history, s.snapshot.remove hash ((s.snapshot.fields hash).filter r.drops)⟩
    refine ⟨history, ?_⟩
    intro h f
    rw [cells, Snapshot.get?_remove_listed (.refl _)]
    by_cases hd : r.drops f <;> by_cases hm : h ∈ rest <;> simp [hd, hm]

theorem evaluate_hashesOf (r : Reset) (s : Stores) :
    (hashesOf r.scope).evaluate s = (r.hashes s.snapshot, s) := by
  unfold Reset.hashes
  cases r.scope <;> rfl

/-- A reset finds its hashes and sweeps them one by one, which is the same as to drop all cells at
once. -/
theorem evaluate_reset (r : Reset) (s : Stores) :
    ((reset r).evaluate s).2 = { s with snapshot := s.snapshot.sweep r } := by
  obtain ⟨history, cells⟩ := evaluate_sweepHashes r (r.hashes s.snapshot) s
  have swept : ((sweepHashes r (r.hashes s.snapshot)).evaluate s).2.snapshot = s.snapshot.sweep r :=
    Snapshot.eq_sweep (fun _ => .rfl) cells
  simp only [reset, evaluate_bind, evaluate_pure, evaluate_hashesOf]
  cases hw : ((sweepHashes r (r.hashes s.snapshot)).evaluate s).2 with
  | mk w x =>
    rw [hw] at history swept
    cases history; cases swept; rfl

end Plan

end AlertLedger
