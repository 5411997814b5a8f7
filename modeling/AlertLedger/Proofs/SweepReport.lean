import AlertLedger.Proofs.ResetRules
import AlertLedger.Proofs.SweepCalls

namespace AlertLedger

namespace Snapshot

/-- The cells that have a value. -/
def cellSet (s : Snapshot) : Finset Cell := s.tables.cells.toFinset

@[simp] theorem mem_cellSet {s : Snapshot} {c : Cell} :
    c ∈ s.cellSet ↔ (s.get? c.hash c.field).isSome := by
  rw [cellSet, List.mem_toFinset, FieldTables.mem_cells_iff]
  rfl

end Snapshot

namespace Reset

/-- The cells that a reset is about. -/
def Matches (r : Reset) (c : Cell) : Prop := r.Covers c.hash ∧ r.Marks c.field

theorem matches_iff {r : Reset} {c : Cell} : r.Matches c ↔ r.reaches c.hash ∧ r.drops c.field :=
  and_congr reaches_iff_covers.symm drops_iff_marks.symm

instance (r : Reset) : DecidablePred r.Matches := fun _ => decidable_of_iff _ matches_iff.symm

/-- The cells that a reset finds. -/
def matched (r : Reset) (s : Snapshot) : Finset Cell := {c ∈ s.cellSet | r.Matches c}

/-- How many hashes a reset visits: those that stand in the snapshot for chains, or the one that it
names, whether or not it is there. -/
def visits (r : Reset) (s : Snapshot) : Nat :=
  match r with
  | .systemOfAllChains | .githubOfAllChains =>
    {hash ∈ s.hashes.toFinset | "hash_p1_".toList <+: hash.toList}.card
  | .systemOfChain _ => 1

variable {r r' : Reset} {s : Snapshot} {hash : String}

theorem length_hashes (r : Reset) (s : Snapshot) : (r.hashes s).length = r.visits s := by
  have found : (s.hashesStarting chainHashStem).length =
      {hash ∈ s.hashes.toFinset | "hash_p1_".toList <+: hash.toList}.card := by
    rw [← List.toFinset_card_of_nodup (s.nodup_hashesStarting chainHashStem)]
    congr 1
    ext hash
    simp only [List.mem_toFinset, Finset.mem_filter, Snapshot.mem_hashesStarting_iff,
      Snapshot.mem_hashes_iff]
    exact and_comm
  cases r with
  | systemOfAllChains => exact found
  | systemOfChain parent => rfl
  | githubOfAllChains => exact found

/-- A cell that is left is one that the reset is not about. -/
theorem cellSet_sweep (r : Reset) (s : Snapshot) :
    (s.sweep r).cellSet = s.cellSet \ r.matched s := by
  ext c
  simp only [Snapshot.mem_cellSet, Snapshot.get?_sweep, matched, Finset.mem_sdiff,
    Finset.mem_filter, matches_iff]
  split
  next found => simp [found, Option.isSome_iff_ne_none]
  next kept => simp [kept]

theorem matched_subset (r : Reset) (s : Snapshot) : r.matched s ⊆ s.cellSet :=
  Finset.filter_subset _ _

theorem matched_sweep (r r' : Reset) (s : Snapshot) :
    r'.matched (s.sweep r) = r'.matched s \ r.matched s := by
  rw [matched, cellSet_sweep]
  ext c
  simp only [matched, Finset.mem_filter, Finset.mem_sdiff]
  exact and_right_comm

theorem sweep_comm (r r' : Reset) (s : Snapshot) : (s.sweep r).sweep r' = (s.sweep r').sweep r := by
  refine Snapshot.ext_get? fun hash field => ?_
  simp only [Snapshot.get?_sweep]
  by_cases hr : r.reaches hash ∧ r.drops field <;> simp [hr]

/-- A hash goes with the last of its fields. -/
theorem not_mem_hashes_sweep (there : hash ∈ s.hashes) :
    hash ∉ (s.sweep r).hashes ↔ r.Covers hash ∧ ∀ field ∈ s.fields hash, r.Marks field := by
  obtain ⟨field, held⟩ := Snapshot.mem_hashes_iff.mp there
  simp only [Snapshot.mem_hashes_iff, Snapshot.get?_sweep, Snapshot.mem_fields_iff,
    ← reaches_iff_covers, ← drops_iff_marks]
  constructor
  · intro gone
    have dropped (f : String) (hf : (s.get? hash f).isSome) : r.reaches hash ∧ r.drops f := by
      by_contra kept
      exact gone ⟨f, by rwa [if_neg kept]⟩
    exact ⟨(dropped field held).1, fun f hf => (dropped f hf).2⟩
  · rintro ⟨reached, dropped⟩ ⟨f, hf⟩
    split at hf
    next => simp at hf
    next kept => exact kept ⟨reached, dropped f hf⟩

end Reset

namespace Plan

/-- Stores that take every call of the plan: it comes to `result` and leaves them as `after`. -/
def Yields {α : Type} (p : Plan α) (s : Stores) (result : α) (after : Stores) : Prop :=
  (p.perform (StoreSession.access noFailure) (.start s)).1 = .ok result ∧
    (p.perform (StoreSession.access noFailure) (.start s)).2.stores = after

theorem yields_evaluate {α : Type} (p : Plan α) (s : Stores) :
    p.Yields s (p.evaluate s).1 (p.evaluate s).2 :=
  p.perform_noFailure (.start s)

theorem evaluate_sweepHash_fst (r : Reset) (hash : String) (s : Stores) :
    ((sweepHash r hash).evaluate s).1 =
      {c ∈ s.snapshot.cellSet | c.hash = hash ∧ r.drops c.field}.card := by
  have counted : ((sweepHash r hash).evaluate s).1 =
      s.snapshot.removed hash ((s.snapshot.fields hash).filter r.drops) := rfl
  have apart : Function.Injective (Cell.mk hash) := fun _ _ h => (Cell.mk.inj h).2
  rw [counted, Snapshot.removed_eq_card, ← Finset.card_image_of_injective _ apart]
  congr 1
  ext ⟨h, f⟩
  simp only [Finset.mem_image, Finset.mem_filter, List.mem_toFinset, List.mem_filter,
    Snapshot.mem_fields_iff, Snapshot.mem_cellSet, Cell.mk.injEq]
  constructor
  · rintro ⟨g, ⟨⟨_, dropped⟩, present⟩, rfl, rfl⟩
    exact ⟨present, rfl, dropped⟩
  · rintro ⟨present, rfl, dropped⟩
    exact ⟨f, ⟨⟨present, dropped⟩, present⟩, rfl, rfl⟩

/-- Each cell is counted in the hash where it stands, and none is counted twice as the hashes are
visited once. -/
theorem evaluate_sweepHashes_fst (r : Reset) {hashes : List String} (distinct : hashes.Nodup)
    (s : Stores) : ((sweepHashes r hashes).evaluate s).1 =
      {c ∈ s.snapshot.cellSet | c.hash ∈ hashes ∧ r.drops c.field}.card := by
  induction hashes generalizing s with
  | nil => simp [sweepHashes]
  | cons hash rest ih =>
    obtain ⟨fresh, distinct⟩ := List.nodup_cons.mp distinct
    simp only [sweepHashes, evaluate_bind, evaluate_pure, evaluate_sweepHash, ih distinct,
      evaluate_sweepHash_fst]
    rw [← Finset.card_union_of_disjoint]
    · congr 1
      ext c
      have other (later : c.hash ∈ rest) : c.hash ≠ hash := fun h => fresh (h ▸ later)
      simp only [Finset.mem_union, Finset.mem_filter, Snapshot.mem_cellSet, Snapshot.get?_remove,
        List.mem_cons]
      grind
    · rw [Finset.disjoint_left]
      intro c here later
      simp only [Finset.mem_filter] at here later
      exact fresh (here.2.1 ▸ later.2.1)

theorem evaluate_reset_fst (r : Reset) (s : Stores) :
    ((reset r).evaluate s).1 = .swept (r.visits s.snapshot) (r.matched s.snapshot).card := by
  have swept := evaluate_sweepHashes_fst r (r.nodup_hashes s.snapshot) s
  have found : {c ∈ s.snapshot.cellSet | c.hash ∈ r.hashes s.snapshot ∧ r.drops c.field} =
      r.matched s.snapshot := by
    refine Finset.filter_congr fun c present => ?_
    rw [Snapshot.mem_hashes_iff_reaches (Snapshot.mem_cellSet.mp present), Reset.matches_iff]
  rw [found] at swept
  simp only [reset, evaluate_bind, evaluate_pure, evaluate_hashesOf, Reset.length_hashes, swept]

theorem reset_yields (r : Reset) (history : History) (s : Snapshot) :
    (reset r).Yields ⟨history, s⟩ (.swept (r.visits s) (r.matched s).card)
      ⟨history, s.sweep r⟩ := by
  have yields := (reset r).yields_evaluate ⟨history, s⟩
  rwa [evaluate_reset_fst, evaluate_reset] at yields

end Plan

/-- What a sweep reports is what it did. It counts the hashes that it visits and the cells that it
removes, which are those that match and by which there are fewer afterwards; a hash disappears with
its last field. A second reset counts what the first one left of its cells, and both leave the same
snapshot in either order. -/
theorem sweep_reports_what_it_did (r : Reset) (history : History) (s : Snapshot) :
    (Plan.reset r).Yields ⟨history, s⟩ (.swept (r.visits s) (r.matched s).card)
      ⟨history, s.sweep r⟩ ∧
    (s.sweep r).cellSet = s.cellSet \ r.matched s ∧
    (s.sweep r).cellSet.card + (r.matched s).card = s.cellSet.card ∧
    (∀ hash, (hash ∈ s.hashes ∧ hash ∉ (s.sweep r).hashes) ↔
      r.Covers hash ∧ hash ∈ s.hashes ∧ ∀ field ∈ s.fields hash, r.Marks field) ∧
    ∀ r' : Reset,
      (Plan.reset r').Yields ⟨history, s.sweep r⟩
        (.swept (r'.visits (s.sweep r)) (r'.matched s \ r.matched s).card)
        ⟨history, (s.sweep r).sweep r'⟩ ∧
      (Plan.reset r).Yields ⟨history, s.sweep r'⟩
        (.swept (r.visits (s.sweep r')) (r.matched s \ r'.matched s).card)
        ⟨history, (s.sweep r).sweep r'⟩ := by
  refine ⟨Plan.reset_yields r history s, r.cellSet_sweep s, ?_, ?_, ?_⟩
  · rw [Reset.cellSet_sweep]
    exact Finset.card_sdiff_add_card_eq_card (r.matched_subset s)
  · intro hash
    constructor
    · rintro ⟨there, gone⟩
      obtain ⟨covered, marked⟩ := (Reset.not_mem_hashes_sweep there).mp gone
      exact ⟨covered, there, marked⟩
    · rintro ⟨covered, there, marked⟩
      exact ⟨there, (Reset.not_mem_hashes_sweep there).mpr ⟨covered, marked⟩⟩
  · intro r'
    have second := Plan.reset_yields r' history (s.sweep r)
    have first := Plan.reset_yields r history (s.sweep r')
    rw [Reset.matched_sweep] at second first
    rw [← Reset.sweep_comm r r'] at first
    exact ⟨second, first⟩

/-- A chain that is not there is visited all the same. -/
example : ((Plan.reset (.systemOfChain "chainX")).perform (StoreSession.access noFailure)
    (.start ⟨.empty, .empty⟩)).1 = .ok (.swept 1 0) := by
  decide +kernel

end AlertLedger
