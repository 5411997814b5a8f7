namespace AlertLedger

/-- Keys in a strict linear order that can be decided. -/
class KeyOrder (κ : Type) extends LT κ where
  decLt : DecidableLT κ
  irrefl : ∀ a : κ, ¬ a < a
  trans : ∀ {a b c : κ}, a < b → b < c → a < c
  connected : ∀ {a b : κ}, ¬ a < b → ¬ b < a → a = b

instance KeyOrder.decidableLT {κ : Type} [KeyOrder κ] : DecidableLT κ := KeyOrder.decLt

/-- Texts are in the order of their code points, which is that of their UTF-8 bytes. -/
instance textKeyOrder : KeyOrder String where
  decLt := String.decidableLT
  irrefl := String.lt_irrefl
  trans := String.lt_trans
  connected hab hba := String.le_antisymm (String.not_lt.mp hba) (String.not_lt.mp hab)

/-- A finite map with its keys in ascending order. -/
structure OrderedTable (κ α : Type) [KeyOrder κ] where
  entries : List (κ × α)
  ascending : entries.Pairwise fun a b => a.1 < b.1

namespace OrderedTable

variable {κ α : Type} [KeyOrder κ]

def empty : OrderedTable κ α := ⟨[], .nil⟩

def setEntry [DecidableEq κ] (k : κ) (v : α) : List (κ × α) → List (κ × α)
  | [] => [(k, v)]
  | e :: es =>
    if k < e.1 then (k, v) :: e :: es
    else if k = e.1 then (k, v) :: es
    else e :: setEntry k v es

variable [DecidableEq κ]

theorem mem_setEntry {k : κ} {v : α} {es : List (κ × α)} {e : κ × α} (h : e ∈ setEntry k v es) :
    e = (k, v) ∨ e ∈ es := by
  induction es with
  | nil => simpa [setEntry] using h
  | cons d ds ih =>
    simp only [setEntry] at h
    split at h
    · simpa using h
    split at h
    · simp only [List.mem_cons] at h ⊢
      exact h.imp_right .inr
    · simp only [List.mem_cons] at h ⊢
      rcases h with h | h
      · exact .inr (.inl h)
      · exact (ih h).imp_right .inr

theorem setEntry_ascending {k : κ} {v : α} {es : List (κ × α)}
    (h : es.Pairwise fun a b => a.1 < b.1) : (setEntry k v es).Pairwise fun a b => a.1 < b.1 := by
  induction es with
  | nil => simp [setEntry]
  | cons d ds ih =>
    have hd := List.pairwise_cons.mp h
    simp only [setEntry]
    split
    next hk =>
      refine List.pairwise_cons.mpr ⟨?_, h⟩
      intro e he
      rcases List.mem_cons.mp he with rfl | he
      · exact hk
      · exact KeyOrder.trans hk (hd.1 e he)
    next hk =>
      split
      next heq =>
        subst heq
        exact List.pairwise_cons.mpr hd
      next hne =>
        refine List.pairwise_cons.mpr ⟨?_, ih hd.2⟩
        intro e he
        rcases mem_setEntry he with rfl | he
        · exact Decidable.byContradiction fun hlt => hne (KeyOrder.connected hk hlt)
        · exact hd.1 e he

def set (t : OrderedTable κ α) (k : κ) (v : α) : OrderedTable κ α :=
  ⟨setEntry k v t.entries, setEntry_ascending t.ascending⟩

def get? (t : OrderedTable κ α) (k : κ) : Option α := t.entries.lookup k

/-- The table without the keys that fail `p`. -/
def keep (t : OrderedTable κ α) (p : κ → Bool) : OrderedTable κ α :=
  ⟨t.entries.filter fun e => p e.1, t.ascending.filter _⟩

def erase (t : OrderedTable κ α) (k : κ) : OrderedTable κ α := t.keep (· ≠ k)

def keys (t : OrderedTable κ α) : List κ := t.entries.map (·.1)

omit [DecidableEq κ] in
theorem keys_ascending (t : OrderedTable κ α) : t.keys.Pairwise (· < ·) :=
  List.pairwise_map.mpr t.ascending

@[simp] theorem get?_empty (k : κ) : (empty : OrderedTable κ α).get? k = none := rfl

omit [KeyOrder κ] in
theorem lookup_cons_eq_ite (j : κ) (e : κ × α) (es : List (κ × α)) :
    (e :: es).lookup j = if j = e.1 then some e.2 else es.lookup j := by
  obtain ⟨k, v⟩ := e
  rw [List.lookup_cons]
  by_cases h : j = k
  · simp [h]
  · simp [h, beq_eq_false_iff_ne.mpr h]

theorem lookup_setEntry (k j : κ) (v : α) (es : List (κ × α)) :
    (setEntry k v es).lookup j = if j = k then some v else es.lookup j := by
  induction es with
  | nil => simp [setEntry, lookup_cons_eq_ite]
  | cons d ds ih => grind [setEntry, lookup_cons_eq_ite]

@[simp] theorem get?_set (t : OrderedTable κ α) (k j : κ) (v : α) :
    (t.set k v).get? j = if j = k then some v else t.get? j :=
  lookup_setEntry k j v t.entries

@[simp] theorem get?_keep (t : OrderedTable κ α) (p : κ → Bool) (j : κ) :
    (t.keep p).get? j = if p j then t.get? j else none := by
  obtain ⟨es, h⟩ := t
  simp only [get?, keep]
  clear h
  induction es with
  | nil => simp
  | cons d ds ih => grind [lookup_cons_eq_ite]

@[simp] theorem get?_erase (t : OrderedTable κ α) (k j : κ) :
    (t.erase k).get? j = if j = k then none else t.get? j := by
  by_cases h : j = k <;> simp [erase, h]

theorem get?_of_entries_eq_nil {t : OrderedTable κ α} (h : t.entries = []) (k : κ) :
    t.get? k = none := by
  rw [get?, h]
  rfl

theorem mem_entries_iff {t : OrderedTable κ α} {k : κ} {v : α} :
    (k, v) ∈ t.entries ↔ t.get? k = some v := by
  rw [get?, List.lookup_eq_some_iff]
  constructor
  · intro h
    obtain ⟨before, after, he⟩ := List.append_of_mem h
    refine ⟨before, after, he, ?_⟩
    intro e hm
    have sorted := t.ascending
    rw [he] at sorted
    have hlt : e.1 < k := (List.pairwise_append.mp sorted).2.2 e hm (k, v) (by simp)
    rw [bne_iff_ne]
    rintro rfl
    exact KeyOrder.irrefl _ hlt
  · rintro ⟨before, after, he, _⟩
    simp [he]

theorem entries_set_ne_nil (t : OrderedTable κ α) (k : κ) (v : α) : (t.set k v).entries ≠ [] := by
  have there : (k, v) ∈ (t.set k v).entries := by simp [mem_entries_iff]
  exact List.ne_nil_of_mem there

theorem mem_keys_iff {t : OrderedTable κ α} {k : κ} : k ∈ t.keys ↔ (t.get? k).isSome := by
  simp only [keys, List.mem_map, Prod.exists, exists_and_right, exists_eq_right, mem_entries_iff,
    Option.isSome_iff_exists]

/-- Tables that answer every key alike are the same: the order leaves no choice of entries. -/
theorem ext_get? {t u : OrderedTable κ α} (h : ∀ k, t.get? k = u.get? k) : t = u := by
  have nodup (w : OrderedTable κ α) : w.entries.Nodup := by
    refine w.ascending.imp ?_
    rintro a b hlt rfl
    exact KeyOrder.irrefl _ hlt
  have perm : t.entries.Perm u.entries := by
    rw [List.perm_ext_iff_of_nodup (nodup t) (nodup u)]
    rintro ⟨k, v⟩
    rw [mem_entries_iff, mem_entries_iff, h k]
  have same : t.entries = u.entries := by
    refine perm.eq_of_pairwise ?_ t.ascending u.ascending
    intro a b _ _ hab hba
    exact absurd (KeyOrder.trans hab hba) (KeyOrder.irrefl a.1)
  cases t; cases u; cases same; rfl

end OrderedTable

end AlertLedger
