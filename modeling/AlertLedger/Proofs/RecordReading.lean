import AlertLedger.JsonRecord
import AlertLedger.Proofs.JsonReaders
import Mathlib.Data.List.Forall2

namespace AlertLedger

namespace RecordShape

variable {S : RecordShape α} {slots : S.Slots} {f g : S.Field} {name : String}

/-- Each label belongs to one field, which is listed once. -/
def Labelled (S : RecordShape α) : Prop :=
  ∀ f, S.fields.filter (fun g => S.label g == S.label f) = [f]

theorem Labelled.fieldLabelled? (h : S.Labelled) (f : S.Field) :
    S.fieldLabelled? (S.label f) = some f := by
  rw [RecordShape.fieldLabelled?, ← List.head?_filter, h f]
  rfl

theorem label_of_fieldLabelled? (h : S.fieldLabelled? name = some f) : S.label f = name := by
  simpa using List.find?_some h

theorem fieldLabelled?_eq_none : S.fieldLabelled? name = none ↔ ∀ f, S.label f ≠ name := by
  simp [fieldLabelled?, S.complete]

theorem Slots.fill_self (v : S.Value f) : slots.fill f v f = some v := by
  unfold Slots.fill
  cases S.decEq f f with
  | isTrue h => rfl
  | isFalse h => exact absurd rfl h

theorem Slots.fill_other (h : g ≠ f) (v : S.Value f) : slots.fill f v g = slots g := by
  unfold Slots.fill
  cases S.decEq f g with
  | isTrue same => exact absurd same.symm h
  | isFalse _ => rfl

theorem ofSlots_eq_ok {a : α} (h : S.ofSlots slots = .ok a) :
    ∃ x, slots = (fun f => some (x f)) ∧ a = S.build x := by
  unfold ofSlots at h
  split at h
  next => simp at h
  next =>
    cases h
    refine ⟨_, ?_, rfl⟩
    funext f
    simp

theorem ofSlots_full (x : (f : S.Field) → S.Value f) :
    S.ofSlots (fun f => some (x f)) = .ok (S.build x) := by
  unfold ofSlots
  split
  next h => simpa using List.find?_some h
  next => simp

/-- What the members of an object, with the names of their keys, leave in the slots of a record:
each field stands there once, and the other members are values of any kind. -/
inductive Settles (S : RecordShape α) : S.Slots → List (String × Bytes) → S.Slots → Prop
  | nil {slots : S.Slots} : Settles S slots [] slots
  | other {slots out : S.Slots} {name : String} {v : Bytes} {ms : List (String × Bytes)}
      (unknown : S.fieldLabelled? name = none) (value : Json.IsValue v)
      (rest : Settles S slots ms out) : Settles S slots ((name, v) :: ms) out
  | field {slots out : S.Slots} {name : String} {v : Bytes} {ms : List (String × Bytes)}
      {f : S.Field} {x : S.Value f} (known : S.fieldLabelled? name = some f)
      (free : slots f = none) (taken : (S.read f).Takes v x)
      (rest : Settles S (slots.fill f x) ms out) : Settles S slots ((name, v) :: ms) out

/-- What the items of a list leave there, one for each field in turn. -/
inductive SettlesInTurn (S : RecordShape α) : S.Slots → List S.Field → List Bytes → S.Slots → Prop
  | nil {slots : S.Slots} : SettlesInTurn S slots [] [] slots
  | cons {slots out : S.Slots} {f : S.Field} {fs : List S.Field} {v : Bytes} {vs : List Bytes}
      {x : S.Value f} (taken : (S.read f).Takes v x)
      (rest : SettlesInTurn S (slots.fill f x) fs vs out) :
      SettlesInTurn S slots (f :: fs) (v :: vs) out

end RecordShape

namespace Json

/-- The key of a member spells its name. -/
def Named (raw : Bytes × Bytes) (m : String × Bytes) : Prop := Spells raw.1 m.1 ∧ raw.2 = m.2

section Members

variable {S : RecordShape α} {first : Bool} {slots out : S.Slots} {s t r q b b' v : Bytes}

theorem Items.nextKey_close (h : Items MemberText 0x7d first [] s) (r : Bytes) :
    nextKey first (s ++ r) = .ok (.close (0x7d :: r)) := by
  obtain ⟨blank⟩ := h
  unfold nextKey
  rw [List.append_assoc, List.singleton_append, blank.skip_cons (by decide)]
  rfl

/-- The next key is followed by its colon, its value and the members behind it. -/
theorem Items.nextKey_member {m : Bytes × Bytes} {ms : List (Bytes × Bytes)}
    (h : Items MemberText 0x7d first (m :: ms) s) :
    ∃ k k' u, Blank k ∧ Blank k' ∧ Items MemberText 0x7d false ms u ∧ ∀ r,
      nextKey first (s ++ r) =
        .ok (.key (m.1 ++ 0x22 :: (k ++ 0x3a :: (k' ++ (m.2 ++ (u ++ r)))))) := by
  cases h with
  | @first b t u _ _ blank text rest =>
    obtain ⟨k, k', hk, hk', rfl⟩ := text
    refine ⟨k, k', u, hk, hk', rest, fun r => ?_⟩
    simp only [List.append_assoc, List.cons_append]
    unfold nextKey
    rw [blank.skip_cons (by decide)]
    rfl
  | @next b b' t u _ _ blank blank' text rest =>
    obtain ⟨k, k', hk, hk', rfl⟩ := text
    refine ⟨k, k', u, hk, hk', rest, fun r => ?_⟩
    simp only [List.append_assoc, List.cons_append]
    unfold nextKey
    rw [blank.skip_cons (by decide)]
    dsimp only
    rw [blank'.skip_cons (by decide)]
    rfl

theorem readMembers_close (h : nextKey first s = .ok (.close r)) :
    readMembers S first slots s = .ok (slots, r) := by
  rw [readMembers.eq_def]
  grind

theorem readMembers_unreadable {f : Fault} (h : nextKey first s = .ok (.key t))
    (key : readText t = .error f) : readMembers S first slots s = .error (.placed f) := by
  rw [readMembers.eq_def]
  grind

theorem readMembers_other {name : String} (h : nextKey first s = .ok (.key t))
    (key : readText t = .ok (name, r)) (unknown : S.fieldLabelled? name = none)
    (colon : readColon r = .ok v) (skip : skipValue [] v = .ok q) :
    readMembers S first slots s = readMembers S false slots q := by
  rw [readMembers.eq_def]
  grind

theorem readMembers_repeated {name : String} {f : S.Field} (h : nextKey first s = .ok (.key t))
    (key : readText t = .ok (name, r)) (known : S.fieldLabelled? name = some f)
    (taken : (slots f).isSome) :
    readMembers S first slots s = .error (.inside (.repeatedField (S.label f)) r) := by
  rw [readMembers.eq_def]
  grind

theorem readMembers_field {name : String} {f : S.Field} (h : nextKey first s = .ok (.key t))
    (key : readText t = .ok (name, r)) (known : S.fieldLabelled? name = some f)
    (free : slots f = none) (colon : readColon r = .ok v) :
    readMembers S first slots s =
      match (S.read f).run v with
      | .error e => .error (.placed e)
      | .ok (x, q) => readMembers S false (slots.fill f x) q := by
  rw [readMembers.eq_def]
  grind

/-- Where a member stands next, reading it takes one step of what its object settles. -/
theorem readMembers_step {m : Bytes × Bytes} {n : String × Bytes} {ms : List (String × Bytes)}
    {k k' u : Bytes}
    (h : nextKey first s = .ok (.key (m.1 ++ 0x22 :: (k ++ 0x3a :: (k' ++ (m.2 ++ u))))))
    (hk : Blank k) (hk' : Blank k') (named : Named m n) (stop : EndsNumber u)
    (settles : S.Settles slots (n :: ms) out) :
    ∃ slots', S.Settles slots' ms out ∧
      readMembers S first slots s = readMembers S false slots' u := by
  obtain ⟨name, v⟩ := n
  obtain ⟨spells, rfl⟩ : Spells m.1 name ∧ m.2 = v := named
  have key := spells.read (k ++ 0x3a :: (k' ++ (m.2 ++ u)))
  have colon := readColon_append hk (k' ++ (m.2 ++ u))
  cases settles with
  | other unknown isValue rest =>
    have skip := isValue.skips [] k' u hk' stop
    rw [skipAfter.eq_def] at skip
    exact ⟨slots, rest, readMembers_other h key unknown colon skip⟩
  | @field _ _ _ _ _ f x known free taken rest =>
    have run := taken k' u hk' stop
    refine ⟨slots.fill f x, rest, ?_⟩
    rw [readMembers_field h key known free colon, run]

/-- A member that could be read did settle what it stands for. -/
theorem settles_of_readMembers {m : Bytes × Bytes} {k k' u : Bytes}
    (exact : ∀ f, (S.read f).Exact)
    (h : nextKey first s = .ok (.key (m.1 ++ 0x22 :: (k ++ 0x3a :: (k' ++ (m.2 ++ u))))))
    (hk : Blank k) (hk' : Blank k') (form : StringForm m.1) (isValue : IsValue m.2)
    (stop : EndsNumber u) (read : readMembers S first slots s = .ok (out, q)) :
    ∃ n slots', Named m n ∧ readMembers S false slots' u = .ok (out, q) ∧
      ∀ ms, S.Settles slots' ms out → S.Settles slots (n :: ms) out := by
  have colon := readColon_append hk (k' ++ (m.2 ++ u))
  cases key : readText (m.1 ++ 0x22 :: (k ++ 0x3a :: (k' ++ (m.2 ++ u)))) with
  | error f =>
    rw [readMembers_unreadable h key] at read
    simp at read
  | ok p =>
    obtain ⟨name, rest⟩ := p
    obtain ⟨spells, rfl⟩ := spells_of_readText form key
    refine ⟨(name, m.2), ?_⟩
    cases known : S.fieldLabelled? name with
    | none =>
      have skip := isValue.skips [] k' u hk' stop
      rw [skipAfter.eq_def] at skip
      rw [readMembers_other h key known colon skip] at read
      exact ⟨slots, ⟨spells, rfl⟩, read, fun ms rest => .other known isValue rest⟩
    | some f =>
      cases free : slots f with
      | some x =>
        rw [readMembers_repeated h key known (by simp [free])] at read
        simp at read
      | none =>
        rw [readMembers_field h key known free colon] at read
        split at read
        · simp at read
        next x q' hx =>
          have taken := exact f isValue hk' stop hx
          rw [taken k' u hk' stop] at hx
          cases hx
          exact ⟨slots.fill f x, ⟨spells, rfl⟩, read, fun ms rest => .field known free taken rest⟩

variable {raws : List (Bytes × Bytes)} {ms : List (String × Bytes)}

/-- Members are read as far as their brace when they settle slots. -/
theorem readMembers_of_settles (h : Items MemberText 0x7d first raws s)
    (named : List.Forall₂ Named raws ms) (settles : S.Settles slots ms out) (r : Bytes) :
    readMembers S first slots (s ++ r) = .ok (out, 0x7d :: r) := by
  induction named generalizing first s slots with
  | nil =>
    cases settles
    exact readMembers_close (h.nextKey_close r)
  | @cons m n raws ms here _ ih =>
    obtain ⟨k, k', u, hk, hk', rest, next⟩ := h.nextKey_member
    obtain ⟨slots', settles', step⟩ :=
      readMembers_step (next r) hk hk' here (rest.endsNumber (.inr rfl) r) settles
    rw [step]
    exact ih rest settles'

/-- Members that could be read did settle slots. -/
theorem exists_settles_of_readMembers (exact : ∀ f, (S.read f).Exact)
    (h : Items MemberText 0x7d first raws s) (keys : ∀ m ∈ raws, StringForm m.1)
    (values : ∀ m ∈ raws, IsValue m.2)
    (read : readMembers S first slots (s ++ r) = .ok (out, q)) :
    ∃ ms, List.Forall₂ Named raws ms ∧ S.Settles slots ms out := by
  induction raws generalizing first s slots with
  | nil =>
    rw [readMembers_close (h.nextKey_close r)] at read
    cases read
    exact ⟨[], .nil, .nil⟩
  | cons m raws ih =>
    obtain ⟨k, k', u, hk, hk', rest, next⟩ := h.nextKey_member
    obtain ⟨n, slots', here, read', step⟩ := settles_of_readMembers exact (next r) hk hk'
      (keys m (by simp)) (values m (by simp)) (rest.endsNumber (.inr rfl) r) read
    obtain ⟨ms, others, settles⟩ := ih rest (fun m hm => keys m (by simp [hm]))
      (fun m hm => values m (by simp [hm])) read'
    exact ⟨n :: ms, .cons here others, step ms settles⟩

end Members

section InTurn

variable {S : RecordShape α} {first : Bool} {slots out : S.Slots} {s r q q' v : Bytes}
  {fs : List S.Field} {vs : List Bytes} {n : Nat}

theorem Items.nextItem_close (h : Items Eq 0x5d first [] s) (r : Bytes) :
    nextItem first (s ++ r) = .ok none := by
  obtain ⟨blank⟩ := h
  unfold nextItem
  rw [List.append_assoc, List.singleton_append, blank.skip_cons (by decide)]
  rfl

theorem Items.closeList (h : Items Eq 0x5d first [] s) (r : Bytes) :
    closeList (s ++ r) = .ok r := by
  obtain ⟨blank⟩ := h
  unfold Json.closeList
  rw [List.append_assoc, List.singleton_append, blank.skip_cons (by decide)]
  rfl

theorem Items.nextItem_value (h : Items Eq 0x5d first (v :: vs) s) (value : IsValue v) :
    ∃ u, Items Eq 0x5d false vs u ∧ ∀ r, nextItem first (s ++ r) = .ok (some (v ++ (u ++ r))) := by
  obtain ⟨c, t, rfl, hc, bracket⟩ := value.exists_cons
  cases h with
  | @first b t u _ _ blank text rest =>
    subst text
    refine ⟨u, rest, fun r => ?_⟩
    simp only [List.append_assoc, List.cons_append]
    unfold nextItem
    rw [blank.skip_cons hc]
    simp [bracket]
  | @next b b' t u _ _ blank blank' text rest =>
    subst text
    refine ⟨u, rest, fun r => ?_⟩
    simp only [List.append_assoc, List.cons_append]
    unfold nextItem
    rw [blank.skip_cons (by decide)]
    dsimp only
    rw [blank'.skip_cons hc]
    simp [bracket]

theorem Items.not_closeList (h : Items Eq 0x5d first (v :: vs) s) (value : IsValue v) (r : Bytes) :
    Json.closeList (s ++ r) ≠ .ok q := by
  obtain ⟨c, t, rfl, hc, bracket⟩ := value.exists_cons
  cases h with
  | first blank text rest =>
    subst text
    simp only [List.append_assoc, List.cons_append]
    unfold Json.closeList
    rw [blank.skip_cons hc]
    grind
  | next blank blank' text rest =>
    simp only [List.append_assoc, List.cons_append]
    unfold Json.closeList
    rw [blank.skip_cons (by decide)]
    grind

/-- A list of a record's fields is read to its bracket when its items settle slots in turn. -/
theorem readItems_of_settles (h : Items Eq 0x5d (n == 0) vs s) (values : ∀ v ∈ vs, IsValue v)
    (settles : S.SettlesInTurn slots fs vs out) (r : Bytes) :
    ∃ q, readItems S n slots fs (s ++ r) = .ok (out, q) ∧ closeList q = .ok r := by
  induction settles generalizing n s with
  | nil => exact ⟨_, rfl, h.closeList r⟩
  | @cons slots out f fs v vs x taken _ ih =>
    obtain ⟨u, rest, next⟩ := h.nextItem_value (values v (by simp))
    obtain ⟨q, read, close⟩ := ih (n := n + 1) (by simpa using rest)
      fun w hw => values w (by simp [hw])
    have run := taken [] (u ++ r) blank_nil (rest.endsNumber (.inl rfl) r)
    refine ⟨q, ?_, close⟩
    rw [List.nil_append] at run
    rw [readItems, next r]
    simp only [run, read]

/-- Items that could be read, up to the bracket, did settle slots in turn. -/
theorem settles_of_readItems (exact : ∀ f, (S.read f).Exact)
    (h : Items Eq 0x5d (n == 0) vs s) (values : ∀ v ∈ vs, IsValue v)
    (read : readItems S n slots fs (s ++ r) = .ok (out, q)) (close : closeList q = .ok q') :
    S.SettlesInTurn slots fs vs out := by
  induction fs generalizing n slots vs s with
  | nil =>
    cases read
    cases vs with
    | nil => exact .nil
    | cons v vs => exact absurd close (h.not_closeList (values v (by simp)) r)
  | cons f fs ih =>
    rw [readItems] at read
    cases vs with
    | nil =>
      rw [h.nextItem_close r] at read
      simp at read
    | cons v vs =>
      obtain ⟨u, rest, next⟩ := h.nextItem_value (values v (by simp))
      have stop := rest.endsNumber (.inl rfl) r
      simp only [next r] at read
      split at read
      · simp at read
      next x q'' hx =>
        have taken := exact f (values v (by simp)) blank_nil stop hx
        have run := taken [] (u ++ r) blank_nil stop
        rw [List.nil_append] at run
        rw [run] at hx
        cases hx
        exact .cons taken (ih (n := n + 1) (by simpa using rest)
          (fun w hw => values w (by simp [hw])) read)

end InTurn

end Json

end AlertLedger
