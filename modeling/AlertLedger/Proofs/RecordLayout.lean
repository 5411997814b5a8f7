import AlertLedger.Proofs.RecordReading

namespace AlertLedger

open Json (IsValue Named ObjectText ListText Items)

/-- The members of an object with these names and values, in this order. -/
def Json.NamedObject (ms : List (String × Bytes)) (s : Bytes) : Prop :=
  ∃ raws, ObjectText raws s ∧ List.Forall₂ Named raws ms

namespace RecordShape

variable {S : RecordShape α} {slots out : S.Slots} {ms : List (String × Bytes)}
  {values : S.Field → Bytes} {s b r q : Bytes}

/-- The members of the name of a field. -/
def membersOf (S : RecordShape α) (f : S.Field) (ms : List (String × Bytes)) :
    List (String × Bytes) := ms.filter fun m => m.1 == S.label f

/-- A text of a record whose fields have these texts: an object with each field once, in any order
and among other members, or the list of the fields in order. -/
inductive Text (S : RecordShape α) (values : S.Field → Bytes) : Bytes → Prop
  | object {ms : List (String × Bytes)} {s : Bytes} (members : Json.NamedObject ms s)
      (once : ∀ f, S.membersOf f ms = [(S.label f, values f)])
      (others : ∀ m ∈ ms, (∀ f, S.label f ≠ m.1) → IsValue m.2) : S.Text values (0x7b :: s)
  | list {s : Bytes} (items : ListText (S.fields.map values) s)
      (wellFormed : ∀ f, IsValue (values f)) : S.Text values (0x5b :: s)

theorem Labelled.label_inj {f g : S.Field} (h : S.Labelled) (same : S.label f = S.label g) :
    f = g := by
  have here := h.fieldLabelled? f
  rw [same, h.fieldLabelled? g] at here
  exact (Option.some.inj here).symm

theorem membersOf_cons_self (f : S.Field) (v : Bytes) (ms : List (String × Bytes)) :
    S.membersOf f ((S.label f, v) :: ms) = (S.label f, v) :: S.membersOf f ms := by
  simp [membersOf]

theorem membersOf_cons_other {f : S.Field} {m : String × Bytes} (h : m.1 ≠ S.label f) :
    S.membersOf f (m :: ms) = S.membersOf f ms := by
  simp [membersOf, h]

theorem mem_of_membersOf {f : S.Field} {v : Bytes} (h : S.membersOf f ms = [(S.label f, v)]) :
    (S.label f, v) ∈ ms := by
  have here : (S.label f, v) ∈ S.membersOf f ms := by simp [h]
  exact (List.mem_filter.mp here).1

/-- A slot that was free holds what the one member of its name gave, or nothing if there is none. -/
theorem Settles.slot (labelled : S.Labelled) (h : S.Settles slots ms out) (f : S.Field) :
    (∀ x, slots f = some x → S.membersOf f ms = [] ∧ out f = some x) ∧
    (slots f = none → (S.membersOf f ms = [] ∧ out f = none) ∨
      ∃ v x, S.membersOf f ms = [(S.label f, v)] ∧ (S.read f).Takes v x ∧ out f = some x) := by
  induction h with
  | nil => simp [membersOf]
  | @other slots out name v ms unknown _ _ ih =>
    rw [membersOf_cons_other (fieldLabelled?_eq_none.mp unknown f).symm]
    exact ih
  | @field slots out name v ms g x known free taken _ ih =>
    obtain rfl := label_of_fieldLabelled? known
    cases S.decEq f g with
    | isTrue same =>
      subst same
      obtain ⟨none, here⟩ := ih.1 x (Slots.fill_self x)
      refine ⟨fun y hy => by simp [free] at hy, fun _ => .inr ⟨v, x, ?_, taken, here⟩⟩
      rw [membersOf_cons_self, none]
    | isFalse other =>
      rw [membersOf_cons_other fun same => other (labelled.label_inj same).symm]
      rwa [Slots.fill_other other] at ih

theorem settles_of_once (labelled : S.Labelled) {x : (f : S.Field) → S.Value f}
    (taken : ∀ f, (S.read f).Takes (values f) (x f))
    (others : ∀ m ∈ ms, (∀ f, S.label f ≠ m.1) → IsValue m.2)
    (once : ∀ f, (slots f = some (x f) ∧ S.membersOf f ms = []) ∨
      (slots f = none ∧ S.membersOf f ms = [(S.label f, values f)])) :
    S.Settles slots ms fun f => some (x f) := by
  induction ms generalizing slots with
  | nil =>
    have full : slots = fun f => some (x f) := by
      funext f
      obtain ⟨here, _⟩ | ⟨_, none⟩ := once f
      · exact here
      · simp [membersOf] at none
    rw [full]
    exact .nil
  | cons m ms ih =>
    obtain ⟨name, v⟩ := m
    cases known : S.fieldLabelled? name with
    | none =>
      have unknown := fieldLabelled?_eq_none.mp known
      refine .other known (others (name, v) (by simp) unknown)
        (ih (fun m hm => others m (by simp [hm])) fun f => ?_)
      have here := once f
      rwa [membersOf_cons_other (unknown f).symm] at here
    | some g =>
      obtain rfl := label_of_fieldLabelled? known
      have here := once g
      rw [membersOf_cons_self] at here
      obtain ⟨_, none⟩ | ⟨free, one⟩ := here
      · simp at none
      · simp only [List.cons.injEq, Prod.mk.injEq, true_and] at one
        obtain ⟨rfl, none⟩ := one
        refine .field known free (taken g) (ih (fun m hm => others m (by simp [hm])) ?_)
        intro f
        cases S.decEq f g with
        | isTrue same =>
          subst same
          exact .inl ⟨Slots.fill_self _, none⟩
        | isFalse other =>
          have there := once f
          rw [membersOf_cons_other fun same => other (labelled.label_inj same).symm] at there
          rwa [Slots.fill_other other]

theorem SettlesInTurn.slot {fs : List S.Field} (h : S.SettlesInTurn slots fs (fs.map values) out)
    (f : S.Field) :
    (f ∈ fs → ∃ x, (S.read f).Takes (values f) x ∧ out f = some x) ∧
    (f ∉ fs → out f = slots f) := by
  induction fs generalizing slots with
  | nil =>
    cases h
    simp
  | cons g fs ih =>
    cases h with
    | @cons _ _ _ _ _ _ x taken rest =>
    obtain ⟨within, without⟩ := ih rest
    constructor
    · intro hf
      by_cases later : f ∈ fs
      · exact within later
      · obtain rfl : f = g := (List.mem_cons.mp hf).resolve_right later
        exact ⟨x, taken, (without later).trans (Slots.fill_self x)⟩
    · intro hf
      rw [List.mem_cons, not_or] at hf
      exact (without hf.2).trans (Slots.fill_other hf.1 x)

theorem exists_settlesInTurn {x : (f : S.Field) → S.Value f}
    (taken : ∀ f, (S.read f).Takes (values f) (x f)) (slots : S.Slots) (fs : List S.Field) :
    ∃ out, S.SettlesInTurn slots fs (fs.map values) out := by
  induction fs generalizing slots with
  | nil => exact ⟨slots, .nil⟩
  | cons f fs ih =>
    obtain ⟨out, rest⟩ := ih (slots.fill f (x f))
    exact ⟨out, .cons (taken f) rest⟩

end RecordShape

namespace Json

variable {S : RecordShape α} {slots out : S.Slots} {raws : List (Bytes × Bytes)}
  {ms : List (String × Bytes)} {vs : List Bytes} {s b r q : Bytes} {a : α}

theorem closeObject_brace (r : Bytes) : closeObject (0x7d :: r) = .ok r := by
  simp [closeObject, skipBlank_of_not (show isBlank 0x7d = false by decide)]

theorem readRecord_object (h : ObjectText raws s) (named : List.Forall₂ Named raws ms)
    (settles : S.Settles S.emptySlots ms out) (full : S.ofSlots out = .ok a) (r : Bytes) :
    readRecord S 0x7b (s ++ r) = .ok (a, r) := by
  have members := readMembers_of_settles h named settles r
  simp [readRecord, members, finishRecord, full, closeObject_brace]

theorem settles_of_readRecord_object (exact : ∀ f, (S.read f).Exact) (h : ObjectText raws s)
    (keys : ∀ m ∈ raws, StringForm m.1) (values : ∀ m ∈ raws, IsValue m.2)
    (read : readRecord S 0x7b (s ++ r) = .ok (a, q)) :
    ∃ ms out, List.Forall₂ Named raws ms ∧ S.Settles S.emptySlots ms out ∧
      S.ofSlots out = .ok a := by
  have other : ¬(0x7b : UInt8) = 0x5b := by decide
  rw [readRecord, if_neg other, if_pos rfl] at read
  obtain ⟨out, _, members, full, _⟩ := finishRecord_eq_ok read
  obtain ⟨ms, named, settles⟩ := exists_settles_of_readMembers exact h keys values members
  exact ⟨ms, out, named, settles, full⟩

theorem readRecord_list (h : ListText vs s) (values : ∀ v ∈ vs, IsValue v)
    (settles : S.SettlesInTurn S.emptySlots S.fields vs out) (full : S.ofSlots out = .ok a)
    (r : Bytes) : readRecord S 0x5b (s ++ r) = .ok (a, r) := by
  obtain ⟨q, items, close⟩ := readItems_of_settles (n := 0) h values settles r
  simp [readRecord, items, finishRecord, full, close]

theorem settles_of_readRecord_list (exact : ∀ f, (S.read f).Exact) (h : ListText vs s)
    (values : ∀ v ∈ vs, IsValue v) (read : readRecord S 0x5b (s ++ r) = .ok (a, q)) :
    ∃ out, S.SettlesInTurn S.emptySlots S.fields vs out ∧ S.ofSlots out = .ok a := by
  rw [readRecord, if_pos rfl] at read
  obtain ⟨out, _, items, full, close⟩ := finishRecord_eq_ok read
  exact ⟨out, settles_of_readItems (n := 0) exact h values items close, full⟩

theorem record_exact (exact : ∀ f, (S.read f).Exact) : (record S).Exact := by
  refine exact_of_read rfl fun {c t r a q} value _ read r' _ => ?_
  by_cases bracket : c = 0x5b
  · subst bracket
    obtain ⟨vs, items, values⟩ := value.items
    obtain ⟨out, settles, full⟩ := settles_of_readRecord_list exact items values read
    exact readRecord_list items values settles full r'
  by_cases brace : c = 0x7b
  · subst brace
    obtain ⟨raws, members, keys, values⟩ := value.members
    obtain ⟨ms, out, named, settles, full⟩ :=
      settles_of_readRecord_object exact members keys values read
    exact readRecord_object members named settles full r'
  · simp [readRecord, bracket, brace] at read

theorem Named.unique {ms' : List (String × Bytes)} (h : List.Forall₂ Named raws ms)
    (h' : List.Forall₂ Named raws ms') : ms = ms' := by
  induction h generalizing ms' with
  | nil =>
    cases h'
    rfl
  | cons here _ ih =>
    cases h' with
    | cons here' others' =>
    rw [ih others', Prod.ext (here.1.inj here'.1) (here.2.symm.trans here'.2)]

theorem Named.stringForm (h : List.Forall₂ Named raws ms) : ∀ m ∈ raws, StringForm m.1 := by
  induction h with
  | nil => simp
  | cons here _ ih => exact List.forall_mem_cons.mpr ⟨here.1.stringForm, ih⟩

theorem Named.isValue (h : List.Forall₂ Named raws ms) (values : ∀ m ∈ ms, IsValue m.2) :
    ∀ m ∈ raws, IsValue m.2 := by
  induction h with
  | nil => simp
  | cons here _ ih =>
    rw [List.forall_mem_cons] at values ⊢
    exact ⟨here.2 ▸ values.1, ih values.2⟩

/-- A record that was read from an object has each of its fields there, exactly once. -/
theorem membersOf_of_readRecord (labelled : S.Labelled) (exact : ∀ f, (S.read f).Exact)
    (members : NamedObject ms s) (values : ∀ m ∈ ms, IsValue m.2)
    (read : readRecord S 0x7b (s ++ r) = .ok (a, q)) :
    ∃ x, a = S.build x ∧
      ∀ f, ∃ v, S.membersOf f ms = [(S.label f, v)] ∧ (S.read f).Takes v (x f) := by
  obtain ⟨raws, object, named⟩ := members
  obtain ⟨ms', out, named', settles, full⟩ := settles_of_readRecord_object exact object
    (Named.stringForm named) (Named.isValue named values) read
  obtain rfl := Named.unique named named'
  obtain ⟨x, rfl, rfl⟩ := RecordShape.ofSlots_eq_ok full
  refine ⟨x, rfl, fun f => ?_⟩
  obtain ⟨_, none⟩ | ⟨v, y, one, taken, here⟩ := (settles.slot labelled f).2 rfl
  · simp at none
  · obtain rfl := Option.some.inj here
    exact ⟨v, one, taken⟩

theorem decode_of_takes {reader : Reader α} (h : reader.Takes s a) (hb : Blank b)
    (hr : Blank r) : decode reader (b ++ (s ++ r)) = .ok a := by
  have stop : EndsNumber r := by simpa using hr.endsNumber endsNumber_nil
  simp [decode, h b r hb stop, hr.skip_all]

theorem run_of_decode {reader : Reader α} (h : decode reader s = .ok a) :
    ∃ q, reader.run s = .ok (a, q) := by
  unfold decode at h
  split at h
  · simp at h
  next x q hr =>
    split at h
    · cases h
      exact ⟨q, hr⟩
    · simp at h

theorem run_record {d : UInt8} (hb : Blank b) (bracket : isBlank d = false) (s : Bytes) :
    (record S).run (b ++ d :: s) = readRecord S d s :=
  atValue_append hb bracket s

end Json

namespace RecordShape

variable {S : RecordShape α} {values : S.Field → Bytes} {s b r q : Bytes} {a : α}

theorem Text.takes (labelled : S.Labelled) (h : S.Text values s) {x : (f : S.Field) → S.Value f}
    (taken : ∀ f, (S.read f).Takes (values f) (x f)) : (Json.record S).Takes s (S.build x) := by
  cases h with
  | @object ms s members once others =>
    obtain ⟨raws, object, named⟩ := members
    have settles : S.Settles S.emptySlots ms fun f => some (x f) :=
      settles_of_once labelled taken others fun f => .inr ⟨rfl, once f⟩
    exact Json.takes_of_read rfl (by decide)
      fun r _ => Json.readRecord_object object named settles (ofSlots_full x) r
  | list items wellFormed =>
    obtain ⟨out, settles⟩ := exists_settlesInTurn taken S.emptySlots S.fields
    have full : out = fun f => some (x f) := by
      funext f
      obtain ⟨y, hy, here⟩ := (settles.slot f).1 (S.complete f)
      rw [here, hy.inj (taken f)]
    have isValue : ∀ v ∈ S.fields.map values, IsValue v := by
      intro v hv
      obtain ⟨f, _, rfl⟩ := List.mem_map.mp hv
      exact wellFormed f
    subst full
    exact Json.takes_of_read rfl (by decide)
      fun r _ => Json.readRecord_list items isValue settles (ofSlots_full x) r

/-- A record that was read from a text has the values that its fields have there. -/
theorem Text.exists_taken (labelled : S.Labelled) (exact : ∀ f, (S.read f).Exact)
    (h : S.Text values s) (wellFormed : ∀ f, IsValue (values f)) (hb : Json.Blank b)
    (read : (Json.record S).run (b ++ (s ++ r)) = .ok (a, q)) :
    ∃ x, a = S.build x ∧ ∀ f, (S.read f).Takes (values f) (x f) := by
  cases h with
  | @object ms s members once others =>
    rw [List.cons_append, Json.run_record hb (by decide)] at read
    have isValue : ∀ m ∈ ms, IsValue m.2 := by
      intro m hm
      by_cases known : ∀ f, S.label f ≠ m.1
      · exact others m hm known
      · simp only [ne_eq, not_forall, Decidable.not_not] at known
        obtain ⟨f, hf⟩ := known
        have here : m ∈ S.membersOf f ms := List.mem_filter.mpr ⟨hm, by simp [hf]⟩
        rw [once f, List.mem_singleton] at here
        rw [here]
        exact wellFormed f
    obtain ⟨x, rfl, one⟩ := Json.membersOf_of_readRecord labelled exact members isValue read
    refine ⟨x, rfl, fun f => ?_⟩
    obtain ⟨v, hv, taken⟩ := one f
    rw [once f] at hv
    cases hv
    exact taken
  | list items =>
    rw [List.cons_append, Json.run_record hb (by decide)] at read
    have isValue : ∀ v ∈ S.fields.map values, IsValue v := by
      intro v hv
      obtain ⟨f, _, rfl⟩ := List.mem_map.mp hv
      exact wellFormed f
    obtain ⟨out, settles, full⟩ := Json.settles_of_readRecord_list exact items isValue read
    obtain ⟨x, rfl, rfl⟩ := ofSlots_eq_ok full
    refine ⟨x, rfl, fun f => ?_⟩
    obtain ⟨y, taken, here⟩ := (settles.slot f).1 (S.complete f)
    obtain rfl := Option.some.inj here
    exact taken

end RecordShape

namespace Json

variable {item : α → Bytes → Prop} {closing : UInt8} {as : List α} {cs : α → List Char}
  {ms : List (String × Bytes)} {s : Bytes}

theorem commaSeparated_cons (x : List Char) (xs : List (List Char)) :
    commaSeparated (x :: xs) = x ++ xs.flatMap (',' :: ·) := by
  induction xs generalizing x with
  | nil => simp [commaSeparated]
  | cons y ys ih =>
    rw [List.flatMap_cons, List.cons_append, ← ih y]
    simp [commaSeparated, List.intercalate]

theorem items_flatMap (texts : ∀ a ∈ as, item a (Utf8.encode (cs a))) :
    Items item closing false as
      (Utf8.encode ((as.map cs).flatMap (',' :: ·)) ++ [closing]) := by
  induction as with
  | nil => exact Items.close blank_nil
  | cons a as ih =>
    have rest := ih fun a' ha' => texts a' (by simp [ha'])
    have here := Items.next blank_nil blank_nil (texts a (by simp)) rest
    have comma : Utf8.encodeChar ',' = [0x2c] := by decide
    simpa [Utf8.encode_append, Utf8.encode_cons, comma] using here

/-- Items without blanks. -/
theorem items_commaSeparated (texts : ∀ a ∈ as, item a (Utf8.encode (cs a))) :
    Items item closing true as (Utf8.encode (commaSeparated (as.map cs)) ++ [closing]) := by
  cases as with
  | nil => exact Items.close blank_nil
  | cons a as =>
    have rest : Items item closing false as _ :=
      items_flatMap fun a' ha' => texts a' (by simp [ha'])
    have here := Items.first blank_nil (texts a (by simp)) rest
    rw [List.map_cons, commaSeparated_cons, Utf8.encode_append, List.append_assoc]
    simpa using here

theorem Items.map {item : β → Bytes → Prop} {g : α → β} {first : Bool} {s : Bytes}
    (h : Items (fun a t => item (g a) t) closing first as s) :
    Items item closing first (as.map g) s := by
  induction h with
  | close blank => exact .close blank
  | first blank text _ ih => exact .first blank text ih
  | next blank blank' text _ ih => exact .next blank blank' text ih

/-- An object with these members and without blanks. -/
def objectChars (ms : List (String × List Char)) : List Char :=
  '{' :: commaSeparated (ms.map fun m => textChars m.1 ++ ':' :: m.2) ++ ['}']

theorem exists_namedObject (ms : List (String × List Char)) :
    ∃ s, Utf8.encode (objectChars ms) = 0x7b :: s ∧
      NamedObject (ms.map fun m => (m.1, Utf8.encode m.2)) s := by
  choose key spells quoted using exists_spells_textChars
  have member (m : String × List Char) : MemberText (key m.1, Utf8.encode m.2)
      (Utf8.encode (textChars m.1 ++ ':' :: m.2)) := by
    have colon : Utf8.encodeChar ':' = [0x3a] := by decide
    refine ⟨[], [], blank_nil, blank_nil, ?_⟩
    rw [Utf8.encode_append, quoted m.1, Utf8.encode_cons, colon]
    simp
  have braces : Utf8.encodeChar '{' = [0x7b] ∧ Utf8.encode ['}'] = [0x7d] := by decide
  have items : Items _ 0x7d true ms _ := items_commaSeparated fun m _ => member m
  refine ⟨_, ?_, _, items.map, ?_⟩
  · rw [objectChars, List.cons_append, Utf8.encode_cons, Utf8.encode_append, braces.1, braces.2]
    rfl
  · rw [List.forall₂_map_left_iff, List.forall₂_map_right_iff]
    exact List.forall₂_same.mpr fun m _ => ⟨spells m.1, rfl⟩

theorem isValue_textChars (s : String) : IsValue (Utf8.encode (textChars s)) := by
  obtain ⟨t, spells, ht⟩ := exists_spells_textChars s
  rw [ht]
  exact .text spells.stringForm

theorem NamedObject.isValue (h : NamedObject ms s) (values : ∀ m ∈ ms, IsValue m.2) :
    IsValue (0x7b :: s) := by
  obtain ⟨raws, object, named⟩ := h
  exact .object object (Named.stringForm named) (Named.isValue named values)

end Json

end AlertLedger
