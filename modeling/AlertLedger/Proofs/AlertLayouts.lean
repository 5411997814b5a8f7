import AlertLedger.Alert
import AlertLedger.Proofs.RecordLayout

namespace AlertLedger

open Json (Blank IsValue NamedObject)

theorem AlertCode.labelled : AlertCode.shape.Labelled := by
  intro f
  cases f <;> rfl

theorem AlertCode.readers_exact (f : AlertCode.Field) : (AlertCode.shape.read f).Exact := by
  cases f with
  | number => exact Json.signed64_exact
  | name => exact Json.text_exact

namespace Alert

theorem labelled : shape.Labelled := by
  intro f
  cases f <;> rfl

theorem readers_exact (f : Alert.Field) : (shape.read f).Exact := by
  cases f with
  | severity => exact Json.variant_exact _
  | code => exact Json.record_exact AlertCode.readers_exact
  | origin | parent | message | metric => exact Json.text_exact
  | timestamp => exact Json.real_exact

/-- The texts of the fields of an alert, with `c` for that of its code. -/
def textsWithCode (values : Alert.Field → Bytes) (c : Bytes) : Alert.Field → Bytes
  | .code => c
  | f => values f

/-- A text of an alert whose fields have the texts `values`, apart from its code, whose fields in
turn have the texts `code`. -/
def Text (values : Alert.Field → Bytes) (code : AlertCode.Field → Bytes) (s : Bytes) : Prop :=
  ∃ c, IsValue c ∧ AlertCode.shape.Text code c ∧ shape.Text (textsWithCode values c) s

variable {values : Alert.Field → Bytes} {code : AlertCode.Field → Bytes} {s s' b c b' c' : Bytes}
  {a : Alert}

/-- The layout of an alert's text does not show in the alert. -/
theorem decode_of_same_texts (plain : ∀ f, IsValue (values f)) (inner : ∀ f, IsValue (code f))
    (h : Text values code s) (h' : Text values code s') (hb : Blank b) (hb' : Blank b')
    (hc' : Blank c') (decoded : decode (b ++ (s ++ c)) = .ok a) :
    decode (b' ++ (s' ++ c')) = .ok a := by
  obtain ⟨t, ht, code₁, text₁⟩ := h
  obtain ⟨t', ht', code₂, text₂⟩ := h'
  obtain ⟨q, run⟩ := Json.run_of_decode decoded
  have wellFormed : ∀ f, IsValue (textsWithCode values t f) := by
    intro f
    cases f with
    | code => exact ht
    | severity | origin | parent | message | metric | timestamp => exact plain _
  obtain ⟨x, rfl, taken⟩ := text₁.exists_taken labelled readers_exact wellFormed hb run
  have number : (Json.record AlertCode.shape).run ([] ++ (t ++ [])) = .ok (x .code, []) :=
    taken .code [] [] Json.blank_nil Json.endsNumber_nil
  obtain ⟨y, hy, takenCode⟩ := code₁.exists_taken AlertCode.labelled AlertCode.readers_exact inner
    Json.blank_nil number
  refine Json.decode_of_takes (text₂.takes labelled fun f => ?_) hb' hc'
  cases f with
  | code =>
    have same := code₂.takes AlertCode.labelled takenCode
    rw [← hy] at same
    exact same
  | severity | origin | parent | message | metric | timestamp => exact taken _

section Members

variable {ms cms : List (String × Bytes)} {t : Bytes}

/-- The members of an accepted object have each field exactly once, and so do those of its code. -/
theorem membersOf_of_decode (members : NamedObject ms s) (isValue : ∀ m ∈ ms, IsValue m.2)
    (hb : Blank b) (decoded : decode (b ++ 0x7b :: (s ++ c)) = .ok a) :
    ∃ x, a = shape.build x ∧
      ∀ f, ∃ v, shape.membersOf f ms = [(shape.label f, v)] ∧ (shape.read f).Takes v (x f) := by
  obtain ⟨q, run⟩ := Json.run_of_decode decoded
  rw [Json.run_record hb (by decide)] at run
  exact Json.membersOf_of_readRecord labelled readers_exact members isValue run

theorem codeMembersOf_of_decode (members : NamedObject ms s) (isValue : ∀ m ∈ ms, IsValue m.2)
    (hcode : (shape.label .code, 0x7b :: t) ∈ ms) (codeMembers : NamedObject cms t)
    (isValue' : ∀ m ∈ cms, IsValue m.2) (hb : Blank b)
    (decoded : decode (b ++ 0x7b :: (s ++ c)) = .ok a) (f : AlertCode.Field) :
    ∃ v, AlertCode.shape.membersOf f cms = [(AlertCode.shape.label f, v)] := by
  obtain ⟨x, rfl, one⟩ := membersOf_of_decode members isValue hb decoded
  obtain ⟨v, hv, taken⟩ := one .code
  have here : (shape.label .code, 0x7b :: t) ∈ shape.membersOf .code ms :=
    List.mem_filter.mpr ⟨hcode, by simp⟩
  rw [hv, List.mem_singleton] at here
  cases here
  have run : (Json.record AlertCode.shape).run ([] ++ 0x7b :: (t ++ [])) = .ok (x .code, []) :=
    taken [] [] Json.blank_nil Json.endsNumber_nil
  rw [Json.run_record Json.blank_nil (by decide)] at run
  obtain ⟨y, _, one'⟩ := Json.membersOf_of_readRecord AlertCode.labelled AlertCode.readers_exact
    codeMembers isValue' run
  obtain ⟨w, hw, _⟩ := one' f
  exact ⟨w, hw⟩

theorem exists_text_of_decode (members : NamedObject ms s) (isValue : ∀ m ∈ ms, IsValue m.2)
    (hcode : (shape.label .code, 0x7b :: t) ∈ ms) (codeMembers : NamedObject cms t)
    (isValue' : ∀ m ∈ cms, IsValue m.2) (hb : Blank b)
    (decoded : decode (b ++ 0x7b :: (s ++ c)) = .ok a) :
    ∃ values code, Text values code (0x7b :: s) ∧
      (∀ f, shape.membersOf f ms = [(shape.label f, values f)]) ∧
      ∀ f, AlertCode.shape.membersOf f cms = [(AlertCode.shape.label f, code f)] := by
  obtain ⟨_, _, one⟩ := membersOf_of_decode members isValue hb decoded
  choose values hvalues _ using one
  choose code hcodes using
    codeMembersOf_of_decode members isValue hcode codeMembers isValue' hb decoded
  have same : values .code = 0x7b :: t := by
    have here : (shape.label .code, 0x7b :: t) ∈ shape.membersOf .code ms :=
      List.mem_filter.mpr ⟨hcode, by simp⟩
    rw [hvalues .code, List.mem_singleton, Prod.mk.injEq] at here
    exact here.2.symm
  have texts : textsWithCode values (0x7b :: t) = values := by
    funext f
    cases f with
    | code => exact same.symm
    | severity | origin | parent | message | metric | timestamp => rfl
  refine ⟨values, code, ⟨0x7b :: t, isValue _ hcode, ?_, ?_⟩, hvalues, hcodes⟩
  · exact .object codeMembers hcodes fun m hm _ => isValue' m hm
  · rw [texts]
    exact .object members hvalues fun m hm _ => isValue m hm

end Members

/-- An alert is the same in every layout. Where the object of an alert, with an object for its
code, is accepted, each text in which its fields and those of its code have the same texts gives
the same alert: the members in any order, any others among them, blanks anywhere, or lists in
place of the objects. An object that lacks a field, or has one more than once, is refused, and so
is one whose code does. -/
theorem decode_ignores_layout :
    (∀ {ms cms s t b c a}, NamedObject ms s → (∀ m ∈ ms, IsValue m.2) →
      (shape.label .code, 0x7b :: t) ∈ ms → NamedObject cms t → (∀ m ∈ cms, IsValue m.2) →
      Blank b → decode (b ++ 0x7b :: (s ++ c)) = .ok a →
      ∃ values code, (∀ f, shape.membersOf f ms = [(shape.label f, values f)]) ∧
        (∀ f, AlertCode.shape.membersOf f cms = [(AlertCode.shape.label f, code f)]) ∧
        ∀ {s' b' c'}, Text values code s' → Blank b' → Blank c' →
          decode (b' ++ (s' ++ c')) = .ok a) ∧
    (∀ {ms s b c f}, NamedObject ms s → (∀ m ∈ ms, IsValue m.2) → Blank b →
      (shape.membersOf f ms).length ≠ 1 → ∃ e, decode (b ++ 0x7b :: (s ++ c)) = .error e) ∧
    (∀ {ms cms s t b c f}, NamedObject ms s → (∀ m ∈ ms, IsValue m.2) →
      (shape.label .code, 0x7b :: t) ∈ ms → NamedObject cms t → (∀ m ∈ cms, IsValue m.2) →
      Blank b → (AlertCode.shape.membersOf f cms).length ≠ 1 →
      ∃ e, decode (b ++ 0x7b :: (s ++ c)) = .error e) := by
  refine ⟨?_, ?_, ?_⟩
  · intro ms cms s t b c a members isValue hcode codeMembers isValue' hb decoded
    obtain ⟨values, code, text, plain, inner⟩ :=
      exists_text_of_decode members isValue hcode codeMembers isValue' hb decoded
    refine ⟨values, code, plain, inner, fun h' hb' hc' => ?_⟩
    exact decode_of_same_texts (fun f => isValue _ (RecordShape.mem_of_membersOf (plain f)))
      (fun f => isValue' _ (RecordShape.mem_of_membersOf (inner f))) text h' hb hb' hc' decoded
  · intro ms s b c f members isValue hb count
    cases decoded : decode (b ++ 0x7b :: (s ++ c)) with
    | error e => exact ⟨e, rfl⟩
    | ok a =>
      obtain ⟨_, _, one⟩ := membersOf_of_decode members isValue hb decoded
      obtain ⟨v, hv, _⟩ := one f
      exact absurd (by rw [hv]; rfl) count
  · intro ms cms s t b c f members isValue hcode codeMembers isValue' hb count
    cases decoded : decode (b ++ 0x7b :: (s ++ c)) with
    | error e => exact ⟨e, rfl⟩
    | ok a =>
      obtain ⟨v, hv⟩ := codeMembersOf_of_decode members isValue hcode codeMembers isValue' hb
        decoded f
      exact absurd (by rw [hv]; rfl) count

section Sample

/-- An alert in two layouts; the second has its members the other way round, with one more in
front, and its code as a list. -/
def sampleCode : List (String × List Char) :=
  [("code", ['7']), ("name", Json.textChars "MissedBlocks")]

def sampleMembers (code : List Char) : List (String × List Char) :=
  [("severity", Json.textChars "INFO"), ("alert_code", code), ("origin_id", Json.textChars "node"),
    ("parent_id", Json.textChars "chain"), ("message", Json.textChars "Missed \"5\" blocks"),
    ("metric", Json.textChars "missed_blocks"), ("timestamp", ['1', '.', '5'])]

def sampleShuffled : List (String × List Char) :=
  ("trace", Json.objectChars [("severity", ['9'])]) ::
    (sampleMembers (Json.listChars Prod.snd sampleCode)).reverse

def sample : Alert where
  severity := .info
  code := ⟨7, "MissedBlocks"⟩
  origin := "node"
  parent := "chain"
  message := "Missed \"5\" blocks"
  metric := "missed_blocks"
  timestamp := .ofBits 0x3ff8000000000000

def bytesOf (ms : List (String × List Char)) : List (String × Bytes) :=
  ms.map fun m => (m.1, Utf8.encode m.2)

theorem isValue_of_scanNumber {v : Bytes} {n : Json.NumberText}
    (h : Json.scanNumber .valueMissing v = .ok (n, [])) : IsValue v := by
  obtain ⟨u, form, hu⟩ := Json.exists_isUnsigned_of_scanNumber h
  rw [List.append_nil] at hu
  exact hu ▸ .number (.unsigned form)

theorem isValue_bytesOf {ms : List (String × List Char)}
    (h : ∀ m ∈ ms, IsValue (Utf8.encode m.2)) : ∀ m ∈ bytesOf ms, IsValue m.2 := by
  intro m hm
  obtain ⟨n, hn, rfl⟩ := List.mem_map.mp hm
  exact h n hn

theorem isValue_objectChars {ms : List (String × List Char)}
    (h : ∀ m ∈ ms, IsValue (Utf8.encode m.2)) : IsValue (Utf8.encode (Json.objectChars ms)) := by
  obtain ⟨s, text, members⟩ := Json.exists_namedObject ms
  rw [text]
  exact members.isValue (isValue_bytesOf h)

theorem isValue_sampleCode : ∀ m ∈ sampleCode, IsValue (Utf8.encode m.2) := by
  rw [sampleCode, List.forall_mem_cons, List.forall_mem_cons]
  exact ⟨isValue_of_scanNumber (v := [0x37]) rfl, Json.isValue_textChars _, by simp⟩

theorem isValue_sampleMembers {code : List Char} (h : IsValue (Utf8.encode code)) :
    ∀ m ∈ sampleMembers code, IsValue (Utf8.encode m.2) := by
  have time : IsValue (Utf8.encode ['1', '.', '5']) :=
    isValue_of_scanNumber (v := [0x31, 0x2e, 0x35]) rfl
  simp only [sampleMembers, List.forall_mem_cons]
  exact ⟨Json.isValue_textChars _, h, Json.isValue_textChars _, Json.isValue_textChars _,
    Json.isValue_textChars _, Json.isValue_textChars _, time, by simp⟩

theorem decode_sample : decode (Utf8.encode (Json.objectChars
    (sampleMembers (Json.objectChars sampleCode)))) = .ok sample := by decide +kernel

/-- The code of the sample as a list. -/
theorem exists_sampleCode_list : ∃ t,
    Utf8.encode (Json.listChars Prod.snd sampleCode) = 0x5b :: t ∧
      Json.ListText (sampleCode.map fun m => Utf8.encode m.2) t := by
  have items : Json.Items (fun (m : String × List Char) t => Utf8.encode m.2 = t) 0x5d true
      sampleCode _ := Json.items_commaSeparated fun _ _ => rfl
  exact ⟨_, rfl, items.map⟩

theorem isValue_sampleShuffled : ∀ m ∈ bytesOf sampleShuffled, IsValue m.2 := by
  obtain ⟨t, text, items⟩ := exists_sampleCode_list
  have listed : IsValue (Utf8.encode (Json.listChars Prod.snd sampleCode)) :=
    text ▸ .list items (List.forall_mem_map.mpr isValue_sampleCode)
  have nine : ∀ m ∈ [("severity", ['9'])], IsValue (Utf8.encode m.2) :=
    List.forall_mem_cons.mpr ⟨isValue_of_scanNumber (v := [0x39]) rfl, by simp⟩
  refine isValue_bytesOf (List.forall_mem_cons.mpr ⟨isValue_objectChars nine, fun m hm => ?_⟩)
  exact isValue_sampleMembers listed m (List.mem_reverse.mp hm)

/-- The fields have the same texts in the second layout as in the first. -/
theorem text_sampleShuffled
    (plain : ∀ f, shape.membersOf f (bytesOf (sampleMembers (Json.objectChars sampleCode))) =
      [(shape.label f, values f)])
    (inner : ∀ f, AlertCode.shape.membersOf f (bytesOf sampleCode) =
      [(AlertCode.shape.label f, code f)]) :
    Text values code (Utf8.encode (Json.objectChars sampleShuffled)) := by
  obtain ⟨s, text, members⟩ := Json.exists_namedObject sampleShuffled
  obtain ⟨t, listText, items⟩ := exists_sampleCode_list
  have number : code .number = Utf8.encode ['7'] := by
    simpa [bytesOf, sampleCode, AlertCode.shape, RecordShape.membersOf] using (inner .number).symm
  have name : code .name = Utf8.encode (Json.textChars "MissedBlocks") := by
    simpa [bytesOf, sampleCode, AlertCode.shape, RecordShape.membersOf] using (inner .name).symm
  have fields : AlertCode.shape.fields.map code = sampleCode.map fun m => Utf8.encode m.2 := by
    simp [AlertCode.shape, sampleCode, number, name]
  have wellFormed : ∀ f, IsValue (code f) := by
    intro f
    cases f with
    | number => exact number ▸ isValue_of_scanNumber (v := [0x37]) rfl
    | name => exact name ▸ Json.isValue_textChars _
  have once (f : Alert.Field) : shape.membersOf f (bytesOf sampleShuffled) =
      [(shape.label f, textsWithCode values (0x5b :: t) f)] := by
    have there := plain f
    rw [← listText]
    cases f with
    | code => rfl
    | severity | origin | parent | message | metric | timestamp => exact there
  have listed : IsValue (0x5b :: t) := .list items (List.forall_mem_map.mpr isValue_sampleCode)
  rw [text]
  exact ⟨_, listed, .list (fields ▸ items) wellFormed,
    .object members once fun m hm _ => isValue_sampleShuffled m hm⟩

/-- The sample is accepted in its second layout, and refused without its metric and with each field
of its code twice. -/
theorem decode_ignores_layout_sample :
    decode (Utf8.encode (Json.objectChars sampleShuffled)) = .ok sample ∧
    (∃ e, decode (Utf8.encode (Json.objectChars
      ((sampleMembers (Json.objectChars sampleCode)).filter (·.1 != "metric")))) = .error e) ∧
    (∃ e, decode (Utf8.encode (Json.objectChars
      (sampleMembers (Json.objectChars (sampleCode ++ sampleCode))))) = .error e) := by
  obtain ⟨agree, count, codeCount⟩ := decode_ignores_layout
  have isMember := isValue_sampleMembers (isValue_objectChars isValue_sampleCode)
  refine ⟨?_, ?_, ?_⟩
  · obtain ⟨s, text, members⟩ :=
      Json.exists_namedObject (sampleMembers (Json.objectChars sampleCode))
    obtain ⟨t, codeText, codeMembers⟩ := Json.exists_namedObject sampleCode
    have decoded := decode_sample
    rw [text] at decoded
    obtain ⟨values, code, plain, inner, same⟩ := @agree _ _ _ _ [] [] _ members
      (isValue_bytesOf isMember) (by rw [← codeText]; simp [sampleMembers, shape]) codeMembers
      (isValue_bytesOf isValue_sampleCode) Json.blank_nil (by simpa using decoded)
    simpa using same (text_sampleShuffled plain inner) Json.blank_nil Json.blank_nil
  · obtain ⟨s, text, members⟩ := Json.exists_namedObject
      ((sampleMembers (Json.objectChars sampleCode)).filter (·.1 != "metric"))
    obtain ⟨e, refused⟩ := @count _ _ [] [] .metric members
      (isValue_bytesOf fun m hm => isMember m (List.mem_of_mem_filter hm)) Json.blank_nil
      (by simp [sampleMembers, shape, RecordShape.membersOf])
    exact ⟨e, by rw [text]; simpa using refused⟩
  · obtain ⟨s, text, members⟩ :=
      Json.exists_namedObject (sampleMembers (Json.objectChars (sampleCode ++ sampleCode)))
    obtain ⟨t, codeText, codeMembers⟩ := Json.exists_namedObject (sampleCode ++ sampleCode)
    have twice : ∀ m ∈ sampleCode ++ sampleCode, IsValue (Utf8.encode m.2) :=
      List.forall_mem_append.mpr ⟨isValue_sampleCode, isValue_sampleCode⟩
    obtain ⟨e, refused⟩ := @codeCount _ _ _ _ [] [] .name members
      (isValue_bytesOf (isValue_sampleMembers (isValue_objectChars twice)))
      (by rw [← codeText]; simp [sampleMembers, shape]) codeMembers (isValue_bytesOf twice)
      Json.blank_nil (by simp [sampleCode, AlertCode.shape, RecordShape.membersOf])
    exact ⟨e, by rw [text]; simpa using refused⟩

end Sample

end Alert

end AlertLedger
