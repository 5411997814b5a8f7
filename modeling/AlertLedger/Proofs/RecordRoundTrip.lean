import AlertLedger.Heartbeat
import AlertLedger.HistoryPage
import AlertLedger.Proofs.AlertLayouts

namespace AlertLedger

/-- Reading the text of a double gives the double back and uses all of the text. Not every finite
double has this: the reader rounds more than once. -/
def Binary64.ReadsBack (x : Binary64) : Prop :=
  Json.real.run (Utf8.encode (Json.realChars x)) = .ok (x, [])

namespace Json

section Numbers

variable {s b r : Bytes}

theorem takes_blank_append {reader : Reader α} {v : Bytes} {a : α} (hb : Blank b)
    (h : reader.Takes v a) : reader.Takes (b ++ v) a := by
  intro b' r hb' stop
  simpa using h (b' ++ b) r (hb'.append hb) stop

theorem isNumber_of_readNumber {negative : Bool} {c : UInt8} {t : Bytes} {v : JsonNumber}
    (sign : negative = (c == 0x2d))
    (h : readNumber negative (if c = 0x2d then t else c :: t) = .ok (v, [])) :
    IsNumber (c :: t) := by
  unfold readNumber at h
  split at h
  · simp at h
  next n q scan =>
    have rest : q = [] := by
      split at h
      · simp at h
      · exact (Prod.mk.inj (Except.ok.inj h)).2
    subst rest
    obtain ⟨u, form, hu⟩ := exists_isUnsigned_of_scanNumber scan
    rw [List.append_nil] at hu
    split at hu
    next minus =>
      subst minus hu
      exact .minus form
    next =>
      subst hu
      exact .unsigned form

/-- A number that a numeric reader takes up to the end of a text it takes everywhere. -/
theorem numeric_takes {reader : Reader α} {wanted : WantedValue}
    {accept : JsonNumber → Except FaultCause α} {a : α}
    (run : reader.run = atValue (readNumeric wanted accept)) (h : reader.run s = .ok (a, [])) :
    reader.Takes s a := by
  have whole := h
  rw [run] at h
  unfold atValue at h
  split at h
  · simp at h
  next c t ht =>
    obtain ⟨b, blank, rfl⟩ := exists_blank_of_skipBlank ht
    unfold readNumeric at h
    split at h
    next first =>
      split at h
      · simp at h
      next v q hv =>
        have rest : q = [] := by
          split at h
          · exact (Prod.mk.inj (Except.ok.inj h)).2
          · simp at h
        subst rest
        have value := IsValue.number (isNumber_of_readNumber rfl hv)
        rw [← List.append_nil (c :: t)] at whole
        exact takes_blank_append blank (numeric_exact run value blank endsNumber_nil whole)
    next => simp at h

theorem real_takes {x : Binary64} (h : x.ReadsBack) :
    real.Takes (Utf8.encode (realChars x)) x :=
  numeric_takes rfl h

section Signed

variable {reader : Reader α} {wanted : WantedValue} {accept : JsonNumber → Except FaultCause α}
  {a : α} {u : Bytes} {n : NumberText} {v : JsonNumber}

/-- A number with its sign, where its value is known. -/
theorem signed_takes (run : reader.run = atValue (readNumeric wanted accept))
    (form : IsUnsigned u n) (negative : Bool) (value : ∀ r, n.value negative r = .ok v)
    (accepted : accept v = .ok a) :
    reader.Takes ((if negative then [0x2d] else []) ++ u) a := by
  have read {r : Bytes} (stop : EndsNumber r) : readNumber negative (u ++ r) = .ok (v, r) := by
    rw [readNumber, form.scan stop]
    simp only [value]
  cases negative with
  | true =>
    refine takes_of_read run (by decide) fun r stop => ?_
    simp [readNumeric, read stop, accepted]
  | false =>
    obtain ⟨c, t, rfl, first⟩ := form.exists_cons
    have minus : c ≠ 0x2d := ne_of_isDigit first (by decide)
    have sign : (c == 0x2d) = false := by simpa using minus
    refine takes_of_read run (isBlank_of_isDigit first) fun r stop => ?_
    have here := read stop
    rw [List.cons_append] at here
    simp [readNumeric, minus, sign, first, here, accepted]

end Signed

theorem signed64_takes (i : Int64) : signed64.Takes (Utf8.encode (intChars i.toInt)) i := by
  have lower := i.le_toInt
  have upper := i.toInt_lt
  have bound : ((Nat.pow 2 63 : Nat) : Int) = 2 ^ 63 := rfl
  have room : Nat.pow 2 63 < Nat.pow 2 64 := by decide
  have accepted : acceptSigned64 (.integer i.toInt) = .ok i := by
    rw [acceptSigned64, if_pos (by rw [bound]; exact ⟨lower, upper⟩), Int64.ofInt_toInt]
  have signed : (if decide (i.toInt < 0) then -(i.toInt.natAbs : Int) else i.toInt.natAbs) =
      i.toInt := by
    simp only [decide_eq_true_eq]
    split <;> omega
  have below (minus : decide (i.toInt < 0) = true) :
      0 < i.toInt.natAbs ∧ i.toInt.natAbs ≤ Nat.pow 2 63 := by
    have negative := of_decide_eq_true minus
    omega
  have value := NumberText.value_whole (foldl_digitsOf_toDigits i.toInt.natAbs) (by omega) below
  rw [signed] at value
  rw [encode_intChars]
  exact signed_takes rfl (isUnsigned_toDigits _) _ value accepted

theorem unsigned32_takes (n : UInt32) :
    unsigned32.Takes (Utf8.encode (Nat.toDigits 10 n.toNat)) n := by
  have small := n.toNat_lt
  have bound : ((Nat.pow 2 32 : Nat) : Int) = 2 ^ 32 := rfl
  have value := NumberText.value_whole (foldl_digitsOf_toDigits n.toNat)
    (Nat.lt_trans small (by decide)) (fun below => absurd below Bool.false_ne_true)
  refine signed_takes rfl (isUnsigned_toDigits _) false value ?_
  rw [acceptUnsigned32, if_neg Bool.false_ne_true, if_pos (by rw [bound]; omega)]
  simp

theorem flag_takes (v : Bool) : flag.Takes (Utf8.encode (flagChars v)) v := by
  cases v with
  | true =>
    have word := readWord_append (ascii "rue")
    exact takes_of_read (c := 0x74) (t := ascii "rue") rfl (by decide) fun r _ => by
      simp [readFlag, word, Except.map]
  | false =>
    have word := readWord_append (ascii "alse")
    exact takes_of_read (c := 0x66) (t := ascii "alse") rfl (by decide) fun r _ => by
      simp [readFlag, word, Except.map]

theorem text_takes_textChars (s : String) : text.Takes (Utf8.encode (textChars s)) s := by
  obtain ⟨t, spells, ht⟩ := exists_spells_textChars s
  rw [ht]
  exact text_takes spells

end Numbers

section Reading

variable {item : Reader α} {text : α → Bytes} {as : List α} {s : Bytes}

theorem readMoreItems_of_items (h : Items (fun a t => t = text a) 0x5d false as s)
    (taken : ∀ a ∈ as, item.Takes (text a) a)
    (start : ∀ a ∈ as, ∃ c t, text a = c :: t ∧ isBlank c = false ∧ c ≠ 0x5d)
    (done : List α) (r : Bytes) :
    readMoreItems item done (s ++ r) = .ok (done.reverse ++ as, r) := by
  induction as generalizing s done with
  | nil =>
    obtain ⟨blank⟩ := h
    have close := blank.skip_cons (c := 0x5d) (by decide) r
    rw [List.append_assoc, List.singleton_append, readMoreItems.eq_def]
    split
    next hb => simp [close] at hb
    next hb =>
      rw [close] at hb
      cases hb
      simp
  | cons a as ih =>
    cases h with
    | @next b b' _ s _ _ blank blank' here rest =>
    subst here
    obtain ⟨c, t, hc, hblank, bracket⟩ := start a (by simp)
    have comma := blank.skip_cons (c := 0x2c) (by decide) (b' ++ (text a ++ (s ++ r)))
    have first : skipBlank (b' ++ (text a ++ (s ++ r))) = c :: (t ++ (s ++ r)) := by
      rw [hc, List.cons_append, blank'.skip_cons hblank]
    have run := taken a (by simp) b' (s ++ r) blank' (rest.endsNumber (.inl rfl) r)
    have next := ih rest (fun a' h => taken a' (by simp [h])) (fun a' h => start a' (by simp [h]))
      (a :: done)
    simp only [List.append_assoc, List.cons_append]
    rw [readMoreItems.eq_def]
    grind

theorem list_takes (h : Items (fun a t => t = text a) 0x5d true as s)
    (taken : ∀ a ∈ as, item.Takes (text a) a)
    (start : ∀ a ∈ as, ∃ c t, text a = c :: t ∧ isBlank c = false ∧ c ≠ 0x5d) :
    (list item).Takes (0x5b :: s) as := by
  refine takes_of_read rfl (by decide) fun r _ => ?_
  rw [readList, if_pos rfl]
  cases h with
  | close blank =>
    rw [List.append_assoc, List.singleton_append, blank.skip_cons (by decide)]
    rfl
  | @first b _ s a as blank here rest =>
    subst here
    obtain ⟨c, t, hc, hblank, bracket⟩ := start a (by simp)
    have first : skipBlank (b ++ (text a ++ s) ++ r) = c :: (t ++ (s ++ r)) := by
      simp only [hc, List.append_assoc, List.cons_append, blank.skip_cons hblank]
    have run := taken a (by simp) [] (s ++ r) blank_nil (rest.endsNumber (.inl rfl) r)
    rw [hc, List.nil_append, List.cons_append] at run
    have more := readMoreItems_of_items rest (fun a' h => taken a' (by simp [h]))
      (fun a' h => start a' (by simp [h])) [a] r
    rw [first]
    simp [bracket, run, more]

theorem listChars_takes {cs : α → List Char}
    (taken : ∀ a ∈ as, item.Takes (Utf8.encode (cs a)) a)
    (start : ∀ a ∈ as, ∃ c t, Utf8.encode (cs a) = c :: t ∧ isBlank c = false ∧ c ≠ 0x5d) :
    (list item).Takes (Utf8.encode (listChars cs as)) as := by
  have brackets : Utf8.encodeChar '[' = [0x5b] ∧ Utf8.encode [']'] = [0x5d] := by decide
  have items : Items (fun a t => t = Utf8.encode (cs a)) 0x5d true as _ :=
    items_commaSeparated fun _ _ => rfl
  rw [listChars, List.cons_append, Utf8.encode_cons, Utf8.encode_append, brackets.1, brackets.2]
  exact list_takes items taken start

end Reading

section Records

variable {S : RecordShape α} {a : α}

theorem recordChars_eq (S : RecordShape α) (a : α) :
    recordChars S a = objectChars (S.fields.map fun f => (S.label f, S.write f (S.get a f))) := by
  rw [recordChars, objectChars, List.map_map]
  rfl

/-- The members that are written for a record. -/
def writtenMembers (S : RecordShape α) (a : α) : List (String × Bytes) :=
  S.fields.map fun f => (S.label f, Utf8.encode (S.write f (S.get a f)))

theorem exists_object_recordChars (S : RecordShape α) (a : α) :
    ∃ s, Utf8.encode (recordChars S a) = 0x7b :: s ∧ NamedObject (writtenMembers S a) s := by
  obtain ⟨s, text, members⟩ :=
    exists_namedObject (S.fields.map fun f => (S.label f, S.write f (S.get a f)))
  rw [List.map_map] at members
  exact ⟨s, by rw [recordChars_eq, text], members⟩

theorem membersOf_writtenMembers (labelled : S.Labelled) (a : α) (f : S.Field) :
    S.membersOf f (writtenMembers S a) =
      [(S.label f, Utf8.encode (S.write f (S.get a f)))] := by
  rw [RecordShape.membersOf, writtenMembers, List.filter_map]
  exact congrArg (List.map _) (labelled f)

/-- No member is written but the fields. -/
theorem not_mem_writtenMembers {m : String × Bytes} (unknown : ∀ f, S.label f ≠ m.1) :
    m ∉ writtenMembers S a := by
  intro hm
  obtain ⟨f, _, rfl⟩ := List.mem_map.mp hm
  exact unknown f rfl

theorem settles_writtenMembers (labelled : S.Labelled) {x : (f : S.Field) → S.Value f}
    (taken : ∀ f, (S.read f).Takes (Utf8.encode (S.write f (S.get a f))) (x f)) :
    S.Settles S.emptySlots (writtenMembers S a) fun f => some (x f) :=
  RecordShape.settles_of_once labelled taken
    (fun _ hm unknown => absurd hm (not_mem_writtenMembers unknown))
    fun f => .inr ⟨rfl, membersOf_writtenMembers labelled a f⟩

/-- A record is read from what is written for another one, as the record of what its fields are
read as, up to its brace. -/
theorem run_recordChars (labelled : S.Labelled) {x : (f : S.Field) → S.Value f}
    (taken : ∀ f, (S.read f).Takes (Utf8.encode (S.write f (S.get a f))) (x f)) {b : Bytes}
    (blank : Blank b) (r : Bytes) :
    (record S).run (b ++ (Utf8.encode (recordChars S a) ++ r)) = .ok (S.build x, r) := by
  obtain ⟨s, text, raws, object, named⟩ := exists_object_recordChars S a
  rw [text, List.cons_append, run_record blank (by decide)]
  exact readRecord_object object named (settles_writtenMembers labelled taken)
    (RecordShape.ofSlots_full x) r

theorem record_takes_build (labelled : S.Labelled) {x : (f : S.Field) → S.Value f}
    (taken : ∀ f, (S.read f).Takes (Utf8.encode (S.write f (S.get a f))) (x f)) :
    (record S).Takes (Utf8.encode (recordChars S a)) (S.build x) :=
  fun _ r blank _ => run_recordChars labelled taken blank r

/-- A record is read back from what is written for it when each of its fields is. -/
theorem record_takes (labelled : S.Labelled) (rebuilt : S.build (S.get a) = a)
    (taken : ∀ f, (S.read f).Takes (Utf8.encode (S.write f (S.get a f))) (S.get a f)) :
    (record S).Takes (Utf8.encode (recordChars S a)) a := by
  have written := record_takes_build labelled taken
  rwa [rebuilt] at written

end Records

end Json

theorem Heartbeat.labelled : Heartbeat.shape.Labelled := by
  intro f
  cases f <;> rfl

theorem Summary.labelled : Summary.shape.Labelled := by
  intro f
  cases f <;> rfl

theorem Page.labelled : Page.shape.Labelled := by
  intro f
  cases f <;> rfl

theorem Severity.takes (s : Severity) : Severity.reader.Takes (Utf8.encode s.chars) s := by
  obtain ⟨t, spells, ht⟩ := Json.exists_spells_textChars s.name
  rw [chars, ht]
  exact Json.variant_takes spells (by cases s <;> rfl)

theorem AlertCode.takes (c : AlertCode) : (Json.record AlertCode.shape).Takes
    (Utf8.encode (Json.recordChars AlertCode.shape c)) c := by
  refine Json.record_takes AlertCode.labelled rfl fun f => ?_
  cases f with
  | number => exact Json.signed64_takes c.number
  | name => exact Json.text_takes_textChars c.name

theorem Alert.takes {a : Alert} (time : a.timestamp.ReadsBack) : (Json.record Alert.shape).Takes
    (Utf8.encode (Json.recordChars Alert.shape a)) a := by
  refine Json.record_takes Alert.labelled rfl fun f => ?_
  cases f with
  | severity => exact a.severity.takes
  | code => exact a.code.takes
  | origin | parent | message | metric => exact Json.text_takes_textChars _
  | timestamp => exact Json.real_takes time

theorem Heartbeat.takes {h : Heartbeat} (time : h.timestamp.ReadsBack) :
    (Json.record Heartbeat.shape).Takes (Utf8.encode (Json.recordChars Heartbeat.shape h)) h := by
  refine Json.record_takes Heartbeat.labelled rfl fun f => ?_
  cases f with
  | component => exact Json.text_takes_textChars h.component
  | alive => exact Json.flag_takes h.alive
  | timestamp => exact Json.real_takes time

theorem Summary.takes (s : Summary) : (Json.record Summary.shape).Takes
    (Utf8.encode (Json.recordChars Summary.shape s)) s := by
  refine Json.record_takes Summary.labelled rfl fun f => ?_
  cases f with
  | origin | name | severity | message | metric | timestamp => exact Json.text_takes_textChars _

theorem Page.takes {p : Page} (first : p.first.ReadsBack) (last : p.last.ReadsBack) :
    (Json.record Page.shape).Takes (Utf8.encode (Json.recordChars Page.shape p)) p := by
  refine Json.record_takes Page.labelled rfl fun f => ?_
  cases f with
  | kind => exact Json.text_takes_textChars p.kind
  | count => exact Json.unsigned32_takes p.count
  | alerts =>
    refine Json.listChars_takes (fun s _ => s.takes) fun s _ => ?_
    obtain ⟨t, text, _⟩ := Json.exists_namedObject _
    exact ⟨0x7b, t, Json.recordChars_eq Summary.shape s ▸ text, by decide, by decide⟩
  | first => exact Json.real_takes first
  | last => exact Json.real_takes last

/-- The text of a whole record without blanks around it. -/
theorem Json.decode_of_takes_text {reader : Reader α} {a : α} {cs : List Char}
    (h : reader.Takes (Utf8.encode cs) a) :
    Json.decode reader (Utf8.encode (String.ofList cs).toList) = .ok a := by
  rw [String.toList_ofList]
  simpa using Json.decode_of_takes h Json.blank_nil Json.blank_nil

/-- What is written for a record of any type is read back as this record, whatever its strings,
its numbers and the length of its list, as far as the texts of its doubles are. -/
theorem decoding_undoes_encoding :
    (∀ a : Alert, a.timestamp.ReadsBack → Alert.decode (Utf8.encode a.toJson.toList) = .ok a) ∧
    (∀ h : Heartbeat, h.timestamp.ReadsBack →
      Json.decode (Json.record Heartbeat.shape) (Utf8.encode h.toJson.toList) = .ok h) ∧
    (∀ s : Summary,
      Json.decode (Json.record Summary.shape) (Utf8.encode s.toJson.toList) = .ok s) ∧
    (∀ p : Page, p.first.ReadsBack → p.last.ReadsBack →
      Json.decode (Json.record Page.shape) (Utf8.encode p.toJson.toList) = .ok p) ∧
    (∀ s : Severity, Json.decode Severity.reader (Utf8.encode s.toJson.toList) = .ok s) := by
  refine ⟨?_, ?_, ?_, ?_, ?_⟩
  · intro a time
    exact Json.decode_of_takes_text (Alert.takes time)
  · intro h time
    exact Json.decode_of_takes_text (Heartbeat.takes time)
  · intro s
    exact Json.decode_of_takes_text s.takes
  · intro p first last
    exact Json.decode_of_takes_text (Page.takes first last)
  · intro s
    exact Json.decode_of_takes_text s.takes

/-- A text with a quote, a backslash, control characters and characters of each length. -/
def awkwardText : String := "\"\\\n\t\x00\x1f\x7f é € 🚨"

def awkwardAlert : Alert where
  severity := .internal
  code := ⟨-9223372036854775808, awkwardText⟩
  origin := awkwardText
  parent := ""
  message := awkwardText
  metric := "cpu"
  timestamp := .ofBits 0x3ff8000000000000

def awkwardPage : Page where
  kind := awkwardText
  count := 4294967295
  alerts := [Summary.ofAlert awkwardAlert, Summary.ofAlert awkwardAlert]
  first := .ofBits 0x8000000000000000
  last := .ofBits 0x41d9548c38c00000

theorem decoding_undoes_encoding_of_awkward_texts :
    Alert.decode (Utf8.encode awkwardAlert.toJson.toList) = .ok awkwardAlert ∧
    Json.decode (Json.record Heartbeat.shape) (Utf8.encode
      (Heartbeat.ofComponent awkwardText awkwardAlert.timestamp).toJson.toList) =
        .ok (Heartbeat.ofComponent awkwardText awkwardAlert.timestamp) ∧
    Json.decode (Json.record Page.shape) (Utf8.encode awkwardPage.toJson.toList) =
      .ok awkwardPage := by
  obtain ⟨alert, heartbeat, _, page, _⟩ := decoding_undoes_encoding
  have half : (Binary64.ofBits 0x3ff8000000000000).ReadsBack := by
    unfold Binary64.ReadsBack
    decide +kernel
  have minusZero : (Binary64.ofBits 0x8000000000000000).ReadsBack := by
    unfold Binary64.ReadsBack
    decide +kernel
  have late : (Binary64.ofBits 0x41d9548c38c00000).ReadsBack := by
    unfold Binary64.ReadsBack
    decide +kernel
  exact ⟨alert _ half, heartbeat _ half, page _ minusZero late⟩

end AlertLedger
