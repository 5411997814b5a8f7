import AlertLedger.Intake
import AlertLedger.Proofs.CutTexts
import AlertLedger.Proofs.RecordRoundTrip

namespace AlertLedger

namespace Json

section Members

variable {S : RecordShape α} {first : Bool} {slots out : S.Slots} {p s t r q u b k k' : Bytes}
  {raws : List (Bytes × Bytes)} {ms : List (String × Bytes)}

theorem readMembers_unkeyed {f : Fault} (h : nextKey first s = .error f) :
    readMembers S first slots s = .error (.placed f) := by
  rw [readMembers.eq_def]
  grind

theorem readMembers_uncoloned {name : String} {f : S.Field} {e : Fault}
    (h : nextKey first s = .ok (.key t)) (key : readText t = .ok (name, r))
    (known : S.fieldLabelled? name = some f) (free : slots f = none)
    (colon : readColon r = .error e) : readMembers S first slots s = .error (.placed e) := by
  rw [readMembers.eq_def]
  grind

/-- A refusal of the members because their text ends. -/
def MembersEnd (result : Except RecordFault (S.Slots × Bytes)) : Prop :=
  ∃ f, result = .error (.placed f) ∧ f.cause.category = .eof

theorem membersEnd_of_blank (blank : Blank p) : MembersEnd (readMembers S first slots p) := by
  refine ⟨.ahead .objectNotClosed [], readMembers_unkeyed ?_, rfl⟩
  rw [nextKey, blank.skip_all]

theorem EndsNumber.of_cutOff (h : EndsNumber s) (cut : CutOff p s) : EndsNumber p := by
  obtain ⟨q, _, rfl⟩ := cut
  cases p with
  | nil => exact endsNumber_nil
  | cons c p => exact h

/-- The cut falls into a member, which is refused for its end, or behind it. -/
theorem membersEnd_of_key {m : Bytes × Bytes} {n : String × Bytes}
    (h : nextKey first s = .ok (.key p)) (hk : Blank k) (hk' : Blank k') (named : Named m n)
    (stop : EndsNumber u) (settles : S.Settles slots (n :: ms) out)
    (meets : ∃ f, S.fieldLabelled? n.1 = some f ∧ (S.read f).MeetsEnd n.2)
    (cut : CutOff p (m.1 ++ [0x22] ++ (k ++ 0x3a :: (k' ++ m.2 ++ u))))
    (later : ∀ slots' r, CutOff r u → S.Settles slots' ms out →
      MembersEnd (readMembers S false slots' r)) : MembersEnd (readMembers S first slots s) := by
  have whole := settles
  obtain ⟨name, v⟩ := n
  obtain ⟨spells, rfl⟩ : Spells m.1 name ∧ m.2 = v := named
  obtain ⟨f, known, meets⟩ := meets
  cases settles with
  | other unknown _ _ =>
    rw [known] at unknown
    cases unknown
  | @field _ _ _ _ _ g x known' free taken rest =>
  obtain rfl : f = g := Option.some.inj (known.symm.trans known')
  have uncoloned {q : Bytes} (key : readText p = .ok (name, q)) (blank : Blank q) :
      MembersEnd (readMembers S first slots s) := by
    refine ⟨.ahead .objectNotClosed [], readMembers_uncoloned h key known free ?_, rfl⟩
    rw [readColon, blank.skip_all]
  obtain inside | ⟨q, rfl, cut₁⟩ := cut.append
  · exact ⟨_, readMembers_unreadable h (spells.readText_cutOff inside), rfl⟩
  have key : readText (m.1 ++ [0x22] ++ q) = .ok (name, q) := by simpa using spells.read q
  obtain inside | ⟨q₁, rfl, cut₂⟩ := cut₁.append
  · exact uncoloned key (hk.of_cutOff inside)
  obtain rfl | ⟨q₂, rfl, cut₃⟩ := cut₂.cons
  · exact uncoloned key (by simpa using hk)
  have field := readMembers_field h key known free (readColon_append hk q₂)
  obtain inside | ⟨r, rfl, behind⟩ := cut₃.append
  · obtain ⟨e, run, ends⟩ | ⟨y, run⟩ := meets k' q₂ hk' inside
    · exact ⟨e, by rw [field, run], ends⟩
    · rw [run] at field
      exact field ▸ membersEnd_of_blank blank_nil
  · obtain ⟨slots', settled, step⟩ := readMembers_step (m := m) (u := r) (by simpa using h) hk hk'
      ⟨spells, rfl⟩ (stop.of_cutOff behind) whole
    exact step ▸ later slots' r behind settled

theorem memberText_append (x k k' v u : Bytes) :
    0x22 :: (x ++ 0x22 :: (k ++ 0x3a :: (k' ++ v))) ++ u =
      0x22 :: (x ++ [0x22] ++ (k ++ 0x3a :: (k' ++ v ++ u))) := by
  simp

/-- The members of an object whose text is cut, all of them fields of a record. -/
theorem readMembers_of_cutOff (h : Items MemberText 0x7d first raws s)
    (named : List.Forall₂ Named raws ms) (settles : S.Settles slots ms out)
    (meets : ∀ m ∈ ms, ∃ f, S.fieldLabelled? m.1 = some f ∧ (S.read f).MeetsEnd m.2)
    (cut : CutOff p s) : MembersEnd (readMembers S first slots p) := by
  induction h generalizing ms slots p with
  | @close _ b blank =>
    obtain inside | ⟨q, rfl, behind⟩ := cut.append
    · exact membersEnd_of_blank (blank.of_cutOff inside)
    obtain rfl | ⟨_, rfl, beyond⟩ := behind.cons
    · exact membersEnd_of_blank (by simpa using blank)
    · exact absurd beyond CutOff.not_nil
  | @first b t u m raws blank text rest ih =>
    obtain ⟨k, k', hk, hk', rfl⟩ := text
    rw [memberText_append] at cut
    obtain inside | ⟨q, rfl, behind⟩ := cut.append
    · exact membersEnd_of_blank (blank.of_cutOff inside)
    obtain rfl | ⟨q, rfl, member⟩ := behind.cons
    · exact membersEnd_of_blank (by simpa using blank)
    have key : nextKey true (b ++ 0x22 :: q) = .ok (.key q) := by
      rw [nextKey, blank.skip_cons (by decide)]
      rfl
    obtain _ | ⟨here, others⟩ := named
    have stop : EndsNumber u := by simpa using rest.endsNumber (.inr rfl) []
    exact membersEnd_of_key key hk hk' here stop settles (meets _ (by simp)) member
      fun slots' r behind settled => ih others settled (fun m hm => meets m (by simp [hm])) behind
  | @next b b' t u m raws blank blank' text rest ih =>
    obtain ⟨k, k', hk, hk', rfl⟩ := text
    rw [memberText_append] at cut
    obtain inside | ⟨_, rfl, behind⟩ := cut.append
    · exact membersEnd_of_blank (blank.of_cutOff inside)
    obtain rfl | ⟨_, rfl, comma⟩ := behind.cons
    · exact membersEnd_of_blank (by simpa using blank)
    have bare {q : Bytes} (nothing : Blank q) :
        MembersEnd (readMembers S false slots (b ++ 0x2c :: q)) := by
      refine ⟨.ahead .valueMissing [], readMembers_unkeyed ?_, rfl⟩
      rw [nextKey, blank.skip_cons (by decide)]
      simp [nothing.skip_all]
    obtain inside | ⟨_, rfl, quote⟩ := comma.append
    · exact bare (blank'.of_cutOff inside)
    obtain rfl | ⟨q, rfl, member⟩ := quote.cons
    · exact bare (by simpa using blank')
    have key : nextKey false (b ++ 0x2c :: (b' ++ 0x22 :: q)) = .ok (.key q) := by
      rw [nextKey, blank.skip_cons (by decide)]
      simp [blank'.skip_cons (c := 0x22) (by decide)]
    obtain _ | ⟨here, others⟩ := named
    have stop : EndsNumber u := by simpa using rest.endsNumber (.inr rfl) []
    exact membersEnd_of_key key hk hk' here stop settles (meets _ (by simp)) member
      fun slots' r behind settled => ih others settled (fun m hm => meets m (by simp [hm])) behind

end Members

section Records

variable {S : RecordShape α} {a : α} {x : (f : S.Field) → S.Value f}

/-- The text of a record has its brace at its end only. -/
theorem recordChars_missesEnd (labelled : S.Labelled)
    (taken : ∀ f, (S.read f).Takes (Utf8.encode (S.write f (S.get a f))) (x f))
    (meets : ∀ f, (S.read f).MeetsEnd (Utf8.encode (S.write f (S.get a f)))) :
    (record S).MissesEnd (Utf8.encode (recordChars S a)) := by
  obtain ⟨s, text, raws, object, named⟩ := exists_object_recordChars S a
  have fields : ∀ m ∈ writtenMembers S a,
      ∃ f, S.fieldLabelled? m.1 = some f ∧ (S.read f).MeetsEnd m.2 := by
    intro m hm
    obtain ⟨f, _, rfl⟩ := List.mem_map.mp hm
    exact ⟨f, labelled.fieldLabelled? f, meets f⟩
  rw [text]
  refine missesEnd_of_read rfl (by decide) fun q cut => ?_
  obtain ⟨f, members, ends⟩ :=
    readMembers_of_cutOff object named (settles_writtenMembers labelled taken) fields cut
  refine ⟨f, ?_, ends⟩
  simp [readRecord, members, finishRecord]

/-- The values of a record whose text is accepted are those of the texts of its fields. -/
theorem exists_taken_of_decode (labelled : S.Labelled) (exact : ∀ f, (S.read f).Exact)
    (isValue : ∀ f, IsValue (Utf8.encode (S.write f (S.get a f)))) {a' : α}
    (accepted : decode (record S) (Utf8.encode (recordChars S a)) = .ok a') :
    ∃ x, a' = S.build x ∧
      ∀ f, (S.read f).Takes (Utf8.encode (S.write f (S.get a f))) (x f) := by
  obtain ⟨q, run⟩ := run_of_decode accepted
  obtain ⟨s, text, members⟩ := exists_object_recordChars S a
  have layout : S.Text (fun f => Utf8.encode (S.write f (S.get a f)))
      (Utf8.encode (recordChars S a)) := by
    rw [text]
    exact .object members (membersOf_writtenMembers labelled a)
      fun _ hm unknown => absurd hm (not_mem_writtenMembers unknown)
  exact layout.exists_taken (r := []) (q := q) labelled exact isValue blank_nil (by simpa using run)

theorem isValue_recordChars (h : ∀ f, IsValue (Utf8.encode (S.write f (S.get a f)))) :
    IsValue (Utf8.encode (recordChars S a)) := by
  obtain ⟨s, text, members⟩ := exists_object_recordChars S a
  rw [text]
  refine members.isValue fun m hm => ?_
  obtain ⟨f, _, rfl⟩ := List.mem_map.mp hm
  exact h f

end Records

section Numbers

theorem isValue_signed {u : Bytes} {n : NumberText} (form : IsUnsigned u n) (s : Bool) :
    IsValue ((if s then [0x2d] else []) ++ u) := by
  cases s with
  | false => exact .number (.unsigned form)
  | true => exact .number (.minus form)

theorem isValue_intChars (i : Int) : IsValue (Utf8.encode (intChars i)) := by
  rw [encode_intChars]
  exact isValue_signed (isUnsigned_toDigits _) _

theorem isValue_realChars (t : Binary64) : IsValue (Utf8.encode (realChars t)) := by
  have null : IsValue (Utf8.encode "null".toList) := .word (w := "null") (by simp)
  cases t with
  | nan => exact null
  | infinity s => cases s <;> exact null
  | finite s x =>
    obtain ⟨n, form, _⟩ := exists_spells_magnitudeChars x
    rw [encode_realChars]
    exact isValue_signed form s

/-- Null is no number, so that the text of a NaN or of an infinity is not read. -/
theorem real_meetsEnd_of_takes {t t' : Binary64}
    (taken : real.Takes (Utf8.encode (realChars t)) t') :
    real.MeetsEnd (Utf8.encode (realChars t)) := by
  have run := taken [] [] blank_nil endsNumber_nil
  cases t with
  | nan => cases run
  | infinity s => cases s <;> cases run
  | finite s x => exact real_meetsEnd s x

theorem textChars_missesEnd (s : String) : text.MissesEnd (Utf8.encode (textChars s)) := by
  obtain ⟨t, spells, ht⟩ := exists_spells_textChars s
  rw [ht]
  exact text_missesEnd spells

end Numbers

end Json

theorem Severity.missesEnd (s : Severity) : reader.MissesEnd (Utf8.encode s.chars) := by
  obtain ⟨t, spells, ht⟩ := Json.exists_spells_textChars s.name
  rw [chars, ht]
  exact Json.variant_missesEnd spells

theorem AlertCode.missesEnd (c : AlertCode) :
    (Json.record shape).MissesEnd (Utf8.encode (Json.recordChars shape c)) := by
  refine Json.recordChars_missesEnd (x := shape.get c) labelled (fun f => ?_) fun f => ?_
  · cases f with
    | number => exact Json.signed64_takes c.number
    | name => exact Json.text_takes_textChars c.name
  · cases f with
    | number => exact Json.signed64_meetsEnd c.number
    | name => exact (Json.textChars_missesEnd c.name).meetsEnd

theorem AlertCode.isValue (c : AlertCode) :
    Json.IsValue (Utf8.encode (Json.recordChars shape c)) := by
  refine Json.isValue_recordChars fun f => ?_
  cases f with
  | number => exact Json.isValue_intChars _
  | name => exact Json.isValue_textChars _

namespace Alert

variable {a a' : Alert}

/-- An accepted text of an alert is read up to its brace, and misses it wherever it is cut. -/
theorem run_of_decode_toJson (accepted : decode (Utf8.encode a.toJson.toList) = .ok a') :
    (Json.record shape).MissesEnd (Utf8.encode a.toJson.toList) ∧
      ∀ r, (Json.record shape).run (Utf8.encode a.toJson.toList ++ r) = .ok (a', r) := by
  have text : a.toJson.toList = Json.recordChars shape a := String.toList_ofList
  rw [text] at accepted ⊢
  have isValue (f : Field) : Json.IsValue (Utf8.encode (shape.write f (shape.get a f))) := by
    cases f with
    | severity | origin | parent | message | metric => exact Json.isValue_textChars _
    | code => exact a.code.isValue
    | timestamp => exact Json.isValue_realChars _
  obtain ⟨x, rfl, taken⟩ := Json.exists_taken_of_decode labelled readers_exact isValue accepted
  refine ⟨Json.recordChars_missesEnd labelled taken fun f => ?_, fun r =>
    Json.run_recordChars labelled taken Json.blank_nil r⟩
  cases f with
  | severity => exact a.severity.missesEnd.meetsEnd
  | code => exact a.code.missesEnd.meetsEnd
  | origin | parent | message | metric => exact (Json.textChars_missesEnd _).meetsEnd
  | timestamp => exact Json.real_meetsEnd_of_takes (taken .timestamp)

/-- A message that is refused with this cause leaves the stores as they are, whichever they are. -/
def RefusedFor (body : Bytes) (category : FaultCategory) : Prop :=
  ∃ e : DecodeError, e.cause.category = category ∧ decode body = .error e ∧
    ∀ (σ : Type) (access : StoreAccess σ) (capacity : UInt32) (s : σ),
      takeIn access capacity body s = (.error (.undecodable e), s)

theorem refusedFor_of_decode {body : Bytes} {e : DecodeError} (h : decode body = .error e) :
    RefusedFor body e.cause.category :=
  ⟨e, rfl, h, fun σ access capacity s => by simp [takeIn, h]⟩

end Alert

/-- A message is one whole alert or nothing: cut off anywhere it ends too early, and with anything
but blanks behind it it is no JSON text. Neither changes a store. -/
theorem message_is_whole_alert_or_nothing {a a' : Alert}
    (accepted : Alert.decode (Utf8.encode a.toJson.toList) = .ok a') :
    (∀ p, p <+: Utf8.encode a.toJson.toList → p ≠ Utf8.encode a.toJson.toList →
      Alert.RefusedFor p .eof) ∧
    (∀ r, (∃ c ∈ r, Json.isBlank c = false) →
      Alert.RefusedFor (Utf8.encode a.toJson.toList ++ r) .form) ∧
    ∀ r, (∀ c ∈ r, Json.isBlank c = true) →
      Alert.decode (Utf8.encode a.toJson.toList ++ r) = .ok a' := by
  obtain ⟨misses, run⟩ := Alert.run_of_decode_toJson accepted
  generalize Utf8.encode a.toJson.toList = text at misses run ⊢
  refine ⟨?_, ?_, ?_⟩
  · intro p cut strict
    obtain ⟨f, refused, ends⟩ := misses [] p Json.blank_nil (.of_isPrefix cut strict)
    have decoded : Alert.decode p = .error (f.locate p) := by
      rw [Alert.decode, Json.decode, refused]
    exact ends ▸ Alert.refusedFor_of_decode decoded
  · intro r other
    cases rest : Json.skipBlank r with
    | nil =>
      obtain ⟨b, blank, same⟩ := Json.exists_blank_of_skipBlank rest
      obtain ⟨c, hc, printed⟩ := other
      rw [same, List.append_nil] at hc
      exact absurd (blank c hc) (by simp [printed])
    | cons c q =>
      have decoded : Alert.decode (text ++ r) =
          .error ((Fault.ahead .trailingCharacters (c :: q)).locate (text ++ r)) := by
        rw [Alert.decode, Json.decode, run]
        simp only [rest]
      exact Alert.refusedFor_of_decode decoded
  · intro r blank
    rw [Alert.decode, Json.decode, run]
    simp [Json.Blank.skip_all blank]

/-- A text that is cut inside an escape, inside a character and before its brace, one that stands
there twice, and one with a line feed behind it. -/
theorem message_is_whole_alert_or_nothing_of_awkward_text :
    Alert.decode (Utf8.encode awkwardAlert.toJson.toList) = .ok awkwardAlert ∧
    (∀ k ∈ [0, 84, 104, 248], Alert.RefusedFor
      ((Utf8.encode awkwardAlert.toJson.toList).take k) .eof) ∧
    Alert.RefusedFor
      (Utf8.encode awkwardAlert.toJson.toList ++ Utf8.encode awkwardAlert.toJson.toList) .form ∧
    Alert.decode (Utf8.encode awkwardAlert.toJson.toList ++ [0x0a]) = .ok awkwardAlert := by
  have half : awkwardAlert.timestamp.ReadsBack := by
    unfold Binary64.ReadsBack
    decide +kernel
  have accepted : Alert.decode (Utf8.encode awkwardAlert.toJson.toList) = .ok awkwardAlert :=
    Json.decode_of_takes_text (Alert.takes half)
  have text : awkwardAlert.toJson.toList = Json.recordChars Alert.shape awkwardAlert :=
    String.toList_ofList
  have length : (Utf8.encode awkwardAlert.toJson.toList).length = 249 := by
    rw [text]
    decide +kernel
  obtain ⟨cut, glued, padded⟩ := message_is_whole_alert_or_nothing accepted
  refine ⟨accepted, fun k hk => cut _ (List.take_prefix k _) fun same => ?_, glued _ ?_, ?_⟩
  · have short : k < 249 := by
      simp only [List.mem_cons, List.not_mem_nil, or_false] at hk
      omega
    have := congrArg List.length same
    rw [List.length_take, length] at this
    omega
  · exact ⟨0x7b, by rw [text]; decide +kernel, by decide⟩
  · exact padded _ (by simp [Json.isBlank])

end AlertLedger
