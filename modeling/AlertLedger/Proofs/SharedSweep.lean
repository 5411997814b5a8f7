import AlertLedger.Proofs.SnapshotCells

namespace AlertLedger

/-- A change that another client of the same snapshot makes. -/
inductive ClientCall
  | set (hash field value : String)
  | remove (hash : String) (fields : List String)
deriving DecidableEq

def ClientCall.call : ClientCall → SnapshotCall
  | .set hash field value => .setField hash field value
  | .remove hash fields => .removeFields hash fields

/-- What the call leaves of a cell. -/
def ClientCall.leave (hash field : String) : ClientCall → Option String → Option String
  | .set h f v, old => if hash = h ∧ field = f then some v else old
  | .remove h fields, old => if hash = h ∧ field ∈ fields then none else old

/-- Whose call the stores take next. -/
inductive Turn
  | own
  | client (c : ClientCall)

def Turn.client? : Turn → Option ClientCall
  | .own => none
  | .client c => some c

def clientCalls (turns : List Turn) : List ClientCall := turns.filterMap Turn.client?

def Stores.afterClient (s : Stores) (c : ClientCall) : Stores := (s.answer (.snapshot c.call)).2

def Stores.afterClients (s : Stores) (cs : List ClientCall) : Stores := cs.foldl afterClient s

def Reset.IsAbout (r : Reset) (hash field : String) : Prop :=
  r.scope.Covers hash ∧ r.marker.toList <:+: field.toList

/-- The calls of a reset: it reads, and removes only what it is about. -/
def Reset.Permits (r : Reset) : StoreCall → Prop
  | .snapshot (.fieldsOf _) | .snapshot (.hashesStarting _) => True
  | .snapshot (.removeFields hash fields) => ∀ field ∈ fields, r.IsAbout hash field
  | .snapshot (.setField _ _ _) | .history _ => False

namespace Plan

/-- What is left of a plan after some turns, and the stores. A plan that is done lets its turns
pass. -/
def amid {α : Type} : List Turn → Plan α → Stores → Plan α × Stores
  | [], p, s => (p, s)
  | .client c :: turns, p, s => amid turns p (s.afterClient c)
  | .own :: turns, .done a, s => amid turns (.done a) s
  | .own :: turns, .ask c next, s => amid turns (next (s.answer c).1) (s.answer c).2

/-- The plan makes no other calls than these, whatever stores answer. -/
def Uses {α : Type} (allowed : StoreCall → Prop) : Plan α → Prop
  | .done _ => True
  | .ask c next => allowed c ∧ ∀ s : Stores, (next (s.answer c).1).Uses allowed

/-- The plan makes a call that empties the cell. On the way to it the plan may rely on the cell
being filled, since otherwise nothing is left to do. -/
inductive Clears {α : Type} (hash field : String) : Plan α → Prop
  | now {c : StoreCall} {next : c.Answer → Plan α}
      (gone : ∀ s : Stores, (s.answer c).2.snapshot.get? hash field = none) :
      Clears hash field (.ask c next)
  | later {c : StoreCall} {next : c.Answer → Plan α}
      (rest : ∀ s : Stores, (s.snapshot.get? hash field).isSome →
        Clears hash field (next (s.answer c).1)) : Clears hash field (.ask c next)

section

variable {α β : Type} {allowed : StoreCall → Prop} {hash field : String} {p : Plan α}
  {f : α → Plan β}

theorem Uses.bind (h : p.Uses allowed) (rest : ∀ a, (f a).Uses allowed) :
    (p >>= f).Uses allowed := by
  induction p with
  | done a => exact rest a
  | ask c next ih => exact ⟨h.1, fun s => ih (s.answer c).1 (h.2 s)⟩

theorem Clears.bind (h : p.Clears hash field) (f : α → Plan β) :
    (p >>= f).Clears hash field := by
  induction h with
  | now gone => exact .now gone
  | later _ ih => exact .later ih

theorem Clears.of_rest (p : Plan α) (h : ∀ a, (f a).Clears hash field) :
    (p >>= f).Clears hash field := by
  induction p with
  | done a => exact h a
  | ask c next ih => exact .later fun s _ => ih (s.answer c).1

theorem amid_append (front back : List Turn) (p : Plan α) (s : Stores) :
    p.amid (front ++ back) s = (p.amid front s).1.amid back (p.amid front s).2 := by
  induction front generalizing p s with
  | nil => rfl
  | cons turn turns ih =>
    cases turn with
    | client c => exact ih p (s.afterClient c)
    | own =>
      cases p with
      | done a => exact ih (.done a) s
      | ask c next => exact ih (next (s.answer c).1) (s.answer c).2

/-- A plan that is left alone comes to its end. -/
theorem exists_amid_own (p : Plan α) (s : Stores) :
    ∃ n a, (p.amid (List.replicate n .own) s).1 = .done a := by
  induction p generalizing s with
  | done a => exact ⟨0, a, rfl⟩
  | ask c next ih =>
    obtain ⟨n, a, h⟩ := ih (s.answer c).1 (s.answer c).2
    exact ⟨n + 1, a, h⟩

end

section

variable {r : Reset} {hash field : String}

theorem uses_sweepHashes {hashes : List String} (covered : ∀ h ∈ hashes, r.scope.Covers h) :
    (sweepHashes r hashes).Uses r.Permits := by
  induction hashes with
  | nil => trivial
  | cons h rest ih =>
    have hh := covered h List.mem_cons_self
    have own : (sweepHash r h).Uses r.Permits := by
      refine ⟨trivial, fun s => ⟨?_, fun _ => trivial⟩⟩
      intro field hf
      exact ⟨hh, Reset.drops_iff.mp (List.mem_filter.mp hf).2⟩
    have others := ih fun g hg => covered g (List.mem_cons_of_mem h hg)
    exact own.bind fun removed => others.bind fun more => trivial

theorem uses_reset (r : Reset) : (reset r).Uses r.Permits := by
  have sweep (hashes : List String) (covered : ∀ h ∈ hashes, r.scope.Covers h) :
      (sweepHashes r hashes >>= fun removed => pure (Change.swept hashes.length removed)).Uses
        r.Permits :=
    (uses_sweepHashes covered).bind fun removed => trivial
  unfold reset
  cases hs : r.scope with
  | allChains =>
    refine ⟨trivial, fun s => sweep _ ?_⟩
    intro h hh
    rw [hs]
    exact (Snapshot.mem_hashesStarting_iff.mp hh).1
  | chain parent =>
    refine sweep [chainHash parent] ?_
    intro h hh
    rw [hs]
    exact List.mem_singleton.mp hh

theorem clears_sweepHashes {hashes : List String} (listed : hash ∈ hashes)
    (drops : r.drops field = true) : (sweepHashes r hashes).Clears hash field := by
  induction hashes with
  | nil => simp at listed
  | cons h rest ih =>
    by_cases hh : hash = h
    · subst hh
      have own : (sweepHash r hash).Clears hash field := by
        refine .later fun s present => .now fun t => ?_
        have listed : field ∈ (s.snapshot.fields hash).filter r.drops :=
          List.mem_filter.mpr ⟨Snapshot.mem_fields_iff.mpr present, drops⟩
        show (t.snapshot.remove hash _).get? hash field = none
        rw [Snapshot.get?_remove, if_pos ⟨rfl, listed⟩]
      exact own.bind _
    · have others := ih ((List.mem_cons.mp listed).resolve_left hh)
      exact .of_rest _ fun removed => others.bind _

theorem clears_reset (about : r.IsAbout hash field) : (reset r).Clears hash field := by
  obtain ⟨covered, marked⟩ := about
  have drops := Reset.drops_iff.mpr marked
  unfold reset
  cases hs : r.scope with
  | allChains =>
    rw [hs] at covered
    refine .later fun s present => ?_
    have listed : hash ∈ s.snapshot.hashesStarting chainHashStem :=
      Snapshot.mem_hashesStarting_iff.mpr ⟨covered, field, present⟩
    exact (clears_sweepHashes listed drops).bind _
  | chain parent =>
    rw [hs] at covered
    exact (clears_sweepHashes (List.mem_singleton.mpr covered) drops).bind _

end

end Plan

section

variable {r : Reset} {hash field : String} {s : Stores}

theorem Stores.get?_answer_of_permits {c : StoreCall} (permitted : r.Permits c) (s : Stores)
    (hash field : String) :
    (s.answer c).2.snapshot.get? hash field = s.snapshot.get? hash field ∨
      r.IsAbout hash field ∧ (s.answer c).2.snapshot.get? hash field = none := by
  cases c with
  | history e => exact .inl rfl
  | snapshot c =>
    cases c with
    | setField h f v => exact permitted.elim
    | fieldsOf h => exact .inl rfl
    | hashesStarting start => exact .inl rfl
    | removeFields h fields =>
      show (s.snapshot.remove h fields).get? hash field = _ ∨
        _ ∧ (s.snapshot.remove h fields).get? hash field = none
      rw [Snapshot.get?_remove]
      split
      next removed =>
        obtain ⟨rfl, hf⟩ := removed
        exact .inr ⟨permitted field hf, rfl⟩
      next => exact .inl rfl

theorem Stores.get?_afterClient (s : Stores) (c : ClientCall) (hash field : String) :
    (s.afterClient c).snapshot.get? hash field =
      c.leave hash field (s.snapshot.get? hash field) := by
  cases c with
  | set h f v => exact Snapshot.get?_set s.snapshot h f v hash field
  | remove h fields => exact Snapshot.get?_remove s.snapshot h fields hash field

theorem ClientCall.leave_of_not_set {c : ClientCall} (unset : ∀ v, c ≠ .set hash field v)
    (old : Option String) : c.leave hash field old = none ∨ c.leave hash field old = old := by
  cases c with
  | set h f v =>
    have other : ¬ (hash = h ∧ field = f) := by
      intro same
      obtain ⟨rfl, rfl⟩ := same
      exact unset v rfl
    exact .inr (if_neg other)
  | remove h fields =>
    by_cases removed : hash = h ∧ field ∈ fields
    · exact .inl (if_pos removed)
    · exact .inr (if_neg removed)

theorem Stores.get?_afterClients_of_unset {value : String} {cs : List ClientCall}
    (held : s.snapshot.get? hash field = none ∨ s.snapshot.get? hash field = some value)
    (unset : ∀ v, ClientCall.set hash field v ∉ cs) :
    (s.afterClients cs).snapshot.get? hash field = none ∨
      (s.afterClients cs).snapshot.get? hash field = some value := by
  induction cs generalizing s with
  | nil => exact held
  | cons c rest ih =>
    have other : ∀ v, c ≠ .set hash field v := by
      intro v hc
      exact unset v (hc ▸ List.mem_cons_self)
    refine ih ?_ fun v hv => unset v (List.mem_cons_of_mem c hv)
    rw [Stores.get?_afterClient]
    rcases ClientCall.leave_of_not_set other (s.snapshot.get? hash field) with gone | kept
    · exact .inl gone
    · rw [kept]
      exact held

/-- Behind the last value that clients set, a cell holds this value or nothing. -/
theorem Stores.get?_afterClients_behind_set (s : Stores) {value : String}
    (before : List ClientCall) {after : List ClientCall}
    (unset : ∀ v, ClientCall.set hash field v ∉ after) :
    (s.afterClients (before ++ .set hash field value :: after)).snapshot.get? hash field = none ∨
      (s.afterClients (before ++ .set hash field value :: after)).snapshot.get? hash field =
        some value := by
  have last : ((s.afterClients before).afterClient (.set hash field value)).snapshot.get? hash
      field = some value := by
    simp [Stores.get?_afterClient, ClientCall.leave]
  have whole : s.afterClients (before ++ .set hash field value :: after) =
      ((s.afterClients before).afterClient (.set hash field value)).afterClients after :=
    List.foldl_append
  rw [whole]
  exact Stores.get?_afterClients_of_unset (.inr last) unset

end

/-- A cell is as the clients alone would have it, or the reset is about it and has emptied it. -/
def Reset.Tracks (r : Reset) (hash field : String) (now alone : Stores) : Prop :=
  now.snapshot.get? hash field = alone.snapshot.get? hash field ∨
    r.IsAbout hash field ∧ now.snapshot.get? hash field = none

namespace Reset.Tracks

variable {r : Reset} {hash field : String} {now alone : Stores}

theorem afterClient (h : r.Tracks hash field now alone) (c : ClientCall) :
    r.Tracks hash field (now.afterClient c) (alone.afterClient c) := by
  unfold Tracks
  rw [Stores.get?_afterClient, Stores.get?_afterClient]
  rcases h with same | ⟨about, absent⟩
  · exact .inl (by rw [same])
  · by_cases set : ∃ v, c = .set hash field v
    · obtain ⟨v, rfl⟩ := set
      exact .inl (by simp [ClientCall.leave])
    · refine .inr ⟨about, ?_⟩
      have unset : ∀ v, c ≠ .set hash field v := not_exists.mp set
      rw [absent]
      exact (ClientCall.leave_of_not_set unset none).elim id id

theorem afterOwn (h : r.Tracks hash field now alone) {c : StoreCall} (permitted : r.Permits c) :
    r.Tracks hash field (now.answer c).2 alone := by
  rcases Stores.get?_answer_of_permits permitted now hash field with kept | emptied
  · unfold Tracks
    rw [kept]
    exact h
  · exact .inr emptied

end Reset.Tracks

namespace Plan

variable {α : Type} {r : Reset} {hash field : String} {now : Stores}

theorem tracks_amid {p : Plan α} {alone : Stores} (uses : p.Uses r.Permits)
    (h : r.Tracks hash field now alone) (turns : List Turn) :
    r.Tracks hash field (p.amid turns now).2 (alone.afterClients (clientCalls turns)) := by
  induction turns generalizing p now alone with
  | nil => exact h
  | cons turn turns ih =>
    cases turn with
    | client c => exact ih uses (h.afterClient c)
    | own =>
      cases p with
      | done a => exact ih uses h
      | ask c next => exact ih (uses.2 now) (h.afterOwn uses.1)

/-- While no client sets the cell, it is empty or the plan is still going to empty it. -/
theorem absent_or_clears_amid {p : Plan α} (uses : p.Uses r.Permits)
    (h : now.snapshot.get? hash field = none ∨ p.Clears hash field) (turns : List Turn)
    (unset : ∀ v, ClientCall.set hash field v ∉ clientCalls turns) :
    (p.amid turns now).2.snapshot.get? hash field = none ∨
      (p.amid turns now).1.Clears hash field := by
  induction turns generalizing p now with
  | nil => exact h
  | cons turn turns ih =>
    cases turn with
    | client c =>
      have other : ∀ v, c ≠ .set hash field v := by
        intro v hc
        exact unset v (hc ▸ List.mem_cons_self)
      refine ih uses ?_ fun v hv => unset v (List.mem_cons_of_mem c hv)
      rcases h with absent | clears
      · refine .inl ?_
        rw [Stores.get?_afterClient, absent]
        exact (ClientCall.leave_of_not_set other none).elim id id
      · exact .inr clears
    | own =>
      cases p with
      | done a => exact ih uses h unset
      | ask c next =>
        refine ih (uses.2 now) ?_ unset
        rcases Stores.get?_answer_of_permits uses.1 now hash field with kept | ⟨_, emptied⟩
        · rw [kept]
          cases hv : now.snapshot.get? hash field with
          | none => exact .inl rfl
          | some v =>
            cases h.resolve_left (by simp [hv]) with
            | now gone => exact absurd (kept.symm.trans (gone now)) (by simp [hv])
            | later rest => exact .inr (rest now (by simp [hv]))
        · exact .inl emptied

end Plan

/-- A sweep is safe among other clients of the snapshot, whoever's turn it is. What it is not about,
is at every moment as the clients alone would have it. When it is done, what it is about is gone or
holds what a client set last. -/
theorem sweep_safe_among_clients (r : Reset) (s : Stores) (turns : List Turn) :
    (∀ hash field, ¬ (r.scope.Covers hash ∧ r.marker.toList <:+: field.toList) →
      ((Plan.reset r).amid turns s).2.snapshot.get? hash field =
        (s.afterClients (clientCalls turns)).snapshot.get? hash field) ∧
    (∀ change, ((Plan.reset r).amid turns s).1 = .done change → ∀ hash field,
      r.scope.Covers hash → r.marker.toList <:+: field.toList →
      ((∀ v, ClientCall.set hash field v ∉ clientCalls turns) →
        ((Plan.reset r).amid turns s).2.snapshot.get? hash field = none) ∧
      ∀ before value after, clientCalls turns = before ++ .set hash field value :: after →
        (∀ v, ClientCall.set hash field v ∉ after) →
        ((Plan.reset r).amid turns s).2.snapshot.get? hash field = none ∨
          ((Plan.reset r).amid turns s).2.snapshot.get? hash field = some value) ∧
    ∃ n change, ((Plan.reset r).amid (turns ++ List.replicate n .own) s).1 = .done change := by
  have tracks (hash field : String) : r.Tracks hash field ((Plan.reset r).amid turns s).2
      (s.afterClients (clientCalls turns)) :=
    Plan.tracks_amid (Plan.uses_reset r) (.inl rfl) turns
  refine ⟨?_, ?_, ?_⟩
  · intro hash field unrelated
    exact (tracks hash field).resolve_right fun h => unrelated h.1
  · intro change done hash field covered marked
    refine ⟨?_, ?_⟩
    · intro unset
      have cleared : ((Plan.reset r).amid turns s).2.snapshot.get? hash field = none ∨
          ((Plan.reset r).amid turns s).1.Clears hash field :=
        Plan.absent_or_clears_amid (Plan.uses_reset r) (.inr (Plan.clears_reset ⟨covered, marked⟩))
          turns unset
      rw [done] at cleared
      exact cleared.resolve_right nofun
    · intro before value after split unset
      rcases tracks hash field with same | ⟨_, absent⟩
      · rw [same, split]
        exact s.get?_afterClients_behind_set before unset
      · exact .inl absent
  · obtain ⟨n, change, done⟩ := Plan.exists_amid_own ((Plan.reset r).amid turns s).1
      ((Plan.reset r).amid turns s).2
    refine ⟨n, change, ?_⟩
    rw [Plan.amid_append]
    exact done

/-- A value that comes between the two calls for its hash is lost. -/
example : ((Plan.reset (.systemOfChain "chainX")).amid
      [.own, .client (.set "hash_p1_chainX" "alert_system5_n" "new"), .own]
      (Stores.empty.afterClients [.set "hash_p1_chainX" "alert_system5_n" "old"])).2.snapshot.get?
        "hash_p1_chainX" "alert_system5_n" = none := by
  decide +kernel

end AlertLedger
