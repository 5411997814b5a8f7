import AlertLedger.Proofs.PlanEvaluation

namespace AlertLedger

/-- The hashes that a reset is about: those of all chains, or that of one chain. -/
def Reset.Covers : Reset → String → Prop
  | .systemOfAllChains, hash | .githubOfAllChains, hash => "hash_p1_".toList <+: hash.toList
  | .systemOfChain parent, hash => hash = "hash_p1_" ++ parent

/-- The fields that a reset drops, by a text in their names. -/
def Reset.Marks : Reset → String → Prop
  | .systemOfAllChains, field | .systemOfChain _, field =>
    "alert_system".toList <:+: field.toList
  | .githubOfAllChains, field => "alert_github2".toList <:+: field.toList

/-- The codes and origins of internal alerts that order a reset. -/
def resetPairs : List (Int64 × String) := [
  (5000, "SystemAlertersManager"), (5001, "SystemAlertersManager"),
  (5000, "GithubAlerterManager")]

/-- The reset that an internal alert orders, by its code and its origin. -/
inductive Alert.Orders (a : Alert) : Reset → Prop
  | systemOfAllChains (internal : a.severity = .internal)
      (pair : (a.code.number, a.origin) = (5000, "SystemAlertersManager")) :
      a.Orders .systemOfAllChains
  | systemOfChain (internal : a.severity = .internal)
      (pair : (a.code.number, a.origin) = (5001, "SystemAlertersManager")) :
      a.Orders (.systemOfChain a.parent)
  | githubOfAllChains (internal : a.severity = .internal)
      (pair : (a.code.number, a.origin) = (5000, "GithubAlerterManager")) :
      a.Orders .githubOfAllChains

def ResetScope.Covers : ResetScope → String → Prop
  | .allChains, hash => chainHashStem.toList <+: hash.toList
  | .chain parent, hash => hash = chainHash parent

theorem ResetCode.ofNumber?_eq_some_iff {n : Int64} {c : ResetCode} :
    ofNumber? n = some c ↔ n = c.number := by
  unfold ofNumber?
  constructor
  · intro h
    split at h
    next first => exact Option.some.inj h ▸ first
    next =>
      split at h
      next second => exact Option.some.inj h ▸ second
      next => cases h
  · rintro rfl
    cases c <;> rfl

theorem Alert.Orders.pair_mem {a : Alert} {r : Reset} (h : a.Orders r) :
    a.severity = .internal ∧ (a.code.number, a.origin) ∈ resetPairs := by
  cases h with
  | systemOfAllChains internal pair | systemOfChain internal pair
  | githubOfAllChains internal pair =>
    rw [pair]
    exact ⟨internal, by simp [resetPairs]⟩

namespace Reset

variable {r : Reset} {a : Alert} {hash field : String}

theorem reaches_iff_covers : r.reaches hash ↔ r.Covers hash := by
  cases r with
  | systemOfAllChains => exact List.isPrefixOf_iff_prefix
  | systemOfChain parent => exact decide_eq_true_iff
  | githubOfAllChains => exact List.isPrefixOf_iff_prefix

theorem drops_iff_marks : r.drops field ↔ r.Marks field := by
  cases r with
  | systemOfAllChains => exact containsText_iff
  | systemOfChain parent => exact containsText_iff
  | githubOfAllChains => exact containsText_iff

theorem reaches_iff : r.reaches hash ↔ r.scope.Covers hash := by
  unfold reaches ResetScope.Covers
  cases r.scope <;> simp

theorem drops_iff : r.drops field ↔ r.marker.toList <:+: field.toList := containsText_iff

theorem covers_iff : r.Covers hash ↔ r.scope.Covers hash :=
  reaches_iff_covers.symm.trans reaches_iff

theorem marks_iff : r.Marks field ↔ r.marker.toList <:+: field.toList :=
  drops_iff_marks.symm.trans drops_iff

theorem ofAlert?_eq_some_iff : ofAlert? a = some r ↔ a.Orders r := by
  constructor
  · intro h
    unfold ofAlert? at h
    split at h
    next internal =>
      have internal : a.severity = .internal := of_decide_eq_true internal
      split at h
      next code =>
        have code := ResetCode.ofNumber?_eq_some_iff.mp code
        split at h
        next origin =>
          cases h
          exact .systemOfAllChains internal (Prod.ext code origin)
        next =>
          split at h
          next origin =>
            cases h
            exact .githubOfAllChains internal (Prod.ext code origin)
          next => cases h
      next code =>
        have code := ResetCode.ofNumber?_eq_some_iff.mp code
        split at h
        next origin =>
          cases h
          exact .systemOfChain internal (Prod.ext code origin)
        next => cases h
      next => cases h
    next => cases h
  · intro h
    cases h with
    | systemOfAllChains internal pair | systemOfChain internal pair
    | githubOfAllChains internal pair =>
      obtain ⟨code, origin⟩ := Prod.mk.inj pair
      simp only [ofAlert?, Alert.isInternal, internal, code, origin]
      rfl

theorem isInternal_of_ofAlert? (h : ofAlert? a = some r) : a.isInternal = true :=
  decide_eq_true (ofAlert?_eq_some_iff.mp h).pair_mem.1

end Reset

end AlertLedger
