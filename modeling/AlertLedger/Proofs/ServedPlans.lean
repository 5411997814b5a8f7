import AlertLedger.Proofs.ChainSpaces
import AlertLedger.Proofs.MessageRun

namespace AlertLedger

/-- The answer lists no other hashes than the call is about. -/
def SnapshotCall.Fits : (c : SnapshotCall) → c.Answer → Prop
  | .hashesStarting start, hashes => ∀ hash ∈ hashes, start.toList <+: hash.toList
  | .setField _ _ _, _ | .fieldsOf _, _ | .removeFields _ _, _ => True

theorem SnapshotCall.Agree.fits {c : SnapshotCall} {a : c.Answer} {s : Snapshot}
    (h : c.Agree a (s.answer c).1) : c.Fits a := by
  cases c with
  | hashesStarting start =>
    intro hash listed
    exact (Snapshot.mem_hashesStarting_iff.mp (List.Perm.mem_iff h |>.mp listed)).1
  | setField | fieldsOf | removeFields => trivial

namespace Plan

/-- The plan asks the snapshot about hashes of chains only, whatever fitting answers it gets. -/
def OnChains {α : Type} : Plan α → Prop
  | .done _ => True
  | .ask (.snapshot c) next => c.OnChains ∧ ∀ a, c.Fits a → (next a).OnChains
  | .ask (.history _) _ => False

/-- At a server that agrees with this snapshot in what it answers, the plan comes to such an end. -/
def Ensures {α : Type} (Q : α → Snapshot → Prop) : Plan α → Snapshot → Prop
  | .done a, s => Q a s
  | .ask (.snapshot c) next, s => ∀ a, c.Agree a (s.answer c).1 → (next a).Ensures Q (s.answer c).2
  | .ask (.history _) _, _ => False

/-- The calls for an alert. -/
def ofAlert (a : Alert) : Plan Change :=
  match upkeep a with
  | .ok p => p
  | .error _ => .done .none

section

variable {α β : Type} {p : Plan α} {f : α → Plan β}

theorem OnChains.bind (h : p.OnChains) (rest : ∀ a, (f a).OnChains) : (p >>= f).OnChains := by
  induction p with
  | done a => exact rest a
  | ask c next ih =>
    cases c with
    | snapshot c => exact ⟨h.1, fun a fits => ih a (h.2 a fits)⟩
    | history e => exact h

theorem Ensures.bind {Q : α → Snapshot → Prop} {R : β → Snapshot → Prop} {s : Snapshot}
    (h : p.Ensures Q s) (rest : ∀ a s, Q a s → (f a).Ensures R s) : (p >>= f).Ensures R s := by
  induction p generalizing s with
  | done a => exact rest a s h
  | ask c next ih =>
    cases c with
    | snapshot c => exact fun a agree => ih a (h a agree)
    | history e => exact h

end

section

variable {r : Reset} {hashes : List String}

theorem onChains_sweepHashes (chains : ∀ hash ∈ hashes, ∃ parent, hash = chainHash parent) :
    (sweepHashes r hashes).OnChains := by
  induction hashes with
  | nil => trivial
  | cons hash rest ih =>
    have chain := chains hash List.mem_cons_self
    have own : (sweepHash r hash).OnChains := by
      have about (other : String) (same : other = hash) : ∃ parent, other = chainHash parent :=
        same ▸ chain
      exact ⟨about, fun fields _ => ⟨about, fun _ _ => trivial⟩⟩
    have others := ih fun other listed => chains other (List.mem_cons_of_mem hash listed)
    exact own.bind fun removed => others.bind fun more => trivial

theorem onChains_reset (r : Reset) : (reset r).OnChains := by
  have sweep (hashes : List String) (chains : ∀ hash ∈ hashes, ∃ parent, hash = chainHash parent) :
      (sweepHashes r hashes >>= fun removed =>
        pure (Change.swept hashes.length removed)).OnChains :=
    (onChains_sweepHashes chains).bind fun removed => trivial
  unfold reset
  cases r.scope with
  | allChains =>
    refine ⟨fun hash front => chainHashStem_prefix_iff.mp front, fun hashes fits => sweep hashes ?_⟩
    intro hash listed
    exact chainHashStem_prefix_iff.mp (fits hash listed)
  | chain parent =>
    refine sweep [chainHash parent] ?_
    intro hash listed
    exact ⟨parent, List.mem_singleton.mp listed⟩

theorem onChains_ofAlert (a : Alert) : (ofAlert a).OnChains := by
  have kind := upkeepOf a
  unfold ofAlert
  cases asked : upkeep a with
  | error e => trivial
  | ok p =>
    rw [asked] at kind
    cases kind with
    | reset internal orders => exact onChains_reset _
    | ignored internal orders => trivial
    | update ordinary known =>
      refine ⟨?_, fun _ _ => trivial⟩
      rintro _ rfl
      exact ⟨a.parent, rfl⟩

theorem ensures_sweepHash (r : Reset) (hash : String) (s : Snapshot) :
    (sweepHash r hash).Ensures (fun _ swept => ∀ h f, swept.get? h f =
      if h = hash ∧ r.drops f then none else s.get? h f) s := by
  intro fields listed count _ h f
  exact Snapshot.get?_remove_listed listed r.drops h f

theorem ensures_sweepHashes (r : Reset) (hashes : List String) (s : Snapshot) :
    (sweepHashes r hashes).Ensures (fun _ swept => ∀ h f, swept.get? h f =
      if h ∈ hashes ∧ r.drops f then none else s.get? h f) s := by
  induction hashes generalizing s with
  | nil =>
    intro h f
    simp
  | cons hash rest ih =>
    refine (ensures_sweepHash r hash s).bind fun removed first own => ?_
    refine (ih first).bind fun more swept others h f => ?_
    rw [others, own]
    by_cases drops : r.drops f <;> by_cases listed : h ∈ rest <;> simp [drops, listed]

theorem ensures_reset (r : Reset) (s : Snapshot) :
    (reset r).Ensures (fun _ swept => swept = s.sweep r) s := by
  have sweep (hashes : List String) (visited : ∀ hash, hash ∈ hashes ↔ hash ∈ r.hashes s) :
      (sweepHashes r hashes >>= fun removed =>
        pure (Change.swept hashes.length removed)).Ensures (fun _ swept => swept = s.sweep r) s :=
    (ensures_sweepHashes r hashes s).bind fun removed swept cells =>
      Snapshot.eq_sweep visited cells
  unfold reset
  cases hs : r.scope with
  | allChains =>
    refine fun hashes listed => sweep hashes ?_
    intro hash
    rw [Reset.hashes, hs]
    exact List.Perm.mem_iff listed
  | chain parent =>
    refine sweep [chainHash parent] ?_
    intro hash
    rw [Reset.hashes, hs]

/-- The calls for an alert change a snapshot as the alert does, in whatever order a server lists
fields and hashes. -/
theorem ensures_ofAlert (a : Alert) (s : Snapshot) :
    (ofAlert a).Ensures (fun _ after => after = s.afterAlert a) s := by
  have kind := upkeepOf a
  unfold ofAlert
  cases asked : upkeep a with
  | error e =>
    rw [asked] at kind
    cases kind with
    | unknown ordinary unknown => simp [Ensures, Snapshot.afterAlert, ordinary, unknown]
  | ok p =>
    rw [asked] at kind
    cases kind with
    | reset internal orders =>
      simp only [Snapshot.afterAlert, internal, if_true, orders]
      exact ensures_reset _ s
    | ignored internal orders =>
      simp only [Snapshot.afterAlert, internal, if_true, orders]
      rfl
    | update ordinary known =>
      simp only [Snapshot.afterAlert, ordinary, known, Bool.false_eq_true, if_false]
      exact fun _ _ => rfl

end

end Plan

end AlertLedger
