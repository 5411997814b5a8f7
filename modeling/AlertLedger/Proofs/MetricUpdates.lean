import AlertLedger.Proofs.HistoryBlocks
import AlertLedger.Proofs.RedisMirror
import AlertLedger.Proofs.SnapshotKeys
import AlertLedger.StoreOpening

namespace AlertLedger

/-- The stores take every value for a cell, and hold it there beside all that they held before. -/
def SetsCells {σ : Type} (access : StoreAccess σ) (view : σ → Snapshot) : Prop :=
  ∀ hash field value s, (access (.snapshot (.setField hash field value)) s).1 = .ok () ∧
    view (access (.snapshot (.setField hash field value)) s).2 = (view s).set hash field value

theorem setsCells_access : SetsCells (StoreSession.access noFailure) (·.stores.snapshot) :=
  fun _ _ _ _ => ⟨rfl, rfl⟩

/-- The server of a history that is not asked for anything. -/
def refusingHistory (_ : MongoCommand) (s : Unit) : MongoReply × Unit := (.refused, s)

theorem setsCells_remoteAccess {μ ρ : Type} {send : RedisCommand → ρ → RedisReply × ρ}
    {contents : ρ → RedisServer} (served : RedisServer.Serves send contents) (r : RedisStore)
    (sendMongo : MongoCommand → μ → MongoReply × μ) :
    SetsCells (remoteAccess r sendMongo send) fun s => r.mirror (contents s.2) := by
  intro hash field value s
  obtain ⟨_, answered, _⟩ := r.answer_agrees served (.setField hash field value) s.2
  refine ⟨answered, ?_⟩
  have kept := r.contents_answer served (.setField hash field value) s.2
  show r.mirror (contents (r.answer send _ s.2).2) = _
  rw [kept, RedisStore.mirror_answer]
  rfl

theorem Snapshot.set_comm {s : Snapshot} {hash field value hash' field' value' : String}
    (apart : ¬ (hash = hash' ∧ field = field')) :
    (s.set hash field value).set hash' field' value' =
      (s.set hash' field' value').set hash field value := by
  apply Snapshot.ext_get?
  intro h f
  simp only [get?_set]
  by_cases first : h = hash ∧ f = field
  · have second : ¬ (h = hash' ∧ f = field') := by
      rintro ⟨rfl, rfl⟩
      exact apart ⟨first.1.symm, first.2.symm⟩
    rw [if_neg second, if_pos first, if_pos first]
  · rw [if_neg first, if_neg first]

/-- The stores behind updates for these alerts, one after the other. -/
def afterUpdates {σ : Type} (access : StoreAccess σ) (alerts : List Alert) (s : σ) : σ :=
  alerts.foldl (fun s a => (runUpkeep access (Plan.update a) s).2) s

section

variable {σ : Type} {access : StoreAccess σ} {view : σ → Snapshot} {a b : Alert}
  {field other : String}

/-- An update sets the cell of its chain, metric and origin. -/
theorem SetsCells.update (sets : SetsCells access view)
    (known : Metric.fieldKeyOf a.metric a.origin = .ok field) (s : σ) :
    (runUpkeep access (Plan.update a) s).1 = .ok (.updated (chainHash a.parent) field) ∧
      view (runUpkeep access (Plan.update a) s).2 =
        (view s).set (chainHash a.parent) field (LatestState.ofAlert a).toJson := by
  obtain ⟨taken, held⟩ := sets (chainHash a.parent) field (LatestState.ofAlert a).toJson s
  have asked : Plan.update a =
      .ok (.ask (.snapshot (.setField (chainHash a.parent) field (LatestState.ofAlert a).toJson))
        fun _ => .done (.updated (chainHash a.parent) field)) := by
    rw [Plan.update, known]
    rfl
  cases made : access (.snapshot (.setField (chainHash a.parent) field
    (LatestState.ofAlert a).toJson)) s with
  | mk result after =>
    rw [made] at taken held
    subst taken
    rw [asked]
    simp only [runUpkeep, Plan.perform, made]
    exact ⟨trivial, held⟩

theorem SetsCells.get?_update (sets : SetsCells access view)
    (known : Metric.fieldKeyOf a.metric a.origin = .ok field) (s : σ) :
    (view (runUpkeep access (Plan.update a) s).2).get? (chainHash a.parent) field =
      some (LatestState.ofAlert a).toJson := by
  rw [(sets.update known s).2, Snapshot.get?_set, if_pos ⟨rfl, rfl⟩]

theorem SetsCells.updates (sets : SetsCells access view)
    (known : Metric.fieldKeyOf a.metric a.origin = .ok field)
    (known' : Metric.fieldKeyOf b.metric b.origin = .ok other) (s : σ) :
    view (afterUpdates access [a, b] s) =
      ((view s).set (chainHash a.parent) field (LatestState.ofAlert a).toJson).set
        (chainHash b.parent) other (LatestState.ofAlert b).toJson :=
  (sets.update known' _).2.trans
    (congrArg (·.set (chainHash b.parent) other (LatestState.ofAlert b).toJson)
      (sets.update known s).2)

end

/-- A cell belongs to one chain, one metric and one origin. -/
theorem cell_inj {parent parent' metric metric' origin origin' field : String}
    (known : Metric.fieldKeyOf metric origin = .ok field)
    (known' : Metric.fieldKeyOf metric' origin' = .ok field)
    (same : chainHash parent = chainHash parent') :
    parent = parent' ∧ metric = metric' ∧ origin = origin' := by
  obtain ⟨m, rfl, key⟩ := Metric.fieldKeyOf_eq_ok_iff.mp known
  obtain ⟨m', rfl, rfl⟩ := Metric.fieldKeyOf_eq_ok_iff.mp known'
  obtain ⟨rfl, rfl⟩ := Metric.fieldKey_inj key
  exact ⟨chainHash_inj same, rfl, rfl⟩

/-- Cells never collide. Whatever the chains and the origins are called, alerts that differ in
chain, metric or origin have cells of their own: both can be read behind their updates, and the
order of the updates does not show. This holds in memory and at a server. -/
theorem cells_never_collide :
    (∀ {parent parent' metric metric' origin origin' field : String},
      Metric.fieldKeyOf metric origin = .ok field → Metric.fieldKeyOf metric' origin' = .ok field →
      chainHash parent = chainHash parent' →
      parent = parent' ∧ metric = metric' ∧ origin = origin') ∧
    (∀ {a b : Alert} {field other : String}, Metric.fieldKeyOf a.metric a.origin = .ok field →
      Metric.fieldKeyOf b.metric b.origin = .ok other →
      ¬ (a.parent = b.parent ∧ a.metric = b.metric ∧ a.origin = b.origin) →
      ∀ {σ : Type} {access : StoreAccess σ} {view : σ → Snapshot}, SetsCells access view → ∀ s : σ,
        (runUpkeep access (Plan.update a) s).1 = .ok (.updated (chainHash a.parent) field) ∧
        (runUpkeep access (Plan.update b) (afterUpdates access [a] s)).1 =
          .ok (.updated (chainHash b.parent) other) ∧
        (view (afterUpdates access [a, b] s)).get? (chainHash a.parent) field =
          some (LatestState.ofAlert a).toJson ∧
        (view (afterUpdates access [a, b] s)).get? (chainHash b.parent) other =
          some (LatestState.ofAlert b).toJson ∧
        view (afterUpdates access [a, b] s) = view (afterUpdates access [b, a] s)) ∧
    SetsCells (StoreSession.access noFailure) (·.stores.snapshot) ∧
    ∀ {μ ρ : Type} {send : RedisCommand → ρ → RedisReply × ρ} {contents : ρ → RedisServer},
      RedisServer.Serves send contents →
      ∀ (r : RedisStore) (sendMongo : MongoCommand → μ → MongoReply × μ),
        SetsCells (remoteAccess r sendMongo send) fun s => r.mirror (contents s.2) := by
  refine ⟨cell_inj, ?_, setsCells_access, setsCells_remoteAccess⟩
  intro a b field other known known' different σ access view sets s
  have apart : ¬ (chainHash a.parent = chainHash b.parent ∧ field = other) := by
    rintro ⟨hash, rfl⟩
    exact different (cell_inj known known' hash)
  refine ⟨(sets.update known s).1, (sets.update known' _).1, ?_, ?_, ?_⟩
  · rw [sets.updates known known', Snapshot.get?_set, if_neg apart, Snapshot.get?_set,
      if_pos ⟨rfl, rfl⟩]
  · rw [sets.updates known known', Snapshot.get?_set, if_pos ⟨rfl, rfl⟩]
  · rw [sets.updates known known', sets.updates known' known, Snapshot.set_comm apart]

/-- An alert about access to a repository whose name starts as the fields of another metric do. -/
def awkwardRepository : Alert :=
  { missedBlocks "chainX" 50 with metric := "cannot_access_github", origin := "alert_github1_" }

def namelessRelease : Alert :=
  { missedBlocks "chainX" 60 with metric := "github_release", origin := "", message := "new" }

/-- The values stand side by side, whichever of the alerts came first, in memory and at a server. -/
theorem cells_never_collide_of_awkward_origins :
    Metric.fieldKeyOf "cannot_access_github" "alert_github1_" =
      .ok "alert_github2_alert_github1_" ∧
    Metric.fieldKeyOf "github_release" "" = .ok "alert_github1_" ∧
    (afterUpdates (StoreSession.access noFailure) [awkwardRepository, namelessRelease]
      (.start .empty)).stores.snapshot.get? "hash_p1_chainX" "alert_github2_alert_github1_" =
        some "\x7b\"severity\":\"WARNING\",\"message\":\"missed\"\x7d" ∧
    (afterUpdates (StoreSession.access noFailure) [awkwardRepository, namelessRelease]
      (.start .empty)).stores.snapshot.get? "hash_p1_chainX" "alert_github1_" =
        some "\x7b\"severity\":\"WARNING\",\"message\":\"new\"\x7d" ∧
    (afterUpdates (StoreSession.access noFailure) [awkwardRepository, namelessRelease]
      (.start .empty)).stores.snapshot =
        (afterUpdates (StoreSession.access noFailure) [namelessRelease, awkwardRepository]
          (.start .empty)).stores.snapshot ∧
    RedisServer.Serves RedisServer.execute id ∧
    ((RedisStore.mk (some "ns")).mirror
      (afterUpdates (remoteAccess (.mk (some "ns")) refusingHistory RedisServer.execute)
        [awkwardRepository, namelessRelease] ((), .empty)).2).get? "hash_p1_chainX"
          "alert_github2_alert_github1_" =
            some "\x7b\"severity\":\"WARNING\",\"message\":\"missed\"\x7d" := by
  have known : Metric.fieldKeyOf awkwardRepository.metric awkwardRepository.origin =
      .ok "alert_github2_alert_github1_" := rfl
  have known' : Metric.fieldKeyOf namelessRelease.metric namelessRelease.origin =
      .ok "alert_github1_" := rfl
  have different : ¬ (awkwardRepository.parent = namelessRelease.parent ∧
      awkwardRepository.metric = namelessRelease.metric ∧
      awkwardRepository.origin = namelessRelease.origin) := by decide
  obtain ⟨_, pairs, memory, server⟩ := cells_never_collide
  obtain ⟨_, _, first, second, order⟩ := pairs known known' different memory (.start .empty)
  obtain ⟨_, _, kept, _⟩ := pairs known known' different
    (server RedisServer.serves_execute (.mk (some "ns")) refusingHistory) ((), .empty)
  have missed : (LatestState.ofAlert awkwardRepository).toJson =
      "\x7b\"severity\":\"WARNING\",\"message\":\"missed\"\x7d" := by decide +kernel
  have new : (LatestState.ofAlert namelessRelease).toJson =
      "\x7b\"severity\":\"WARNING\",\"message\":\"new\"\x7d" := by decide +kernel
  rw [missed] at first kept
  rw [new] at second
  exact ⟨known, known', first, second, order, RedisServer.serves_execute, kept⟩

end AlertLedger
