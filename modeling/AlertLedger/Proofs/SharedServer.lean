import AlertLedger.Proofs.MetricUpdates
import AlertLedger.Proofs.ServedPlans

namespace AlertLedger

/-- One that keeps a snapshot up: what is left of the calls for an alert, and the alerts to come. -/
structure Keeper where
  plan : Plan Change
  waiting : List Alert

/-- A keeper's turn: it makes its next call, or takes up its next alert. A call that fails ends the
calls for an alert. -/
def Keeper.turn {σ : Type} (access : StoreAccess σ) : Keeper → σ → Keeper × σ
  | ⟨.done change, []⟩, s => (⟨.done change, []⟩, s)
  | ⟨.done _, a :: rest⟩, s => (⟨.ofAlert a, rest⟩, s)
  | ⟨.ask c next, waiting⟩, s =>
    match access c s with
    | (.ok a, s) => (⟨next a, waiting⟩, s)
    | (.error _, s) => (⟨.done .none, waiting⟩, s)

/-- Keepers, and what they share. -/
structure SharedRun (ι σ : Type) where
  keepers : ι → Keeper
  state : σ

/-- A command that came to a server, from whom, and what the server was like before it. -/
structure Sent (ι ρ : Type) where
  sender : ι
  command : RedisCommand
  before : ρ

/-- The way to a server for one of those who share it. All commands are noted as they come. -/
def noting {ι ρ : Type} (send : RedisCommand → ρ → RedisReply × ρ) (sender : ι)
    (c : RedisCommand) (s : ρ × List (Sent ι ρ)) : RedisReply × ρ × List (Sent ι ρ) :=
  let taken := send c s.1
  (taken.1, taken.2, s.2 ++ [⟨sender, c, s.1⟩])

theorem mem_noting {ι ρ : Type} {send : RedisCommand → ρ → RedisReply × ρ} {sender : ι}
    {c : RedisCommand} {s : ρ × List (Sent ι ρ)} {x : Sent ι ρ} :
    x ∈ (noting send sender c s).2.2 ↔ x ∈ s.2 ∨ x = ⟨sender, c, s.1⟩ :=
  List.mem_append.trans (or_congr_right List.mem_singleton)

/-- The keepers' ways to the servers that they share, each with a space of its own. -/
def sharedAccess {ι μ ρ : Type} (stores : ι → RedisStore)
    (sendMongo : MongoCommand → μ → MongoReply × μ) (send : RedisCommand → ρ → RedisReply × ρ)
    (i : ι) : StoreAccess (μ × ρ × List (Sent ι ρ)) :=
  remoteAccess (stores i) sendMongo (noting send i)

namespace SharedRun

variable {ι σ : Type}

def start (alerts : ι → List Alert) (s : σ) : SharedRun ι σ :=
  ⟨fun i => ⟨.done .none, alerts i⟩, s⟩

variable [DecidableEq ι]

def turn (access : ι → StoreAccess σ) (w : SharedRun ι σ) (i : ι) : SharedRun ι σ :=
  let moved := (w.keepers i).turn (access i) w.state
  ⟨fun k => if k = i then moved.1 else w.keepers k, moved.2⟩

/-- The keepers take their turns in this order, as it comes. -/
def run (access : ι → StoreAccess σ) (w : SharedRun ι σ) (turns : List ι) : SharedRun ι σ :=
  turns.foldl (turn access) w

variable {access : ι → StoreAccess σ} {w : SharedRun ι σ} {i k : ι}

theorem keepers_turn_self : (w.turn access i).keepers i =
    ((w.keepers i).turn (access i) w.state).1 :=
  if_pos rfl

theorem keepers_turn_of_ne (other : k ≠ i) : (w.turn access i).keepers k = w.keepers k :=
  if_neg other

theorem run_append (front back : List ι) :
    w.run access (front ++ back) = (w.run access front).run access back :=
  List.foldl_append

/-- A keeper that is left alone performs its plan as a whole. -/
theorem run_alone_done (access : ι → StoreAccess σ) {plan : Plan Change} {waiting : List Alert}
    (h : w.keepers i = ⟨plan, waiting⟩) : ∃ n change,
      (w.run access (List.replicate n i)).keepers i = ⟨.done change, waiting⟩ ∧
      (w.run access (List.replicate n i)).state = (plan.perform (access i) w.state).2 := by
  induction plan generalizing w with
  | done change => exact ⟨0, change, h, rfl⟩
  | ask c next ih =>
    have moved : (w.keepers i).turn (access i) w.state =
        match access i c w.state with
        | (.ok a, s) => (⟨next a, waiting⟩, s)
        | (.error _, s) => (⟨.done .none, waiting⟩, s) := by
      rw [h]
      rfl
    unfold Plan.perform
    cases taken : access i c w.state with
    | mk result s =>
      rw [taken] at moved
      cases result with
      | ok a =>
        have keeper : (w.turn access i).keepers i = ⟨next a, waiting⟩ := by
          rw [keepers_turn_self, moved]
        have state : (w.turn access i).state = s := congrArg Prod.snd moved
        obtain ⟨n, change, done, final⟩ := ih a keeper
        rw [state] at final
        exact ⟨n + 1, change, done, final⟩
      | error e =>
        refine ⟨1, .none, ?_, congrArg Prod.snd moved⟩
        exact keepers_turn_self.trans (congrArg Prod.fst moved)

theorem run_alone_finishes (access : ι → StoreAccess σ) (w : SharedRun ι σ) (i : ι) :
    ∃ n change, (w.run access (List.replicate n i)).keepers i = ⟨.done change, []⟩ := by
  cases h : w.keepers i with
  | mk plan waiting =>
    induction waiting generalizing w plan with
    | nil =>
      obtain ⟨n, change, done, _⟩ := run_alone_done access h
      exact ⟨n, change, done⟩
    | cons a waiting ih =>
      obtain ⟨n, change, done, _⟩ := run_alone_done access h
      have begun : (w.run access (List.replicate n i ++ [i])).keepers i =
          ⟨.ofAlert a, waiting⟩ := by
        rw [run_append]
        refine keepers_turn_self.trans ?_
        rw [done]
        rfl
      obtain ⟨m, change, finished⟩ := ih _ _ begun
      rw [← run_append] at finished
      refine ⟨n + 1 + m, change, ?_⟩
      rw [← List.replicate_append_replicate, List.replicate_succ']
      exact finished

end SharedRun

/-- The reply to the command lists the hash of this key: the key among others, or the fields. -/
def Sent.Lists {ι ρ : Type} (send : RedisCommand → ρ → RedisReply × ρ) (x : Sent ι ρ)
    (key : String) : Prop :=
  match x.command with
  | .keys _ => ∃ keys, (send x.command x.before).1.readTexts = .ok keys ∧ key ∈ keys
  | .hkeys k => key = k
  | .hset _ _ _ | .hdel _ _ => False

section

variable {ι ρ : Type} {send : RedisCommand → ρ → RedisReply × ρ} {contents : ρ → RedisServer}

theorem RedisServer.Serves.noted (served : RedisServer.Serves send contents) (sender : ι) :
    RedisServer.Serves (noting send sender) (fun s : ρ × List (Sent ι ρ) => contents s.1) where
  reply c s := served.reply c s.1
  effect c s := served.effect c s.1

theorem Sent.not_lists_of_not_reaches (served : RedisServer.Serves send contents) {x : Sent ι ρ}
    {key : String} (unreached : ¬ x.command.Reaches key) : ¬ x.Lists send key := by
  obtain ⟨sender, c, before⟩ := x
  cases c with
  | hset k field value => exact id
  | hdel k fields => exact id
  | hkeys k => exact unreached
  | keys pattern =>
    rintro ⟨keys, read, listed⟩
    obtain ⟨found, read', perm⟩ := (served.reply (.keys pattern) before).readTexts
    obtain rfl := Except.ok.inj (read.symm.trans read')
    have matching := (List.mem_filter.mp (perm.mem_iff.mp listed)).2
    exact unreached matching

/-- The command of a call, if one is sent, reaches the keys of the hashes that the call is about. -/
theorem RedisStore.noted_of_answer (r : RedisStore) (i : ι) (c : SnapshotCall)
    (s : ρ × List (Sent ι ρ)) {x : Sent ι ρ} (noted : x ∈ (r.answer (noting send i) c s).2.2) :
    x ∈ s.2 ∨ x.sender = i ∧
      ∀ key, x.command.Reaches key → ∃ hash, c.IsAbout hash ∧ key = r.key hash := by
  cases c with
  | setField hash field value =>
    refine (mem_noting.mp noted).imp_right ?_
    rintro rfl
    exact ⟨rfl, fun key reached => ⟨hash, rfl, reached⟩⟩
  | fieldsOf hash =>
    refine (mem_noting.mp noted).imp_right ?_
    rintro rfl
    exact ⟨rfl, fun key reached => ⟨hash, rfl, reached⟩⟩
  | removeFields hash fields =>
    cases fields with
    | nil => exact .inl noted
    | cons f fs =>
      refine (mem_noting.mp noted).imp_right ?_
      rintro rfl
      exact ⟨rfl, fun key reached => ⟨hash, rfl, reached⟩⟩
  | hashesStarting start =>
    refine (mem_noting.mp noted).imp_right ?_
    rintro rfl
    exact ⟨rfl, fun key reached => key_prefix_iff.mp (matches_startPattern_iff.mp reached)⟩

end

/-- The keeper has taken up the first of its alerts, and its snapshot will be as these alerts make
it of the initial one when the keeper's calls are made. -/
def Keeper.Follows (alerts : List Alert) (initial : Snapshot) (k : Keeper) (now : Snapshot) :
    Prop :=
  ∃ taken, alerts = taken ++ k.waiting ∧
    k.plan.Ensures (fun _ s => s = taken.foldl Snapshot.afterAlert initial) now

section

variable {ι μ ρ : Type} {send : RedisCommand → ρ → RedisReply × ρ} {contents : ρ → RedisServer}
  {stores : ι → RedisStore} {i j : ι}

/-- What a keeper's turn does if its calls are about chains: it leaves the servers alone or makes
one call, which is answered. -/
inductive Keeper.Moves (stores : ι → RedisStore) (send : RedisCommand → ρ → RedisReply × ρ)
    (contents : ρ → RedisServer) (i : ι) (s : μ × ρ × List (Sent ι ρ)) :
    Keeper → Keeper × μ × ρ × List (Sent ι ρ) → Prop
  | rest (change : Change) : Moves stores send contents i s ⟨.done change, []⟩
      (⟨.done change, []⟩, s)
  | next (change : Change) (a : Alert) (waiting : List Alert) :
      Moves stores send contents i s ⟨.done change, a :: waiting⟩ (⟨.ofAlert a, waiting⟩, s)
  | answered {c : SnapshotCall} {next : c.Answer → Plan Change} {a : c.Answer}
      (onChains : c.OnChains)
      (agree : c.Agree a (((stores i).chainsAt (contents s.2.1)).answer c).1)
      (later : (next a).OnChains) (waiting : List Alert) :
      Moves stores send contents i s ⟨.ask (.snapshot c) next, waiting⟩
        (⟨next a, waiting⟩, s.1, ((stores i).answer (noting send i) c s.2).2)

namespace Keeper

variable {k : Keeper} {s : μ × ρ × List (Sent ι ρ)} {moved : Keeper × μ × ρ × List (Sent ι ρ)}

theorem moves_turn (served : RedisServer.Serves send contents)
    (sendMongo : MongoCommand → μ → MongoReply × μ) (onChains : k.plan.OnChains)
    (s : μ × ρ × List (Sent ι ρ)) :
    Moves stores send contents i s k (k.turn (sharedAccess stores sendMongo send i) s) := by
  obtain ⟨plan, waiting⟩ := k
  cases plan with
  | done change =>
    cases waiting with
    | nil => exact .rest change
    | cons a waiting => exact .next change a waiting
  | ask c next =>
    cases c with
    | history e => exact onChains.elim
    | snapshot c =>
      obtain ⟨a, answered, agree⟩ := RedisStore.answer_agrees (served.noted i) (stores i) c s.2
      have moved :
          turn (sharedAccess stores sendMongo send i) ⟨.ask (.snapshot c) next, waiting⟩ s =
            (⟨next a, waiting⟩, s.1, ((stores i).answer (noting send i) c s.2).2) := by
        simp only [turn, sharedAccess, remoteAccess, answered]
      rw [moved]
      exact .answered onChains.1 (Snapshot.agree_ofChains onChains.1 agree)
        (onChains.2 a agree.fits) waiting

namespace Moves

theorem onChains (moves : Moves stores send contents i s k moved) : moved.1.plan.OnChains := by
  cases moves with
  | rest change => trivial
  | next change a waiting => exact Plan.onChains_ofAlert a
  | answered onChains agree later waiting => exact later

theorem noted (moves : Moves stores send contents i s k moved) {x : Sent ι ρ}
    (noted : x ∈ moved.2.2.2) : x ∈ s.2.2 ∨ x.sender = i ∧
      ∀ key, x.command.Reaches key → ∃ parent, key = (stores i).key (chainHash parent) := by
  cases moves with
  | rest change => exact .inl noted
  | next change a waiting => exact .inl noted
  | answered onChains agree later waiting =>
    refine ((stores i).noted_of_answer i _ s.2 noted).imp_right ?_
    rintro ⟨sender, reached⟩
    refine ⟨sender, ?_⟩
    intro key reaches
    obtain ⟨hash, about, rfl⟩ := reached key reaches
    obtain ⟨parent, rfl⟩ := onChains hash about
    exact ⟨parent, rfl⟩

theorem chainsAt_of_apart (served : RedisServer.Serves send contents)
    (apart : (stores i).Apart (stores j)) (moves : Moves stores send contents i s k moved) :
    (stores j).chainsAt (contents moved.2.2.1) = (stores j).chainsAt (contents s.2.1) := by
  cases moves with
  | rest change => rfl
  | next change a waiting => rfl
  | answered onChains agree later waiting =>
    exact RedisStore.chainsAt_answer_of_apart (served.noted i) apart onChains s.2

theorem follows (served : RedisServer.Serves send contents) {alerts : List Alert}
    {initial : Snapshot} (moves : Moves stores send contents i s k moved)
    (h : k.Follows alerts initial ((stores i).chainsAt (contents s.2.1))) :
    moved.1.Follows alerts initial ((stores i).chainsAt (contents moved.2.2.1)) := by
  obtain ⟨taken, split, ensures⟩ := h
  cases moves with
  | rest change => exact ⟨taken, split, ensures⟩
  | next change a waiting =>
    refine ⟨taken ++ [a], by simp [split], ?_⟩
    have now : (stores i).chainsAt (contents s.2.1) = taken.foldl Snapshot.afterAlert initial :=
      ensures
    rw [now, List.foldl_append]
    exact Plan.ensures_ofAlert a _
  | answered onChains agree later waiting =>
    refine ⟨taken, split, ?_⟩
    have kept := RedisStore.chainsAt_answer (served.noted i) (stores i) onChains s.2
    rw [kept]
    exact ensures _ agree

end Moves

end Keeper

namespace SharedRun

/-- The server, after all that came to it. -/
def server (w : SharedRun ι (μ × ρ × List (Sent ι ρ))) : ρ := w.state.2.1

def sent (w : SharedRun ι (μ × ρ × List (Sent ι ρ))) : List (Sent ι ρ) := w.state.2.2

/-- All calls are about chains: those that are still to come, and the commands that came. -/
structure KeepsToChains (stores : ι → RedisStore) (w : SharedRun ι (μ × ρ × List (Sent ι ρ))) :
    Prop where
  plans : ∀ i, (w.keepers i).plan.OnChains
  commands : ∀ x ∈ w.sent, ∀ key, x.command.Reaches key →
    ∃ parent, key = (stores x.sender).key (chainHash parent)

variable [DecidableEq ι] {w : SharedRun ι (μ × ρ × List (Sent ι ρ))}

theorem KeepsToChains.turn (served : RedisServer.Serves send contents)
    (sendMongo : MongoCommand → μ → MongoReply × μ) (h : KeepsToChains stores w) (i : ι) :
    KeepsToChains stores (w.turn (sharedAccess stores sendMongo send) i) := by
  have moves : Keeper.Moves stores send contents i w.state (w.keepers i) _ :=
    Keeper.moves_turn served sendMongo (h.plans i) w.state
  refine ⟨?_, ?_⟩
  · intro k
    by_cases own : k = i
    · subst own
      rw [keepers_turn_self]
      exact moves.onChains
    · rw [keepers_turn_of_ne own]
      exact h.plans k
  · intro x noted
    rcases moves.noted noted with earlier | ⟨rfl, reached⟩
    · exact h.commands x earlier
    · exact reached

theorem KeepsToChains.run (served : RedisServer.Serves send contents)
    (sendMongo : MongoCommand → μ → MongoReply × μ) (h : KeepsToChains stores w) (turns : List ι) :
    KeepsToChains stores (w.run (sharedAccess stores sendMongo send) turns) := by
  induction turns generalizing w with
  | nil => exact h
  | cons i turns ih => exact ih (h.turn served sendMongo i)

/-- The keeper's snapshot at the server is as its own alerts make it. -/
def Undisturbed (stores : ι → RedisStore) (contents : ρ → RedisServer) (alerts : List Alert)
    (initial : Snapshot) (w : SharedRun ι (μ × ρ × List (Sent ι ρ))) (j : ι) : Prop :=
  (w.keepers j).Follows alerts initial ((stores j).chainsAt (contents w.server))

theorem Undisturbed.turn (served : RedisServer.Serves send contents)
    (sendMongo : MongoCommand → μ → MongoReply × μ)
    (apart : ∀ i, i ≠ j → (stores i).Apart (stores j)) (chains : KeepsToChains stores w)
    {alerts : List Alert} {initial : Snapshot}
    (h : Undisturbed stores contents alerts initial w j) (i : ι) :
    Undisturbed stores contents alerts initial
      (w.turn (sharedAccess stores sendMongo send) i) j := by
  have moves : Keeper.Moves stores send contents i w.state (w.keepers i) _ :=
    Keeper.moves_turn served sendMongo (chains.plans i) w.state
  unfold Undisturbed
  by_cases own : j = i
  · subst own
    rw [keepers_turn_self]
    exact moves.follows served h
  · rw [keepers_turn_of_ne own]
    have kept := moves.chainsAt_of_apart served (apart i (Ne.symm own))
    exact kept ▸ h

theorem Undisturbed.run (served : RedisServer.Serves send contents)
    (sendMongo : MongoCommand → μ → MongoReply × μ)
    (apart : ∀ i, i ≠ j → (stores i).Apart (stores j)) (chains : KeepsToChains stores w)
    {alerts : List Alert} {initial : Snapshot}
    (h : Undisturbed stores contents alerts initial w j) (turns : List ι) :
    Undisturbed stores contents alerts initial
      (w.run (sharedAccess stores sendMongo send) turns) j := by
  induction turns generalizing w with
  | nil => exact h
  | cons i turns ih =>
    exact ih (chains.turn served sendMongo i) (h.turn served sendMongo apart chains i)

end SharedRun

end

/-- Keepers that share a server, each with its alerts, after these turns. -/
def sharedRun {ι μ ρ : Type} [DecidableEq ι] (stores : ι → RedisStore)
    (sendMongo : MongoCommand → μ → MongoReply × μ) (send : RedisCommand → ρ → RedisReply × ρ)
    (alerts : ι → List Alert) (history : μ) (server : ρ) (turns : List ι) :
    SharedRun ι (μ × ρ × List (Sent ι ρ)) :=
  (SharedRun.start alerts (history, server, [])).run (sharedAccess stores sendMongo send) turns

/-- Spaces keep those who share a server apart. Different spaces have a key of a chain in common
only if one has the start of chains' hashes in its name. Without it, whoever's turn it is, no
command of one changes or lists a chain's hash of the other, and a keeper whose space differs from
all others has at the server what its own alerts make of what it had. -/
theorem spaces_keep_apart {ι μ ρ : Type} [DecidableEq ι]
    {send : RedisCommand → ρ → RedisReply × ρ} {contents : ρ → RedisServer}
    (served : RedisServer.Serves send contents) (stores : ι → RedisStore)
    (sendMongo : MongoCommand → μ → MongoReply × μ) (alerts : ι → List Alert) (history : μ)
    (server : ρ) (turns : List ι) :
    let after := sharedRun stores sendMongo send alerts history server
    (∀ (a b : RedisStore) (p q : String), a.space ≠ b.space →
      a.key (chainHash p) = b.key (chainHash q) → a.NamesChains ∨ b.NamesChains) ∧
    (∀ i j, (stores i).space ≠ (stores j).space → ¬ (stores i).NamesChains →
      ¬ (stores j).NamesChains → ∀ x ∈ (after turns).sent, x.sender = i → ∀ parent,
        (contents (send x.command x.before).2).hashes.get? ((stores j).key (chainHash parent)) =
          (contents x.before).hashes.get? ((stores j).key (chainHash parent)) ∧
        ¬ x.Lists send ((stores j).key (chainHash parent))) ∧
    ∀ j, ¬ (stores j).NamesChains →
      (∀ i, i ≠ j → (stores i).space ≠ (stores j).space ∧ ¬ (stores i).NamesChains) →
      (∃ taken, alerts j = taken ++ ((after turns).keepers j).waiting ∧
        ∀ change, ((after turns).keepers j).plan = .done change →
          (stores j).chainsAt (contents (after turns).server) =
            taken.foldl Snapshot.afterAlert ((stores j).chainsAt (contents server))) ∧
      ∃ n change, (after (turns ++ List.replicate n j)).keepers j = ⟨.done change, []⟩ := by
  intro after
  have started : SharedRun.KeepsToChains stores
      (SharedRun.start alerts (history, server, ([] : List (Sent ι ρ)))) :=
    ⟨fun _ => trivial, nofun⟩
  refine ⟨?_, ?_, ?_⟩
  · intro a b p q other same
    exact RedisStore.namesChains_of_key_eq other same
  · rintro _ j other hi hj x noted rfl parent
    have chains := started.run served sendMongo turns
    have unreached : ¬ x.command.Reaches ((stores j).key (chainHash parent)) := by
      intro reaches
      obtain ⟨p, same⟩ := chains.commands x noted _ reaches
      exact RedisStore.apart_of_ne other hi hj p parent same.symm
    refine ⟨?_, Sent.not_lists_of_not_reaches served unreached⟩
    rw [served.effect]
    exact RedisServer.get?_execute_of_not_reaches unreached _
  · intro j free others
    refine ⟨?_, ?_⟩
    · have apart (i : ι) (other : i ≠ j) : (stores i).Apart (stores j) :=
        RedisStore.apart_of_ne (others i other).1 (others i other).2 free
      have begun : SharedRun.Undisturbed stores contents (alerts j)
          ((stores j).chainsAt (contents server))
          (SharedRun.start alerts (history, server, [])) j := ⟨[], rfl, rfl⟩
      obtain ⟨taken, split, ensures⟩ := begun.run served sendMongo apart started turns
      refine ⟨taken, split, fun change done => ?_⟩
      change (((after turns).keepers j).plan).Ensures _ _ at ensures
      rw [done] at ensures
      exact ensures
    · obtain ⟨n, change, finished⟩ := SharedRun.run_alone_finishes
        (sharedAccess stores sendMongo send) (after turns) j
      refine ⟨n, change, ?_⟩
      have joined : after (turns ++ List.replicate n j) =
          (after turns).run (sharedAccess stores sendMongo send) (List.replicate n j) :=
        SharedRun.run_append turns (List.replicate n j)
      rw [joined]
      exact finished

/-- Two spaces. The name of the first, if it stood in a pattern as it is, would match the keys of
the second as well. -/
def neighbours : Bool → RedisStore
  | false => ⟨some "a*"⟩
  | true => ⟨some "ab:c"⟩

def downAlert : Alert :=
  ⟨.critical, ⟨1, "SystemIsDown"⟩, "nodeA", "chainX", "down", "system_is_down", .ofInt 60⟩

def neighbourAlerts : Bool → List Alert
  | false => [downAlert, ⟨.internal, ⟨5000, "Reset"⟩, systemManager, "", "", "", .ofInt 90⟩]
  | true => [downAlert]

/-- The second one's state is written before the first one's reset looks for its hashes. -/
def neighbourTurns : List Bool := [false, true, false, true, false, false, false, false]

def afterNeighbours : SharedRun Bool (Unit × RedisServer × List (Sent Bool RedisServer)) :=
  sharedRun neighbours refusingHistory RedisServer.execute neighbourAlerts () RedisServer.empty
    neighbourTurns

theorem spaces_keep_apart_of_neighbours :
    RedisServer.Serves RedisServer.execute id ∧
      (∀ x ∈ afterNeighbours.sent, x.sender = false →
        (RedisServer.execute x.command x.before).2.hashes.get? "ab:c:hash_p1_chainX" =
          x.before.hashes.get? "ab:c:hash_p1_chainX" ∧
        ¬ x.Lists RedisServer.execute "ab:c:hash_p1_chainX") ∧
      (neighbours true).chainsAt afterNeighbours.server =
        Snapshot.empty.afterAlert downAlert := by
  have free (i : Bool) : ¬ (neighbours i).NamesChains := by
    rintro ⟨space, named, stem⟩
    cases i <;> obtain rfl := Option.some.inj named <;> revert stem <;> decide
  have other : (neighbours false).space ≠ (neighbours true).space := by decide
  have others (i : Bool) (h : i ≠ true) :
      (neighbours i).space ≠ (neighbours true).space ∧ ¬ (neighbours i).NamesChains := by
    obtain rfl : i = false := by simpa using h
    exact ⟨other, free false⟩
  obtain ⟨_, apart, undisturbed⟩ := spaces_keep_apart RedisServer.serves_execute neighbours
    refusingHistory neighbourAlerts () RedisServer.empty neighbourTurns
  refine ⟨RedisServer.serves_execute, ?_, ?_⟩
  · intro x sent first
    exact apart false true other (free false) (free true) x sent first "chainX"
  · obtain ⟨⟨taken, split, kept⟩, _⟩ := undisturbed true (free true) others
    have finished : afterNeighbours.keepers true =
        ⟨.done (.updated "hash_p1_chainX" "alert_system5_nodeA"), []⟩ := by rfl
    have all : neighbourAlerts true = taken ++ (afterNeighbours.keepers true).waiting := split
    rw [finished, List.append_nil] at all
    have kept := kept _ (congrArg Keeper.plan finished)
    rw [← all] at kept
    exact kept

end AlertLedger
