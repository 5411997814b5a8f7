import AlertLedger.Proofs.RedisKeys
import AlertLedger.Proofs.SweepCalls

namespace AlertLedger

namespace Snapshot

/-- A snapshot of these cells. Of two values for a cell the first counts. -/
def ofCells (cells : List (Cell × String)) : Snapshot :=
  cells.foldr (fun e s => s.set e.1.hash e.1.field e.2) .empty

theorem get?_ofCells (cells : List (Cell × String)) (hash field : String) :
    (ofCells cells).get? hash field = cells.lookup ⟨hash, field⟩ := by
  induction cells with
  | nil => rfl
  | cons e es ih =>
    obtain ⟨⟨h, f⟩, v⟩ := e
    show ((ofCells es).set h f v).get? hash field = _
    rw [get?_set, ih, OrderedTable.lookup_cons_eq_ite]
    simp only [Cell.mk.injEq]

end Snapshot

theorem lookup_map_cell (xs : List (String × String)) (h hash field : String) :
    (xs.map fun x => ((⟨h, x.1⟩, x.2) : Cell × String)).lookup ⟨hash, field⟩ =
      if hash = h then xs.lookup field else none := by
  induction xs with
  | nil => simp
  | cons x xs ih =>
    rw [List.map_cons, OrderedTable.lookup_cons_eq_ite, OrderedTable.lookup_cons_eq_ite, ih]
    by_cases hh : hash = h <;> by_cases hf : field = x.1 <;> simp [hh, hf]

namespace RedisServer

theorem get?_put (s : RedisServer) (key other : String) (h : OrderedTable String String) :
    (s.put key h).hashes.get? other =
      if other = key then (if h.entries = [] then none else some h) else s.hashes.get? other := by
  unfold put
  split
  next hh => by_cases ho : other = key <;> simp [ho]
  next hh => by_cases ho : other = key <;> simp [ho]

/-- The server drops the listed fields as a removal in memory does. -/
theorem takeOut_eq_dropFields (fields : List String) (n : Nat) (h : OrderedTable String String) :
    FieldTables.takeOut fields n h = (n + (dropFields fields h).1, (dropFields fields h).2) := by
  induction fields generalizing n h with
  | nil => rfl
  | cons f fs ih =>
    rw [FieldTables.takeOut, OrderedTable.erase, ih, dropFields]
    split
    · rw [Nat.add_assoc]
    · rw [Nat.zero_add]

theorem get?_dropFields (fields : List String) (h : OrderedTable String String) (field : String) :
    (dropFields fields h).2.get? field = if field ∈ fields then none else h.get? field := by
  have left := FieldTables.get?_takeOut fields 0 h field
  rwa [takeOut_eq_dropFields] at left

theorem dropFields_count (fields : List String) (h : OrderedTable String String) :
    (dropFields fields h).1 = {f ∈ fields.toFinset | (h.get? f).isSome}.card := by
  have count := FieldTables.takeOut_count fields 0 h
  rwa [takeOut_eq_dropFields, Nat.zero_add, Nat.zero_add] at count

end RedisServer

namespace RedisStore

/-- The cells that a server's hash stands for, if its key is in the space. -/
def cellsOf (r : RedisStore) (e : String × OrderedTable String String) : List (Cell × String) :=
  (r.hash? e.1).toList.flatMap fun hash => e.2.entries.map fun x => (⟨hash, x.1⟩, x.2)

/-- The snapshot that a server keeps in the space. -/
def mirror (r : RedisStore) (server : RedisServer) : Snapshot :=
  .ofCells (server.hashes.entries.flatMap r.cellsOf)

theorem lookup_cellsOf (r : RedisStore) (e : String × OrderedTable String String)
    (hash field : String) :
    (r.cellsOf e).lookup ⟨hash, field⟩ = if e.1 = r.key hash then e.2.get? field else none := by
  unfold cellsOf
  cases hk : r.hash? e.1 with
  | none =>
    have other : e.1 ≠ r.key hash := by
      intro same
      simp [same] at hk
    rw [if_neg other]
    rfl
  | some h =>
    have own := hash?_eq_some_iff.mp hk
    show ((e.2.entries.map fun x : String × String => ((⟨h, x.1⟩, x.2) : Cell × String)) ++
      []).lookup (⟨hash, field⟩ : Cell) = _
    rw [List.append_nil, lookup_map_cell, own]
    by_cases same : hash = h
    · rw [if_pos same, if_pos (same ▸ rfl)]
      rfl
    · rw [if_neg same, if_neg (mt key_inj.mp (Ne.symm same))]

/-- A key stands once in a table, so the cells of a hash come from one entry. -/
theorem lookup_flatMap_cellsOf (r : RedisStore) (hash field : String)
    {es : List (String × OrderedTable String String)}
    (ascending : es.Pairwise fun a b => a.1 < b.1) :
    (es.flatMap r.cellsOf).lookup ⟨hash, field⟩ =
      ((es.lookup (r.key hash)).getD .empty).get? field := by
  induction es with
  | nil => rfl
  | cons e es ih =>
    obtain ⟨first, ascending⟩ := List.pairwise_cons.mp ascending
    rw [List.flatMap_cons, List.lookup_append, lookup_cellsOf, ih ascending,
      OrderedTable.lookup_cons_eq_ite]
    by_cases own : e.1 = r.key hash
    · have once : es.lookup (r.key hash) = none := by
        rw [List.lookup_eq_none_iff]
        intro d hd
        have later := first d hd
        rw [bne_iff_ne]
        intro same
        rw [own, same] at later
        exact KeyOrder.irrefl d.1 later
      rw [if_pos own, if_pos own.symm, once]
      exact Option.or_none
    · rw [if_neg own, if_neg (Ne.symm own)]
      exact Option.none_or

@[simp] theorem get?_mirror (r : RedisStore) (server : RedisServer) (hash field : String) :
    (r.mirror server).get? hash field = (server.hash (r.key hash)).get? field := by
  rw [mirror, Snapshot.get?_ofCells, lookup_flatMap_cellsOf r hash field server.hashes.ascending]
  rfl

end RedisStore

/-- Replies that differ at most in the order of a list. -/
inductive RedisReply.SameTexts : RedisReply → RedisReply → Prop
  | same (reply : RedisReply) : SameTexts reply reply
  | texts {ss ts : List String} (perm : ss.Perm ts) : SameTexts (.texts ss) (.texts ts)

namespace RedisReply

theorem SameTexts.eq_number {reply : RedisReply} {n : Int} (h : reply.SameTexts (.number n)) :
    reply = .number n := by
  cases h
  rfl

theorem SameTexts.readTexts {reply : RedisReply} {ss : List String}
    (h : reply.SameTexts (.texts ss)) : ∃ ts, reply.readTexts = .ok ts ∧ ts.Perm ss := by
  cases h with
  | same => exact ⟨ss, rfl, .refl ss⟩
  | texts perm => exact ⟨_, rfl, perm⟩

theorem readCount_number (n : Nat) : (number n).readCount = .ok (n % Nat.pow 2 64) := by
  have small : ((n : Int) % (Nat.pow 2 64 : Nat)).toNat = n % Nat.pow 2 64 := by omega
  exact congrArg Except.ok small

end RedisReply

/-- A server that takes commands by `send` and does what is documented for them. It may give the
fields of a hash, and its keys, in any order. -/
structure RedisServer.Serves {σ : Type} (send : RedisCommand → σ → RedisReply × σ)
    (contents : σ → RedisServer) : Prop where
  reply : ∀ c s, (send c s).1.SameTexts (execute c (contents s)).1
  effect : ∀ c s, contents (send c s).2 = (execute c (contents s)).2

/-- Answers to a call that say the same. Lists may be in any order, and a count is one of 64 bits,
which hold the length of every list that a machine holds. -/
def SnapshotCall.Agree : (c : SnapshotCall) → c.Answer → c.Answer → Prop
  | .setField _ _ _, _, _ => True
  | .fieldsOf _, a, b | .hashesStarting _, a, b => a.Perm b
  | .removeFields _ fields, a, b =>
    a = b % Nat.pow 2 64 ∧ (fields.length < Nat.pow 2 64 → a = b)

/-- The call is about this hash: it names it, or the start of its name. -/
def SnapshotCall.IsAbout : SnapshotCall → String → Prop
  | .setField h _ _, hash | .fieldsOf h, hash | .removeFields h _, hash => hash = h
  | .hashesStarting start, hash => start.toList <+: hash.toList

/-- A snapshot after these calls. -/
def Snapshot.afterCalls (s : Snapshot) (calls : List SnapshotCall) : Snapshot :=
  calls.foldl (fun s c => (s.answer c).2) s

theorem Snapshot.removed_le (s : Snapshot) (hash : String) (fields : List String) :
    s.removed hash fields ≤ fields.length := by
  rw [removed_eq_card]
  exact (Finset.card_filter_le _ _).trans fields.toFinset_card_le

namespace RedisStore

/-- What a server keeps after these calls. -/
def afterCalls {σ : Type} (r : RedisStore) (send : RedisCommand → σ → RedisReply × σ)
    (calls : List SnapshotCall) (s : σ) : σ :=
  calls.foldl (fun s c => (r.answer send c s).2) s

theorem fields_mirror (r : RedisStore) (server : RedisServer) (hash : String) :
    (server.hash (r.key hash)).keys.Perm ((r.mirror server).fields hash) := by
  rw [List.perm_ext_iff_of_nodup (OrderedTable.nodup_keys _) (Snapshot.nodup_fields _ _)]
  intro field
  rw [OrderedTable.mem_keys_iff, Snapshot.mem_fields_iff, get?_mirror]

theorem mirror_put (r : RedisStore) (server : RedisServer) (hash other field : String)
    (h : OrderedTable String String) :
    (r.mirror (server.put (r.key hash) h)).get? other field =
      if other = hash then h.get? field else (r.mirror server).get? other field := by
  simp only [get?_mirror, RedisServer.hash_put, key_inj]
  split <;> rfl

end RedisStore

/-- The server's hashes are tables of fields, none of them without one. -/
theorem RedisServer.mem_keys_iff {s : RedisServer} {key : String} :
    key ∈ s.hashes.keys ↔ ∃ field, ((s.hash key).get? field).isSome := by
  have listed := @FieldTables.mem_hashes_iff ⟨s.hashes⟩ s.fielded key
  simp only [FieldTables.get?_eq_table] at listed
  exact listed

namespace RedisStore

theorem hashes_mirror (r : RedisStore) (server : RedisServer) (start : String) :
    ((server.hashes.keys.filter (matchesGlob (r.startPattern start))).filterMap r.hash?).Perm
      ((r.mirror server).hashesStarting start) := by
  have found : ((server.hashes.keys.filter (matchesGlob (r.startPattern start))).filterMap
      r.hash?).Nodup := by
    refine ((OrderedTable.nodup_keys _).filter _).filterMap ?_
    intro a b hash ha hb
    rw [hash?_eq_some_iff.mp ha, hash?_eq_some_iff.mp hb]
  rw [List.perm_ext_iff_of_nodup found (Snapshot.nodup_hashesStarting _ _)]
  intro hash
  rw [List.mem_filterMap, Snapshot.mem_hashesStarting_iff]
  simp only [get?_mirror, ← RedisServer.mem_keys_iff, List.mem_filter, hash?_eq_some_iff,
    matches_startPattern_iff]
  constructor
  · rintro ⟨key, ⟨there, front⟩, rfl⟩
    exact ⟨key_prefix_key_iff.mp front, there⟩
  · rintro ⟨front, there⟩
    exact ⟨r.key hash, ⟨there, key_prefix_key_iff.mpr front⟩, rfl⟩

/-- The same call in memory, and at the documented server, keeps the same hashes. -/
theorem mirror_answer (r : RedisStore) (c : SnapshotCall) (server : RedisServer) :
    r.mirror (r.answer RedisServer.execute c server).2 = ((r.mirror server).answer c).2 := by
  cases c with
  | setField hash field value =>
    apply Snapshot.ext_get?
    intro h f
    refine (mirror_put r server hash h f _).trans ?_
    simp only [Snapshot.answer_setField, Snapshot.get?_set, OrderedTable.get?_set, get?_mirror]
    by_cases hh : h = hash <;> by_cases hf : f = field <;> simp [hh, hf]
  | fieldsOf hash => rfl
  | removeFields hash fields =>
    apply Snapshot.ext_get?
    intro h f
    cases fields with
    | nil => simp [answer]
    | cons g gs =>
      refine (mirror_put r server hash h f _).trans ?_
      simp only [Snapshot.answer_removeFields, Snapshot.get?_remove,
        RedisServer.get?_dropFields, get?_mirror]
      by_cases hh : h = hash <;> by_cases hf : f ∈ g :: gs <;> simp only [hh, hf] <;> simp
  | hashesStarting start => rfl

/-- A call leaves the keys alone that are not those of the hashes that it is about. -/
theorem get?_answer_of_ne (r : RedisStore) (c : SnapshotCall) (server : RedisServer) {key : String}
    (outside : ∀ hash, c.IsAbout hash → key ≠ r.key hash) :
    (r.answer RedisServer.execute c server).2.hashes.get? key = server.hashes.get? key := by
  cases c with
  | setField hash field value =>
    exact (RedisServer.get?_put _ _ _ _).trans (if_neg (outside hash rfl))
  | fieldsOf hash => rfl
  | removeFields hash fields =>
    cases fields with
    | nil => rfl
    | cons f fs => exact (RedisServer.get?_put _ _ _ _).trans (if_neg (outside hash rfl))
  | hashesStarting start => rfl

section

variable {σ : Type} {send : RedisCommand → σ → RedisReply × σ} {contents : σ → RedisServer}

theorem answer_agrees (served : RedisServer.Serves send contents) (r : RedisStore)
    (c : SnapshotCall) (s : σ) : ∃ a, (r.answer send c s).1 = .ok a ∧
      c.Agree a ((r.mirror (contents s)).answer c).1 := by
  cases c with
  | setField hash field value =>
    have taken := (served.reply (.hset (r.key hash) field value) s).eq_number
    exact ⟨(), congrArg RedisReply.taken taken, trivial⟩
  | fieldsOf hash =>
    obtain ⟨fields, read, perm⟩ := (served.reply (.hkeys (r.key hash)) s).readTexts
    exact ⟨fields, read, perm.trans (r.fields_mirror (contents s) hash)⟩
  | removeFields hash fields =>
    cases fields with
    | nil =>
      have none : (r.mirror (contents s)).removed hash [] = 0 := by
        simp [Snapshot.removed_eq_card]
      rw [Snapshot.answer_removeFields, none]
      exact ⟨0, rfl, rfl, fun _ => rfl⟩
    | cons f fs =>
      have counted : (RedisServer.dropFields (f :: fs) ((contents s).hash (r.key hash))).1 =
          (r.mirror (contents s)).removed hash (f :: fs) := by
        simp only [RedisServer.dropFields_count, Snapshot.removed_eq_card, get?_mirror]
      have bound := (r.mirror (contents s)).removed_le hash (f :: fs)
      have reply := (served.reply (.hdel (r.key hash) (f :: fs)) s).eq_number
      rw [counted] at reply
      refine ⟨_, (congrArg RedisReply.readCount reply).trans (RedisReply.readCount_number _), rfl,
        ?_⟩
      intro fit
      exact Nat.mod_eq_of_lt (Nat.lt_of_le_of_lt bound fit)
  | hashesStarting start =>
    obtain ⟨keys, read, perm⟩ := (served.reply (.keys (r.startPattern start)) s).readTexts
    have kept := (perm.filterMap r.hash?).trans (r.hashes_mirror (contents s) start)
    refine ⟨keys.filterMap r.hash?, ?_, kept⟩
    rw [answer, read]
    rfl

theorem contents_answer (served : RedisServer.Serves send contents) (r : RedisStore)
    (c : SnapshotCall) (s : σ) :
    contents (r.answer send c s).2 = (r.answer RedisServer.execute c (contents s)).2 := by
  cases c with
  | setField hash field value => exact served.effect (.hset (r.key hash) field value) s
  | fieldsOf hash => exact served.effect (.hkeys (r.key hash)) s
  | removeFields hash fields =>
    cases fields with
    | nil => rfl
    | cons f fs => exact served.effect (.hdel (r.key hash) (f :: fs)) s
  | hashesStarting start => exact served.effect (.keys (r.startPattern start)) s

theorem contents_afterCalls (served : RedisServer.Serves send contents) (r : RedisStore)
    (calls : List SnapshotCall) (s : σ) : contents (r.afterCalls send calls s) =
      r.afterCalls RedisServer.execute calls (contents s) := by
  induction calls generalizing s with
  | nil => rfl
  | cons c calls ih =>
    refine (ih (r.answer send c s).2).trans ?_
    rw [contents_answer served]
    rfl

end

theorem mirror_afterCalls (r : RedisStore) (calls : List SnapshotCall) (server : RedisServer) :
    r.mirror (r.afterCalls RedisServer.execute calls server) =
      (r.mirror server).afterCalls calls := by
  induction calls generalizing server with
  | nil => rfl
  | cons c calls ih =>
    refine (ih (r.answer RedisServer.execute c server).2).trans ?_
    rw [mirror_answer]
    rfl

theorem get?_afterCalls_of_ne (r : RedisStore) (calls : List SnapshotCall) (server : RedisServer)
    {key : String} (outside : ∀ hash, key ≠ r.key hash) :
    (r.afterCalls RedisServer.execute calls server).hashes.get? key = server.hashes.get? key := by
  induction calls generalizing server with
  | nil => rfl
  | cons c calls ih =>
    exact (ih (r.answer RedisServer.execute c server).2).trans
      (get?_answer_of_ne r c server fun hash _ => outside hash)

end RedisStore

theorem RedisServer.serves_execute : Serves execute id where
  reply _ _ := .same _
  effect _ _ := rfl

/-- At a server, and in memory with what the server has in the space: after the same calls every
call is answered, both say the same, both keep the same, and the server's other keys are as they
were. -/
theorem redis_engine_agrees {σ : Type} {send : RedisCommand → σ → RedisReply × σ}
    {contents : σ → RedisServer} (served : RedisServer.Serves send contents) (r : RedisStore)
    (calls : List SnapshotCall) (s : σ) :
    (∀ c, ∃ a, (r.answer send c (r.afterCalls send calls s)).1 = .ok a ∧
      c.Agree a (((r.mirror (contents s)).afterCalls calls).answer c).1) ∧
    r.mirror (contents (r.afterCalls send calls s)) = (r.mirror (contents s)).afterCalls calls ∧
    ∀ key, (∀ hash, key ≠ r.key hash) →
      (contents (r.afterCalls send calls s)).hashes.get? key = (contents s).hashes.get? key := by
  have contained := RedisStore.contents_afterCalls served r calls s
  have kept : r.mirror (contents (r.afterCalls send calls s)) =
      (r.mirror (contents s)).afterCalls calls := by
    rw [contained, RedisStore.mirror_afterCalls]
  refine ⟨?_, kept, ?_⟩
  · intro c
    rw [← kept]
    exact RedisStore.answer_agrees served r c (r.afterCalls send calls s)
  · intro key outside
    rw [contained]
    exact r.get?_afterCalls_of_ne calls (contents s) outside

/-- A space that would match the keys of others if it stood in a pattern as it is. -/
def starSpace : RedisStore := ⟨some "a*"⟩

def starServer : RedisServer :=
  (RedisServer.empty.put "a*:p" (OrderedTable.empty.set "f" "1")).put "ab:q"
    (OrderedTable.empty.set "g" "2")

theorem redis_engine_agrees_beside_others :
    RedisServer.Serves RedisServer.execute id ∧
      (∃ hashes, (starSpace.answer RedisServer.execute (.hashesStarting "")
        (starSpace.afterCalls RedisServer.execute
          [.setField "?" "h" "3", .removeFields "p" ["f", "f", "g"]] starServer)).1 = .ok hashes ∧
        hashes.Perm ["?"]) ∧
      (starSpace.mirror (starSpace.afterCalls RedisServer.execute
        [.setField "?" "h" "3", .removeFields "p" ["f", "f", "g"]] starServer)).hashes = ["?"] ∧
      (starSpace.afterCalls RedisServer.execute
        [.setField "?" "h" "3", .removeFields "p" ["f", "f", "g"]] starServer).hashes.get? "ab:q" =
          starServer.hashes.get? "ab:q" := by
  obtain ⟨answers, kept, others⟩ := redis_engine_agrees RedisServer.serves_execute starSpace
    [.setField "?" "h" "3", .removeFields "p" ["f", "f", "g"]] starServer
  obtain ⟨hashes, answered, agree⟩ := answers (.hashesStarting "")
  have inMemory : (((starSpace.mirror starServer).afterCalls
      [.setField "?" "h" "3", .removeFields "p" ["f", "f", "g"]]).answer
        (.hashesStarting "")).1 = ["?"] := by decide +kernel
  have left : ((starSpace.mirror starServer).afterCalls
      [.setField "?" "h" "3", .removeFields "p" ["f", "f", "g"]]).hashes = ["?"] := by
    decide +kernel
  have outside (hash : String) : "ab:q" ≠ starSpace.key hash := by
    intro same
    have none : starSpace.hash? "ab:q" = none := by decide +kernel
    rw [same, RedisStore.hash?_key] at none
    cases none
  exact ⟨RedisServer.serves_execute, ⟨hashes, answered, inMemory ▸ agree⟩,
    (congrArg Snapshot.hashes kept).trans left, others "ab:q" outside⟩

end AlertLedger
