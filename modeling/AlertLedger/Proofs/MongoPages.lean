import AlertLedger.MongoStore
import AlertLedger.Proofs.HistoryBlocks

namespace AlertLedger

/-- The same fields with the same values, in any order. The id that a server gives a document is
its own matter. -/
def MongoDocument.Same (d e : MongoDocument) : Prop :=
  ∀ field, field ≠ "_id" → d.lookup field = e.lookup field

theorem MongoDocument.Same.trans {d e f : MongoDocument} (hd : d.Same e) (he : e.Same f) :
    d.Same f := fun field own => (hd field own).trans (he field own)

/-- A count as a field holds it: in 64 bits as soon as 32 bits with a sign are too few. -/
def MongoValue.ofCount (n : UInt32) : MongoValue :=
  if n.toNat < Nat.pow 2 31 then .int32 (.ofInt n.toNat) else .int64 (.ofInt n.toNat)

/-- A page as a collection keeps it, with a document of its own for each alert. -/
def Page.document (p : Page) : MongoDocument := [
  ("doc_type", .text p.kind),
  ("alerts", .list (p.alerts.map fun s => .document [
    ("origin", .text s.origin), ("alert_name", .text s.name), ("severity", .text s.severity),
    ("message", .text s.message), ("metric", .text s.metric), ("timestamp", .text s.timestamp)])),
  ("first", .double p.first), ("last", .double p.last), ("n_alerts", .ofCount p.count)]

namespace Binary64

theorem isFinite_min {x y : Binary64} (hx : x.isFinite) (hy : y.isFinite) :
    (x.min y).isFinite := by
  unfold min
  split
  · exact hy
  · exact hx
  · split
    · exact hx
    · exact hy

theorem isFinite_max {x y : Binary64} (hx : x.isFinite) (hy : y.isFinite) :
    (x.max y).isFinite := by
  unfold max
  split
  · exact hy
  · exact hx
  · split
    · exact hx
    · exact hy

end Binary64

namespace MongoUpsert

/-- Whichever document a server picks, it can make the changes. -/
def Fits (u : MongoUpsert) (ds : List MongoDocument) : Prop :=
  (∀ d ∈ ds, u.selects d → (u.change? d).isSome) ∧
    ((∀ d ∈ ds, ¬ u.selects d) → (u.change? u.seed).isSome)

/-- All numbers that the changes compare are finite. -/
def ComparesFinite (u : MongoUpsert) (ds : List MongoDocument) : Prop :=
  ∀ field x, .lower field x ∈ u.changes ∨ .raise field x ∈ u.changes →
    x.isFinite ∧ ∀ d ∈ ds, ∀ y, d.lookup field = some (.double y) → y.isFinite

end MongoUpsert

/-- A server that takes commands by `send` and does what is documented for them, collections of
other names than those of `valid` apart. How it compares numbers that are not finite is left
open. -/
structure MongoCommand.Served {σ : Type} (valid : String → Prop)
    (send : MongoCommand → σ → MongoReply × σ) (contents : σ → String → List MongoDocument) :
    Prop where
  takes : ∀ c s, valid c.collection → c.upsert.Fits (contents s c.collection) →
    (send c s).1 ≠ .refused
  effect : ∀ c s, (send c s).1 ≠ .refused → c.upsert.ComparesFinite (contents s c.collection) →
    ∃ ds, c.upsert.Makes (contents s c.collection) ds ∧
      List.Forall₂ MongoDocument.Same (contents (send c s).2 c.collection) ds
  others : ∀ c s name, name ≠ c.collection → contents (send c s).2 name = contents s name

section

variable {capacity : UInt32} {d : MongoDocument} {ds : List MongoDocument} {p : Page}
  {pages : List Page} {e : HistoryEntry}

theorem MongoValue.ofCount_eq (n : UInt32) :
    (n.toNat < Nat.pow 2 31 ∧ ofCount n = .int32 (.ofInt n.toNat) ∧
      (Int32.ofInt n.toNat).toInt = n.toNat) ∨
    (Nat.pow 2 31 ≤ n.toNat ∧ ofCount n = .int64 (.ofInt n.toNat) ∧
      (Int64.ofInt n.toNat).toInt = n.toNat) := by
  have limit := n.toNat_lt
  by_cases short : n.toNat < Nat.pow 2 31
  · have bound : n.toNat < 2147483648 := short
    exact .inl ⟨short, if_pos short, Int32.toInt_ofInt_of_le (by omega) (by omega)⟩
  · exact .inr ⟨Nat.le_of_not_lt short, if_neg short,
      Int64.toInt_ofInt_of_le (by omega) (by omega)⟩

theorem MongoChange.integer?_count (n : UInt32) :
    integer? n.toNat = some (.ofCount n) := by
  unfold integer?
  rcases MongoValue.ofCount_eq n with ⟨_, value, narrow⟩ | ⟨long, value, wide⟩
  · rw [value, if_pos narrow]
  · have fits := (Int32.ofInt n.toNat).toInt_lt
    have long : 2147483648 ≤ n.toNat := long
    rw [value, if_neg (by omega), if_pos wide]

/-- A count that grows passes from 32 to 64 bits by itself. -/
theorem MongoChange.value?_add_one {field : String} {n : UInt32} (room : n < capacity)
    (h : d.lookup field = some (.ofCount n)) :
    (add field 1).value? d = some (.ofCount (n + 1)) := by
  have limit := capacity.toNat_lt
  have next : (n.toNat : Int) + 1 = (n + 1).toNat := by
    have one : (1 : UInt32).toNat = 1 := rfl
    rw [UInt32.lt_iff_toNat_lt] at room
    rw [UInt32.toNat_add]
    omega
  have one : (1 : Int32).toInt = 1 := rfl
  rcases MongoValue.ofCount_eq n with ⟨_, value, narrow⟩ | ⟨long, value, wide⟩
  · rw [value] at h
    simp only [value?, h, narrow, one, next, integer?_count]
  · rw [value] at h
    simp only [value?, h, wide, one, next]
    rcases MongoValue.ofCount_eq (n + 1) with ⟨short, _⟩ | ⟨_, value, wide⟩
    · omega
    · rw [value, if_pos wide]

/-- The bound of a filter has 64 bits with a sign, which hold every capacity. -/
theorem MongoCondition.holds_below {field : String} {n : UInt32}
    (h : d.lookup field = some (.ofCount n)) :
    (below field (.ofNat capacity.toNat)).holds d = decide (n < capacity) := by
  have room := capacity.toNat_lt
  have bound : (Int64.ofNat capacity.toNat).toInt = capacity.toNat :=
    Int64.toInt_ofNat_of_lt (by omega)
  rcases MongoValue.ofCount_eq n with ⟨_, value, narrow⟩ | ⟨_, value, wide⟩
  · rw [value] at h
    simp only [holds, h, narrow, bound, UInt32.lt_iff_toNat_lt, Int.ofNat_lt]
  · rw [value] at h
    simp only [holds, h, wide, bound, UInt32.lt_iff_toNat_lt, Int.ofNat_lt]

theorem selects_document : (MongoCommand.ofEntry e).upsert.selects p.document =
    p.isOpen e.capacity := by
  have count : p.document.lookup "n_alerts" = some (.ofCount p.count) := rfl
  simp only [MongoUpsert.selects, MongoCommand.ofEntry, List.all_cons, List.all_nil,
    MongoCondition.holds_below count, Bool.and_true]
  rfl

theorem change?_document (isOpen : p.isOpen e.capacity) :
    (MongoCommand.ofEntry e).upsert.change? p.document =
      some (p.push e.summary e.timestamp).document := by
  have room : p.count < e.capacity := by
    simp only [Page.isOpen, Bool.and_eq_true, decide_eq_true_eq] at isOpen
    exact isOpen.2
  -- the page behind the first three changes, before the fourth counts the alert
  let uncounted : Page := { p.push e.summary e.timestamp with count := p.count }
  have counted : (MongoChange.add "n_alerts" 1).applyTo? uncounted.document =
      some (p.push e.summary e.timestamp).document := by
    have value : (MongoChange.add "n_alerts" 1).value? uncounted.document =
      some (.ofCount (p.count + 1)) := MongoChange.value?_add_one room rfl
    rw [MongoChange.applyTo?, value]
    rfl
  rw [← counted]
  simp only [Page.document, uncounted, Page.push, List.map_append, List.map_cons, List.map_nil]
  exact Option.bind_fun_some _

theorem change?_seed : (MongoCommand.ofEntry e).upsert.change?
    (MongoCommand.ofEntry e).upsert.seed =
      some (Page.opening e.summary e.timestamp).document := by
  rfl

end

theorem MongoChange.value?_congr {c : MongoChange} {d e : MongoDocument}
    (h : d.lookup c.field = e.lookup c.field) : c.value? d = c.value? e := by
  cases c <;> simp only [field] at h <;> simp only [value?, h]

theorem MongoCondition.holds_congr {c : MongoCondition} {d e : MongoDocument}
    (h : d.lookup c.written.1 = e.lookup c.written.1) : c.holds d = c.holds e := by
  cases c <;> simp only [written] at h <;> simp only [holds, h]

namespace MongoDocument.Same

variable {d e : MongoDocument} {u : MongoUpsert}

theorem set (same : d.Same e) (field : String) (v : MongoValue) :
    MongoDocument.Same (MongoDocument.set field v d) (MongoDocument.set field v e) := by
  intro other own
  rw [MongoDocument.lookup_set, MongoDocument.lookup_set, same other own]

theorem selects (same : d.Same e) (own : ∀ c ∈ u.conditions, c.written.1 ≠ "_id") :
    u.selects d = u.selects e := by
  unfold MongoUpsert.selects
  rw [Bool.eq_iff_iff, List.all_eq_true, List.all_eq_true]
  refine forall₂_congr fun c hc => ?_
  rw [MongoCondition.holds_congr (same _ (own c hc))]

/-- Neither the order of the fields nor a server's id matters to the changes. -/
theorem change? (same : d.Same e) (own : ∀ c ∈ u.changes, c.field ≠ "_id")
    {changed : MongoDocument} (h : u.change? e = some changed) :
    ∃ made, u.change? d = some made ∧ made.Same changed := by
  obtain ⟨conditions, changes⟩ := u
  unfold MongoUpsert.change? at *
  dsimp only at *
  induction changes generalizing d e with
  | nil =>
    cases h
    exact ⟨d, rfl, same⟩
  | cons c cs ih =>
    obtain ⟨first, value, rest⟩ := Option.bind_eq_some_iff.mp h
    obtain ⟨v, hv, rfl⟩ := Option.map_eq_some_iff.mp value
    obtain ⟨made, change, alike⟩ :=
      ih (same.set c.field v) (fun b hb => own b (List.mem_cons_of_mem c hb)) rest
    refine ⟨made, ?_, alike⟩
    have same := MongoChange.value?_congr (same _ (own c List.mem_cons_self))
    rw [List.foldlM_cons, MongoChange.applyTo?, same, hv]
    exact change

end MongoDocument.Same

/-- The page as a collection keeps it, whatever its order and its id are. -/
def Page.KeptAs (p : Page) (d : MongoDocument) : Prop := d.Same p.document

theorem keptAs_of_same {pages : List Page} {ds es : List MongoDocument}
    (kept : List.Forall₂ Page.KeptAs pages ds) (same : List.Forall₂ MongoDocument.Same es ds) :
    List.Forall₂ Page.KeptAs pages es := by
  induction same generalizing pages with
  | nil => exact kept
  | cons he _ ih =>
    obtain ⟨p, ps, hd, hds, rfl⟩ := List.forall₂_cons_right_iff.mp kept
    exact .cons (he.trans hd) (ih hds)

/-- A collection with the pages of a chain. Only the last one may be open, so that a server has no
choice. -/
structure KeepsPages (capacity : UInt32) (pages : List Page) (ds : List MongoDocument) : Prop where
  kept : List.Forall₂ Page.KeptAs pages ds
  finite : ∀ p ∈ pages, p.first.isFinite ∧ p.last.isFinite
  full : ∀ p ∈ pages.dropLast, p.isOpen capacity = false

section

variable {d : MongoDocument} {ds made : List MongoDocument} {p : Page} {pages : List Page}
  {e : HistoryEntry}

theorem Page.KeptAs.first (kept : p.KeptAs d) : d.lookup "first" = some (.double p.first) :=
  kept _ (by decide)

theorem Page.KeptAs.last (kept : p.KeptAs d) : d.lookup "last" = some (.double p.last) :=
  kept _ (by decide)

theorem Page.KeptAs.count (kept : p.KeptAs d) : d.lookup "n_alerts" = some (.ofCount p.count) :=
  kept _ (by decide)

theorem Page.KeptAs.selects_eq (kept : p.KeptAs d) :
    (MongoCommand.ofEntry e).upsert.selects d = p.isOpen e.capacity := by
  have same : d.Same p.document := kept
  rw [same.selects (by simp [MongoCommand.ofEntry, MongoCondition.written]), selects_document]

theorem Page.KeptAs.exists_change (kept : p.KeptAs d) (isOpen : p.isOpen e.capacity) :
    ∃ changed, (MongoCommand.ofEntry e).upsert.change? d = some changed ∧
      (p.push e.summary e.timestamp).KeptAs changed := by
  have same : d.Same p.document := kept
  exact same.change? (by simp [MongoCommand.ofEntry, MongoChange.field]) (change?_document isOpen)

namespace KeepsPages

theorem exists_page (h : KeepsPages e.capacity pages ds) (hd : d ∈ ds) :
    ∃ p ∈ pages, p.KeptAs d :=
  exists_of_forall₂ (List.Forall₂.flip (R := flip Page.KeptAs) h.kept) d hd

/-- The documents that an upsert may find are the open pages, and it fits these. -/
theorem fits (h : KeepsPages e.capacity pages ds) : (MongoCommand.ofEntry e).upsert.Fits ds := by
  refine ⟨?_, fun _ => rfl⟩
  intro d hd selected
  obtain ⟨p, _, kept⟩ := h.exists_page hd
  rw [kept.selects_eq] at selected
  obtain ⟨changed, change, _⟩ := kept.exists_change selected
  rw [change]
  rfl

theorem comparesFinite (h : KeepsPages e.capacity pages ds) (finite : e.timestamp.isFinite) :
    (MongoCommand.ofEntry e).upsert.ComparesFinite ds := by
  intro field x compared
  have bound : (field = "first" ∨ field = "last") ∧ x = e.timestamp := by
    simp only [MongoCommand.ofEntry, List.mem_cons, List.not_mem_nil, or_false, reduceCtorEq,
      false_or, MongoChange.lower.injEq, MongoChange.raise.injEq] at compared
    tauto
  obtain ⟨field, rfl⟩ := bound
  refine ⟨finite, ?_⟩
  intro d hd y held
  obtain ⟨p, hp, kept⟩ := h.exists_page hd
  obtain ⟨first, last⟩ := h.finite p hp
  rcases field with rfl | rfl
  · rw [kept.first] at held
    cases held
    exact first
  · rw [kept.last] at held
    cases held
    exact last

/-- What a server may make of a collection is what memory makes of the pages. -/
theorem push (h : KeepsPages e.capacity pages ds) (finite : e.timestamp.isFinite)
    (makes : (MongoCommand.ofEntry e).upsert.Makes ds made) :
    KeepsPages e.capacity (pushPage e.capacity e.summary e.timestamp pages) made := by
  obtain ⟨kept, bounds, full⟩ := h
  cases makes with
  | @changed d changed front back selected change =>
    have before := List.forall₂_take_append pages front (d :: back) kept
    obtain ⟨p, later, hd, hback, rest⟩ :=
      List.forall₂_cons_right_iff.mp (List.forall₂_drop_append pages front (d :: back) kept)
    have hpages : pages = pages.take front.length ++ p :: later := by
      rw [← rest, List.take_append_drop]
    generalize pages.take front.length = earlier at before hpages
    subst hpages
    rw [hd.selects_eq] at selected
    rw [List.dropLast_append_of_ne_nil (by simp)] at full
    -- the page that the server picked is open, so it is the last one
    obtain rfl : later = [] := by
      cases later with
      | nil => rfl
      | cons q qs => simp [full p (by simp)] at selected
    obtain rfl := List.forall₂_nil_left_iff.mp hback
    have closed : ∀ q ∈ earlier, q.isOpen e.capacity = false := fun q hq => full q (by simp [hq])
    obtain ⟨_, change', pushed⟩ := hd.exists_change selected
    rw [change] at change'
    cases change'
    rw [pushPage_append closed, pushPage, if_pos selected]
    refine ⟨List.rel_append before (.cons pushed .nil), ?_, ?_⟩
    · intro q hq
      rcases List.mem_append.mp hq with hq | hq
      · exact bounds q (List.mem_append_left _ hq)
      · obtain ⟨first, last⟩ := bounds p (by simp)
        rw [List.mem_singleton.mp hq]
        exact ⟨Binary64.isFinite_min first finite, Binary64.isFinite_max last finite⟩
    · rw [List.dropLast_concat]
      exact closed
  | @added _ added none_selected change =>
    have closed : ∀ p ∈ pages, p.isOpen e.capacity = false := by
      intro p hp
      obtain ⟨d, hd, kept⟩ := exists_of_forall₂ kept p hp
      have unselected := none_selected d hd
      rwa [kept.selects_eq, Bool.not_eq_true] at unselected
    have pushed : pushPage e.capacity e.summary e.timestamp (pages ++ []) =
      pages ++ [.opening e.summary e.timestamp] := pushPage_append closed
    rw [List.append_nil] at pushed
    rw [change?_seed] at change
    cases change
    rw [pushed]
    refine ⟨List.rel_append kept (.cons (fun _ _ => rfl) .nil), ?_, ?_⟩
    · intro p hp
      rcases List.mem_append.mp hp with hp | hp
      · exact bounds p hp
      · rw [List.mem_singleton.mp hp]
        exact ⟨finite, finite⟩
    · show ∀ p ∈ (pages ++ [Page.opening e.summary e.timestamp]).dropLast, _
      rw [List.dropLast_concat]
      exact closed

end KeepsPages

end

/-- What a server keeps after these alerts. -/
def MongoStore.afterEntries {σ : Type} (send : MongoCommand → σ → MongoReply × σ)
    (entries : List HistoryEntry) (s : σ) : σ :=
  entries.foldl (fun s e => (push send e s).2) s

namespace MongoCommand.Served

variable {σ : Type} {valid : String → Prop} {send : MongoCommand → σ → MongoReply × σ}
  {contents : σ → String → List MongoDocument} {capacity : UInt32} {h : History} {s : σ}

theorem push (served : Served valid send contents)
    (keeps : ∀ chain, KeepsPages capacity (h.pages chain) (contents s chain)) {e : HistoryEntry}
    (usual : e.capacity = capacity) (finite : e.timestamp.isFinite) (named : valid e.chain) :
    (MongoStore.push send e s).1 = .ok () ∧
      ∀ chain, KeepsPages capacity ((h.push e.chain e.summary e.timestamp e.capacity).pages chain)
        (contents (MongoStore.push send e s).2 chain) := by
  subst usual
  have taken := served.takes (.ofEntry e) s named (keeps e.chain).fits
  obtain ⟨ds, makes, same⟩ :=
    served.effect (.ofEntry e) s taken ((keeps e.chain).comparesFinite finite)
  have pushed := (keeps e.chain).push finite makes
  constructor
  · unfold MongoStore.push
    dsimp only
    cases hr : (send (.ofEntry e) s).1 with
    | changed => rfl
    | added => rfl
    | refused => exact absurd hr taken
  · intro chain
    rw [History.pages_push]
    split
    next own =>
      rw [own]
      exact ⟨keptAs_of_same pushed.kept same, pushed.finite, pushed.full⟩
    next other =>
      have unchanged := served.others (.ofEntry e) s chain other
      have before := keeps chain
      rwa [← unchanged] at before

theorem afterEntries (served : Served valid send contents)
    (keeps : ∀ chain, KeepsPages capacity (h.pages chain) (contents s chain))
    {entries : List HistoryEntry} (usual : ∀ e ∈ entries, e.capacity = capacity)
    (finite : ∀ e ∈ entries, e.timestamp.isFinite) (named : ∀ e ∈ entries, valid e.chain)
    (chain : String) :
    KeepsPages capacity ((h.afterEntries entries).pages chain)
      (contents (MongoStore.afterEntries send entries s) chain) := by
  induction entries generalizing h s with
  | nil => exact keeps chain
  | cons e rest ih =>
    obtain ⟨usual, usual'⟩ := List.forall_mem_cons.mp usual
    obtain ⟨first, finite⟩ := List.forall_mem_cons.mp finite
    obtain ⟨name, named⟩ := List.forall_mem_cons.mp named
    exact ih (served.push keeps usual first name).2 usual' finite named

end MongoCommand.Served

/-- At a server, and in memory: every alert is taken, and then each collection has the pages of its
chain, in their order, with the same fields. Which of the documents that match the server picks
makes no difference. -/
theorem mongo_engine_agrees {σ : Type} {valid : String → Prop}
    {send : MongoCommand → σ → MongoReply × σ} {contents : σ → String → List MongoDocument}
    (served : MongoCommand.Served valid send contents) (capacity : UInt32)
    (entries : List HistoryEntry) (usual : ∀ e ∈ entries, e.capacity = capacity)
    (finite : ∀ e ∈ entries, e.timestamp.isFinite) (named : ∀ e ∈ entries, valid e.chain) (s : σ)
    (empty : ∀ chain, contents s chain = []) :
    (∀ before e after, entries = before ++ e :: after →
      (MongoStore.push send e (MongoStore.afterEntries send before s)).1 = .ok ()) ∧
    ∀ chain, List.Forall₂ Page.KeptAs ((History.empty.afterEntries entries).pages chain)
      (contents (MongoStore.afterEntries send entries s) chain) := by
  have start (chain : String) :
      KeepsPages capacity (History.empty.pages chain) (contents s chain) := by
    rw [empty chain]
    exact ⟨.nil, by simp, by simp⟩
  constructor
  · rintro before e after rfl
    have usual' : ∀ e ∈ before, e.capacity = capacity := fun e he => usual e (by simp [he])
    have keeps := served.afterEntries start usual' (fun e he => finite e (by simp [he]))
      (fun e he => named e (by simp [he]))
    exact (served.push keeps (usual e (by simp)) (finite e (by simp)) (named e (by simp))).1
  · intro chain
    exact (served.afterEntries start usual finite named chain).kept

namespace MongoUpsert

variable {u : MongoUpsert} {ds made : List MongoDocument}

/-- Changes the first document that matches. -/
def execute? (u : MongoUpsert) : List MongoDocument → Option (List MongoDocument)
  | [] => (u.change? u.seed).map ([·])
  | d :: ds =>
    if u.selects d then (u.change? d).map (· :: ds) else (u.execute? ds).map (d :: ·)

theorem makes_of_execute? (h : u.execute? ds = some made) : u.Makes ds made := by
  induction ds generalizing made with
  | nil =>
    obtain ⟨e, change, rfl⟩ := Option.map_eq_some_iff.mp h
    have none_selected : ∀ d ∈ ([] : List MongoDocument), ¬ u.selects d := by simp
    exact .added none_selected change
  | cons d ds ih =>
    rw [execute?] at h
    split at h
    next selected =>
      obtain ⟨e, change, rfl⟩ := Option.map_eq_some_iff.mp h
      exact .changed [] ds selected change
    next unselected =>
      obtain ⟨later, executed, rfl⟩ := Option.map_eq_some_iff.mp h
      cases ih executed with
      | changed front back selected change => exact .changed (d :: front) back selected change
      | added none_selected change =>
        exact .added (List.forall_mem_cons.mpr ⟨unselected, none_selected⟩) change

theorem execute?_isSome_of_fits (h : u.Fits ds) : (u.execute? ds).isSome := by
  induction ds with
  | nil => simpa [execute?] using h.2 (by simp)
  | cons d ds ih =>
    rw [execute?]
    split
    next selected => simpa using h.1 d List.mem_cons_self selected
    next unselected =>
      rw [Option.isSome_map]
      exact ih ⟨fun e he => h.1 e (List.mem_cons_of_mem d he),
        fun none => h.2 (List.forall_mem_cons.mpr ⟨unselected, none⟩)⟩

end MongoUpsert

/-- A server that takes every name of a collection but the empty one. -/
def MongoCommand.execute (c : MongoCommand) (s : String → List MongoDocument) :
    MongoReply × (String → List MongoDocument) :=
  if c.collection = "" then (.refused, s)
  else
    match c.upsert.execute? (s c.collection) with
    | some ds => (.changed, fun name => if name = c.collection then ds else s name)
    | none => (.refused, s)

theorem MongoCommand.served_execute : Served (· ≠ "") execute id := by
  refine ⟨?_, ?_, ?_⟩
  · intro c s named fits
    obtain ⟨ds, made⟩ := Option.isSome_iff_exists.mp (MongoUpsert.execute?_isSome_of_fits fits)
    simp only [id] at made
    simp [execute, named, made]
  · intro c s taken _
    unfold execute at *
    split at taken
    next => exact absurd rfl taken
    next named =>
      split at taken
      next ds made =>
        refine ⟨ds, MongoUpsert.makes_of_execute? made, ?_⟩
        simp only [named, if_false, if_true, id]
        exact List.forall₂_same.mpr fun d _ => fun _ _ => rfl
      next => exact absurd rfl taken
  · intro c s name other
    unfold execute
    split
    · rfl
    · split
      · exact if_neg other
      · rfl

def secondsEntry (chain : String) (seconds : Int) : HistoryEntry :=
  ⟨chain, .ofAlert (missedBlocks chain seconds), .ofInt seconds, 2⟩

/-- With a capacity of two, the third alert of a chain has a document of its own. -/
theorem mongo_engine_agrees_at_capacity :
    MongoCommand.Served (· ≠ "") MongoCommand.execute id ∧
      ∃ first second, MongoStore.afterEntries MongoCommand.execute
        [secondsEntry "p" 50, secondsEntry "q" 20, secondsEntry "p" 10, secondsEntry "p" 90]
        (fun _ => []) "p" = [first, second] ∧
      first.lookup "first" = some (.double (.ofInt 10)) ∧
      first.lookup "last" = some (.double (.ofInt 50)) ∧
      second.lookup "n_alerts" = some (.int32 1) := by
  obtain ⟨_, kept⟩ := mongo_engine_agrees MongoCommand.served_execute 2
    [secondsEntry "p" 50, secondsEntry "q" 20, secondsEntry "p" 10, secondsEntry "p" 90]
    (by decide +kernel) (by decide +kernel) (by decide +kernel) (fun _ => []) (fun _ => rfl)
  have pages : (History.empty.afterEntries
      [secondsEntry "p" 50, secondsEntry "q" 20, secondsEntry "p" 10, secondsEntry "p" 90]).pages
        "p" = [⟨alertPageKind, 2, [.ofAlert (missedBlocks "p" 50), .ofAlert (missedBlocks "p" 10)],
          .ofInt 10, .ofInt 50⟩, .opening (.ofAlert (missedBlocks "p" 90)) (.ofInt 90)] := by
    decide +kernel
  have kept := kept "p"
  simp only [pages, id] at kept
  obtain ⟨first, later, hfirst, keptLater, documents⟩ := List.forall₂_cons_left_iff.mp kept
  obtain ⟨second, none, hsecond, keptNone, rfl⟩ := List.forall₂_cons_left_iff.mp keptLater
  obtain rfl := List.forall₂_nil_left_iff.mp keptNone
  refine ⟨MongoCommand.served_execute, first, second, documents, ?_, ?_, hsecond.count⟩
  · simp only [hfirst.first]
  · simp only [hfirst.last]

end AlertLedger
