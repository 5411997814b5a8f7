namespace AlertLedger

/-- The conditions that monitors report about a node, a repository or a system. -/
inductive Metric
  | openFileDescriptors
  | systemCpuUsage
  | systemStorageUsage
  | systemRamUsage
  | systemIsDown
  | metricNotFound
  | invalidUrl
  | githubRelease
  | cannotAccessGithub
  | nodeIsDown
  | missedBlocks
  | noChangeInBlockHeight
  | blockHeightDifference
  | slashed
deriving DecidableEq

namespace Metric

def all : List Metric := [
  .openFileDescriptors, .systemCpuUsage, .systemStorageUsage, .systemRamUsage, .systemIsDown,
  .metricNotFound, .invalidUrl, .githubRelease, .cannotAccessGithub, .nodeIsDown, .missedBlocks,
  .noChangeInBlockHeight, .blockHeightDifference, .slashed]

/-- The name that alerts give the metric. -/
def identifier : Metric → String
  | .openFileDescriptors => "open_file_descriptors"
  | .systemCpuUsage => "system_cpu_usage"
  | .systemStorageUsage => "system_storage_usage"
  | .systemRamUsage => "system_ram_usage"
  | .systemIsDown => "system_is_down"
  | .metricNotFound => "metric_not_found"
  | .invalidUrl => "invalid_url"
  | .githubRelease => "github_release"
  | .cannotAccessGithub => "cannot_access_github"
  | .nodeIsDown => "node_is_down"
  | .missedBlocks => "missed_blocks"
  | .noChangeInBlockHeight => "no_change_in_block_height"
  | .blockHeightDifference => "block_height_difference"
  | .slashed => "slashed"

/-- What the snapshot fields of the metric start with. -/
def keyStem : Metric → String
  | .openFileDescriptors => "alert_system1"
  | .systemCpuUsage => "alert_system2"
  | .systemStorageUsage => "alert_system3"
  | .systemRamUsage => "alert_system4"
  | .systemIsDown => "alert_system5"
  | .metricNotFound => "alert_system6"
  | .invalidUrl => "alert_system7"
  | .githubRelease => "alert_github1"
  | .cannotAccessGithub => "alert_github2"
  | .nodeIsDown => "alert_node1"
  | .missedBlocks => "alert_node2"
  | .noChangeInBlockHeight => "alert_node3"
  | .blockHeightDifference => "alert_node4"
  | .slashed => "alert_node5"

/-- The snapshot field for the latest alert of the metric about `origin`. -/
def fieldKey (m : Metric) (origin : String) : String := m.keyStem ++ "_" ++ origin

end Metric

/-- What is wrong with a table of metrics, or with a name that is looked up in it. -/
inductive MetricError
  | unknown (name : String)
  | emptyStem (metric : String)
  | sharedStem (first second stem : String)
  | nestedStems (shorterMetric shorter longerMetric longer : String)
deriving DecidableEq

def MetricError.message : MetricError → String
  | .unknown name => "unknown metric: " ++ name
  | .emptyStem metric => "metric " ++ metric ++ " has an empty key prefix"
  | .sharedStem first second stem =>
    "metrics " ++ first ++ " and " ++ second ++ " share the key prefix " ++ stem
  | .nestedStems shorterMetric shorter longerMetric longer =>
    "key prefix " ++ shorter ++ " of " ++ shorterMetric ++ " is a prefix of " ++ longer ++ " of " ++
      longerMetric

namespace Metric

def find (name : String) : Except MetricError Metric :=
  match all.find? fun m => m.identifier == name with
  | some m => .ok m
  | none => .error (.unknown name)

theorem find_identifier (m : Metric) : find m.identifier = .ok m := by
  cases m <;> rfl

theorem find_eq_ok_iff {name : String} {m : Metric} : find name = .ok m ↔ m.identifier = name := by
  constructor
  · intro h
    unfold find at h
    split at h
    next found =>
      cases h
      have := List.find?_some found
      simpa using this
    next => simp at h
  · rintro rfl
    exact find_identifier m

/-- The snapshot field for alerts of the named metric about `origin`. -/
def fieldKeyOf (name origin : String) : Except MetricError String :=
  (find name).map (·.fieldKey origin)

theorem fieldKeyOf_eq_ok_iff {name origin field : String} :
    fieldKeyOf name origin = .ok field ↔
      ∃ m : Metric, m.identifier = name ∧ m.fieldKey origin = field := by
  simp only [← find_eq_ok_iff, fieldKeyOf]
  cases find name <;> simp [Except.map]

theorem fieldKeyOf_identifier (m : Metric) (origin : String) :
    fieldKeyOf m.identifier origin = .ok (m.fieldKey origin) :=
  fieldKeyOf_eq_ok_iff.mpr ⟨m, rfl, rfl⟩

/-- The fault between two entries of a table of names and stems, if there is one. -/
def stemClash? (a b : String × String) : Option MetricError :=
  if a.2 = b.2 then some (.sharedStem a.1 b.1 a.2)
  else if a.2.toList.isPrefixOf b.2.toList then some (.nestedStems a.1 a.2 b.1 b.2)
  else if b.2.toList.isPrefixOf a.2.toList then some (.nestedStems b.1 b.2 a.1 a.2)
  else none

/-- The first clash between an entry and a later one. -/
def firstStemClash? : List (String × String) → Option MetricError
  | [] => none
  | a :: rest => (rest.findSome? (stemClash? a)).or (firstStemClash? rest)

/-- A table is sound when no stem is empty, none occurs twice, and none starts another one. -/
def checkTable (table : List (String × String)) : Except MetricError Unit :=
  match table.find? fun entry => entry.2 == "" with
  | some entry => .error (.emptyStem entry.1)
  | none =>
    match firstStemClash? table with
    | some e => .error e
    | none => .ok ()

def checkAll : Except MetricError Unit := checkTable (all.map fun m => (m.identifier, m.keyStem))

/-- Every name that producers may use has to be a metric; the first that is not is reported. -/
def checkNames : List String → Except MetricError Unit
  | [] => .ok ()
  | name :: names =>
    match find name with
    | .error e => .error e
    | .ok _ => checkNames names

def checkPermitted (names : List String) : Except MetricError Unit :=
  match checkAll with
  | .error e => .error e
  | .ok () => checkNames names

end Metric

end AlertLedger
