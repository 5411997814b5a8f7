import AlertLedger.Alert
import AlertLedger.TextSearch

namespace AlertLedger

/-- The manager of the system monitors, as internal alerts name it in their origin. -/
def systemManager : String := "SystemAlertersManager"

def githubManager : String := "GithubAlerterManager"

/-- The codes of internal alerts that order a reset. -/
inductive ResetCode
  | allChains
  | oneChain
deriving DecidableEq

namespace ResetCode

def number : ResetCode → Int64
  | .allChains => 5000
  | .oneChain => 5001

def ofNumber? (n : Int64) : Option ResetCode :=
  if n = number .allChains then some .allChains
  else if n = number .oneChain then some .oneChain
  else none

end ResetCode

/-- An order to drop latest states from the snapshot. -/
inductive Reset
  | systemOfAllChains
  | systemOfChain (parent : String)
  | githubOfAllChains
deriving DecidableEq

/-- The chains that a reset reaches. -/
inductive ResetScope
  | allChains
  | chain (parent : String)
deriving DecidableEq

namespace Reset

/-- The reset that an alert orders. Other alerts and unknown pairs of code and origin order
none. -/
def ofAlert? (a : Alert) : Option Reset :=
  if a.isInternal then
    match ResetCode.ofNumber? a.code.number with
    | some .allChains =>
      if a.origin = systemManager then some .systemOfAllChains
      else if a.origin = githubManager then some .githubOfAllChains
      else none
    | some .oneChain => if a.origin = systemManager then some (.systemOfChain a.parent) else none
    | none => none
  else none

def scope : Reset → ResetScope
  | .systemOfAllChains | .githubOfAllChains => .allChains
  | .systemOfChain parent => .chain parent

/-- The text that a snapshot field has to contain to be dropped. -/
def marker : Reset → String
  | .systemOfAllChains | .systemOfChain _ => "alert_system"
  | .githubOfAllChains => "alert_github2"

/-- The reset drops this field, in a hash that it reaches. -/
def drops (r : Reset) (field : String) : Bool := containsText r.marker.toList field.toList

end Reset

end AlertLedger
