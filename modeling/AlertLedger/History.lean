import AlertLedger.HistoryPage
import AlertLedger.OrderedTable

namespace AlertLedger

/-- Adds an alert to the first open page, or opens a new one behind the others. -/
def pushPage (capacity : UInt32) (s : Summary) (t : Binary64) : List Page → List Page
  | [] => [.opening s t]
  | p :: ps => if p.isOpen capacity then p.push s t :: ps else p :: pushPage capacity s t ps

/-- The pages of every chain that has some, in the order in which they were opened. -/
structure History where
  chains : OrderedTable String (List Page)

namespace History

def empty : History := ⟨.empty⟩

def pages (h : History) (chain : String) : List Page := (h.chains.get? chain).getD []

/-- The chains that have pages, ascending. -/
def names (h : History) : List String := h.chains.keys

def push (h : History) (chain : String) (s : Summary) (t : Binary64) (capacity : UInt32) :
    History :=
  ⟨h.chains.set chain (pushPage capacity s t (h.pages chain))⟩

@[simp] theorem pages_empty (chain : String) : empty.pages chain = [] := rfl

@[simp] theorem pages_push (h : History) (chain other : String) (s : Summary) (t : Binary64)
    (capacity : UInt32) :
    (h.push chain s t capacity).pages other =
      if other = chain then pushPage capacity s t (h.pages chain) else h.pages other := by
  by_cases ho : other = chain <;> simp [pages, push, ho]

@[simp] theorem mem_names_push {h : History} {chain other : String} {s : Summary} {t : Binary64}
    {capacity : UInt32} :
    other ∈ (h.push chain s t capacity).names ↔ other = chain ∨ other ∈ h.names := by
  simp only [names, push, OrderedTable.mem_keys_iff, OrderedTable.get?_set]
  by_cases ho : other = chain <;> simp [ho]

end History

end AlertLedger
