import AbnfMatching.Matching.Visit
import Std.Data.TreeMap

/-!
# Tables of results

The table of an exhaustive match files the end set of every visit that has been
completed. Nothing is ever removed from it.
-/

namespace AbnfMatching

/-- The end sets of the visits completed so far. -/
structure Table where
  entries : Std.TreeMap Visit Ends Visit.compare

namespace Table

def empty : Table :=
  ⟨∅⟩

def find? (table : Table) (visit : Visit) : Option Ends :=
  table.entries[visit]?

def insert (table : Table) (visit : Visit) (ends : Ends) : Table :=
  ⟨table.entries.insert visit ends⟩

@[simp]
theorem find?_empty (visit : Visit) :
    empty.find? visit = none := by
  simp [empty, find?]

theorem find?_insert
    (table : Table) (filed asked : Visit) (ends : Ends) :
    (table.insert filed ends).find? asked =
      if filed = asked then some ends else table.find? asked := by
  simp [find?, insert, Std.TreeMap.getElem?_insert]

end Table

end AbnfMatching
