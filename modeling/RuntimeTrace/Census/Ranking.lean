/-!
# Rankings

A census counts by name and reports by weight: the heaviest names first, names of
equal weight in order of their code points.  When no name occurs twice the report
does not depend on the order in which the census met the names.
-/

namespace RuntimeTrace

/-- Whether an entry may stand before another: it weighs more, or as much and its
name does not come later. -/
def ranksBefore {α : Type} (weight : α → Nat) (a b : String × α) : Bool :=
  weight b.2 < weight a.2 || (weight b.2 == weight a.2 && !(decide (b.1 < a.1)))

/-- Entries by falling weight, then by name. -/
def ranking {α : Type} (weight : α → Nat) (entries : List (String × α)) : List (String × α) :=
  entries.mergeSort (ranksBefore weight)

end RuntimeTrace
