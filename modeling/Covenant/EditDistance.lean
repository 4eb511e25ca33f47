/-!
# Edit distance

The least number of single-character insertions, deletions and substitutions that turns one text
into another. It is computed row by row: the row of a text `a` holds the distances from `a` to
every initial part of `b`, and the row of one more character follows from it in one pass.
-/

namespace Covenant

/-- The entries of the next row after its first. The arguments are the entry to the left, and the
old entries above that one and from there on. -/
def extendRowFrom (c : Char) (left diagonal : Nat) : List Char → List Nat → List Nat
  | d :: ds, above :: row =>
    let here := min (min (above + 1) (left + 1)) (diagonal + if c = d then 0 else 1)
    here :: extendRowFrom c here above ds row
  | _, _ => []

/-- The distances to the initial parts of `b`, from a text with one more character `c` at its
end. -/
def extendRow (b : List Char) (row : List Nat) (c : Char) : List Nat :=
  match row with
  | [] => []
  | first :: row => (first + 1) :: extendRowFrom c (first + 1) first b row

/-- The distances from `a` to the initial parts of `b`, the shortest first. -/
def distanceRow (a b : List Char) : List Nat :=
  a.foldl (extendRow b) (List.range (b.length + 1))

/-- The least number of insertions, deletions and substitutions of characters that turns `a` into
`b`. -/
def editDistance (a b : String) : Nat :=
  (distanceRow a.toList b.toList).getLastD 0

/-- The candidates at a distance from one to `max` from a name: at most three, the closest first,
and in the order of their code points at equal distance. -/
def similarNames (name : String) (candidates : List String) (max : Nat) : List String :=
  let near := candidates.filterMap fun candidate =>
    let distance := editDistance name candidate
    if 0 < distance ∧ distance ≤ max then some (distance, candidate) else none
  let sorted := near.mergeSort fun a b => a.1 < b.1 || (a.1 == b.1 && a.2 ≤ b.2)
  (sorted.map (·.2)).take 3

end Covenant
