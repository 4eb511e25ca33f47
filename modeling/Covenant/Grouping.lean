import Std.Data.TreeMap

/-!
# Grouping by key

A list of keyed items, gathered key by key: each key keeps its items in the order of the list, and
the keys are in the order of their code points. Constraints are grouped by variable, and so are
the values bound to a variable.
-/

namespace Covenant

variable {α : Type}

/-- The items of each key, in the order of the list. -/
def groupByKey (entries : List (String × α)) : Std.TreeMap String (List α) :=
  entries.foldl
    (fun groups entry => groups.alter entry.1 fun group => some (group.getD [] ++ [entry.2])) ∅

/-- The items of a key, in the order of the list. -/
def itemsOf (key : String) (entries : List (String × α)) : List α :=
  (entries.filter fun entry => entry.1 = key).map (·.2)

@[simp] theorem itemsOf_nil (key : String) : itemsOf key ([] : List (String × α)) = [] := rfl

theorem itemsOf_cons (key : String) (entry : String × α) (entries : List (String × α)) :
    itemsOf key (entry :: entries) =
      if entry.1 = key then entry.2 :: itemsOf key entries else itemsOf key entries := by
  by_cases h : entry.1 = key <;> simp [itemsOf, h]

@[simp] theorem itemsOf_append (key : String) (xs ys : List (String × α)) :
    itemsOf key (xs ++ ys) = itemsOf key xs ++ itemsOf key ys := by
  simp [itemsOf]

theorem mem_itemsOf {key : String} {entries : List (String × α)} {item : α} :
    item ∈ itemsOf key entries ↔ (key, item) ∈ entries := by
  simp [itemsOf]

/-- The group of a key holds its items in order, and a key without items has no group. -/
theorem getElem?_groupByKey (entries : List (String × α)) (key : String) :
    (groupByKey entries)[key]? =
      if itemsOf key entries = [] then none else some (itemsOf key entries) := by
  suffices general : ∀ groups : Std.TreeMap String (List α), (∀ k : String, groups[k]? ≠ some []) →
      (entries.foldl
        (fun groups entry => groups.alter entry.1 fun group => some (group.getD [] ++ [entry.2]))
        groups)[key]? =
      if groups[key]?.getD [] ++ itemsOf key entries = [] then none
      else some (groups[key]?.getD [] ++ itemsOf key entries) by
    simpa [groupByKey] using general ∅ (by simp)
  induction entries with
  | nil =>
    intro groups nonempty
    cases h : groups[key]? with
    | none => simp [itemsOf, h]
    | some group =>
      have := nonempty key
      simp_all [itemsOf]
  | cons entry entries ih =>
    intro groups nonempty
    have step :
        (groups.alter entry.1 fun group => some (group.getD [] ++ [entry.2]))[key]?.getD [] ++
            itemsOf key entries =
          groups[key]?.getD [] ++ itemsOf key (entry :: entries) := by
      by_cases h : entry.1 = key <;> simp [Std.TreeMap.getElem?_alter, h, itemsOf]
    rw [List.foldl_cons, ih, step]
    · intro k
      rw [Std.TreeMap.getElem?_alter]
      split
      · simp
      · exact nonempty k

/-- The groups are the keys with items, each with its items. -/
theorem mem_toList_groupByKey {entries : List (String × α)} {key : String} {items : List α} :
    (key, items) ∈ (groupByKey entries).toList ↔ items = itemsOf key entries ∧ items ≠ [] := by
  rw [Std.TreeMap.mem_toList_iff_getElem?_eq_some, getElem?_groupByKey]
  by_cases h : itemsOf key entries = []
  · rw [if_pos h, h]
    simp
  · rw [if_neg h, Option.some.injEq, eq_comm]
    exact ⟨fun heq => ⟨heq, heq ▸ h⟩, fun heq => heq.1⟩

end Covenant
