import Std.Data.TreeMap
import Covenant.Value

/-!
# Type classes

A class is a set of values, given by a test or by the keys that its members have. A registry names
classes. A name is given once and for all: registering it again is an error.
-/

namespace Covenant

/-- A set of values. -/
inductive Class where
  /-- The values that pass a test. -/
  | predicate (test : Value → Bool)
  /-- The values that have all of some keys. -/
  | shape (keys : List String)

namespace Class

def accepts : Class → Value → Bool
  | .predicate test, v => test v
  | .shape keys, v => keys.all fun key => v.hasKey key

/-- The class of values that have the keys of a sample. A sample that is no object has none, so
every value is in its class. -/
def ofSample : Value → Class
  | .object fields => .shape (fields.map (·.1))
  | _ => .shape []

/-- How a class is shown; a test has no text. -/
def render : Class → String
  | .predicate _ => "Predicate(<fn>)"
  | .shape keys => "Shape([" ++ ", ".intercalate (keys.map Text.quoteString) ++ "])"

end Class

/-- Why a class is not registered. -/
inductive RegistryError where
  | duplicate (name : String)
deriving DecidableEq, Repr

def RegistryError.message : RegistryError → String
  | .duplicate name => "duplicate type class: " ++ name

/-- Classes by name. -/
structure Registry where
  classes : Std.TreeMap String Class

namespace Registry

def empty : Registry := ⟨∅⟩

def get? (registry : Registry) (name : String) : Option Class := registry.classes[name]?

def contains (registry : Registry) (name : String) : Bool := registry.classes.contains name

/-- The registered names, in the order of their code points. -/
def names (registry : Registry) : List String := registry.classes.keys

def size (registry : Registry) : Nat := registry.classes.size

/-- The registry with one more class, unless the name is taken. -/
def register (registry : Registry) (name : String) (c : Class) : Except RegistryError Registry :=
  if registry.contains name then .error (.duplicate name) else .ok ⟨registry.classes.insert name c⟩

/-- The registry of some named classes, unless a name occurs twice. -/
def ofEntries (entries : List (String × Class)) : Except RegistryError Registry :=
  entries.foldlM (fun registry entry => registry.register entry.1 entry.2) empty

@[simp] theorem get?_empty (name : String) : empty.get? name = none := by
  simp [get?, empty]

theorem contains_eq_isSome_get? (registry : Registry) (name : String) :
    registry.contains name = (registry.get? name).isSome := by
  simp [contains, get?]

/-- A class that is registered anew has its name from then on, and the other names keep theirs. -/
theorem get?_of_register {registry registry' : Registry} {name : String} {c : Class}
    (h : registry.register name c = .ok registry') (other : String) :
    registry'.get? other = if other = name then some c else registry.get? other := by
  unfold register at h
  split at h
  · contradiction
  · obtain rfl := Except.ok.inj h
    by_cases same : other = name
    · simp [get?, same]
    · simp [get?, Std.TreeMap.getElem?_insert, same, Ne.symm same]

end Registry

end Covenant
