import Covenant.Class
import Covenant.Value.Typing

/-!
# Ready-made classes

Classes that contracts need again and again, and a small registry of them to start from.
-/

namespace Covenant

namespace Class

def any : Class := .predicate fun _ => true

def never : Class := .predicate fun _ => false

/-- The numbers that pass a test. -/
def numbers (test : Float → Bool) : Class := .predicate fun v => v.number?.any test

def positive : Class := numbers fun x => x > 0

def even : Class := numbers fun x => (Binary64.ofFloat x).isEven

def absBelow (bound : Float) : Class := numbers fun x => x.abs < bound

def emptyArray : Class := .predicate fun v => v.items?.any List.isEmpty

/-- The strings of fewer bytes than a bound. -/
def shorterThan (bound : Nat) : Class :=
  .predicate fun v => v.string?.any fun s => s.utf8ByteSize < bound

def ofKind (kind : String) : Class := .predicate fun v => v.kindName == kind

/-- The values whose type has the given text. -/
def ofType (text : String) : Class := .predicate fun v => v.ty.render == text

end Class

/-- A few named classes: positive numbers, objects with a name, and all values. -/
def Registry.sample : Except RegistryError Registry :=
  Registry.ofEntries [("Positive", .positive), ("Named", .shape ["name"]), ("Any", .any)]

end Covenant
