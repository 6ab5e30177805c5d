import Sieve.Event.Dialect

/-!
# Differences of object states

The functions of `event_delta.py` and of the coordinator's `event.go` that both sides have, with the
dialect as a parameter:

* `diffEventAsMap`: what two states do not share, or nothing when they are equal;
* `canonicalizeEventAsMap`: masks volatile values in place;
* `partOfEventAsMap`: is every field of one state in another?
-/

namespace Sieve.Event

/-- Marks a list item that both lists share. -/
def SIEVE_IDX_SKIP : String := "SIEVE-SKIP"

/-- Stands for a masked value. -/
def SIEVE_VALUE_MASK : String := "SIEVE-NON-NIL"

/-- What is masked for one resource: fields by their names, and fields by their paths. -/
structure Masks where
  fieldKeyMask : Finset String
  fieldPathMask : Finset String
  deriving DecidableEq

variable (d : Dialect)

def isSkip (value : Json) : Bool := value.equal d.scalarEqual (.str SIEVE_IDX_SKIP)

/-! ### Differences -/

/-- The lists are identical: both sides of the difference hold nothing but skipped items. -/
def finishList (sameLength : Bool) (diff : List Json × List Json) :
    Option (List Json × List Json) :=
  if sameLength && diff.1.all (isSkip d) && diff.2.all (isSkip d) then none else some diff

/-- The maps are identical: both sides of the difference are empty. -/
def finishMap (diff : Fields × Fields) : Option (Fields × Fields) :=
  if diff.1.isEmpty && diff.2.isEmpty then none else some diff

/-- The fields of `cur` that `prev` lacks. -/
def newFields (prev cur : Fields) : Fields :=
  cur.filter fun field => (prev.lookup field.1).isNone

mutual

/-- The body of the loops over common indices and common keys: nothing when the two values are
equal. -/
def diffValue : Json → Json → Option (Json × Json)
  | .obj prev, .obj cur =>
    let diff := diffCommonFields prev cur
    (finishMap (diff.1, diff.2 ++ newFields prev cur)).map fun diff => (.obj diff.1, .obj diff.2)
  | .arr prev, .arr cur =>
    (finishList d (prev.length == cur.length) (diffItems prev cur)).map
      fun diff => (.arr diff.1, .arr diff.2)
  | prev, cur => if prev.equal d.scalarEqual cur then none else some (prev, cur)

/-- Item by item; what one list has in excess is copied. -/
def diffItems : List Json → List Json → List Json × List Json
  | [], cur => ([], cur)
  | prev, [] => (prev, [])
  | p :: prev, c :: cur =>
    let diff := diffItems prev cur
    match diffValue p c with
    | none => (.str SIEVE_IDX_SKIP :: diff.1, .str SIEVE_IDX_SKIP :: diff.2)
    | some (p, c) => (p :: diff.1, c :: diff.2)

/-- Field by field over `prev`; a field that `cur` lacks is copied. -/
def diffCommonFields : Fields → Fields → Fields × Fields
  | [], _ => ([], [])
  | (key, p) :: prev, cur =>
    let diff := diffCommonFields prev cur
    match cur.lookup key with
    | none => ((key, p) :: diff.1, diff.2)
    | some c =>
      match diffValue p c with
      | none => diff
      | some (p, c) => ((key, p) :: diff.1, (key, c) :: diff.2)

end

def diffEventAsMap (prevEvent curEvent : Fields) : Option (Fields × Fields) :=
  let diff := diffCommonFields d prevEvent curEvent
  finishMap (diff.1, diff.2 ++ newFields prevEvent curEvent)

/-! ### Canonical states -/

variable (fieldKeyMask fieldPathMask : Finset String)

mutual

/-- The type switch on a value that is not masked as a whole. -/
def canonicalizeField : String → Json → Json
  | currentPath, .obj event => .obj (canonicalizeEventAsMap currentPath event)
  | currentPath, .arr event => .arr (canonicalizeEventAsList currentPath event)
  | _, .str s => .str (if d.isMasked s then SIEVE_VALUE_MASK else s)
  | _, value => value

def canonicalizeEventAsList : String → List Json → List Json
  | _, [] => []
  | parentPath, value :: event =>
    (if d.joinPath parentPath "*" ∈ fieldPathMask then .str SIEVE_VALUE_MASK
      else canonicalizeField (d.joinPath parentPath "*") value) ::
    canonicalizeEventAsList parentPath event

def canonicalizeEventAsMap : String → Fields → Fields
  | _, [] => []
  | parentPath, (key, value) :: event =>
    (key, if key ∈ fieldKeyMask ∨ d.joinPath parentPath key ∈ fieldPathMask
      then .str SIEVE_VALUE_MASK
      else canonicalizeField (d.joinPath parentPath key) value) ::
    canonicalizeEventAsMap parentPath event

end

/-! ### Parts -/

mutual

def partOfValue : Json → Json → Bool
  | .obj a, .obj b => partOfEventAsMap a b
  | .arr a, .arr b => a.length == b.length && partOfItems a b
  | .obj _, _ => false
  | .arr _, _ => false
  | a, b => a.equal d.scalarEqual b

def partOfItems : List Json → List Json → Bool
  | a :: as, b :: bs => (isSkip d a || partOfValue a b) && partOfItems as bs
  | _, _ => true

def partOfEventAsMap : Fields → Fields → Bool
  | [], _ => true
  | (key, a) :: as, b =>
    (match b.lookup key with
      | some b => partOfValue a b
      | none => false) && partOfEventAsMap as b

end

/-- Both writers of an update drop these two fields. -/
def trimKindApiversion (event : Fields) : Fields :=
  Fields.erase (Fields.erase event "kind") "apiVersion"

end Sieve.Event
