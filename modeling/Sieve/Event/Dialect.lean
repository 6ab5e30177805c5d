import Sieve.Event.Json

/-!
# Where the two languages differ

The learner and the coordinator compute differences of object states with the same functions, written
twice.  `Dialect` collects what the copies do not share: the equality of scalars, how a field's path
is joined, and where `$` matches in the two regular expressions for values to be masked.
-/

namespace Sieve.Event

structure Dialect where
  scalarEqual : Json → Json → Bool
  joinPath : String → String → String
  /-- Does `$` match before these remaining characters? -/
  atEnd : List Char → Bool

/-! ### Paths -/

def splitSlash : List Char → List (List Char)
  | [] => [[]]
  | c :: cs =>
    match splitSlash cs with
    | [] => [[c]]
    | w :: ws => if c == '/' then [] :: w :: ws else (c :: w) :: ws

/-- One component for `path.Clean`; `out` holds the kept components, last first. -/
def cleanStep (rooted : Bool) (out : List (List Char)) (component : List Char) :
    List (List Char) :=
  if component == [] || component == ['.'] then out
  else if component == ['.', '.'] then
    match out with
    | last :: rest => if last == ['.', '.'] then component :: out else rest
    | [] => if rooted then [] else [component]
  else component :: out

/-- Go's `path.Clean`. -/
def goClean (path : String) : String :=
  let rooted := path.toList.head? == some '/'
  let out := ((splitSlash path.toList).foldl (cleanStep rooted) []).reverse
  let body := List.intercalate ['/'] out
  if rooted then String.ofList ('/' :: body)
  else if body.isEmpty then "." else String.ofList body

/-- Go's `path.Join` of two elements. -/
def goJoin (parentPath key : String) : String :=
  if parentPath == "" then (if key == "" then "" else goClean key)
  else goClean (parentPath ++ "/" ++ key)

/-- Python's `os.path.join` of two elements. -/
def pythonJoin (parentPath key : String) : String :=
  if key.toList.head? == some '/' then key
  else if parentPath == "" || parentPath.toList.getLast? == some '/' then parentPath ++ key
  else parentPath ++ "/" ++ key

/-! ### Masked values -/

/-- `[0-9]+`, greedily. -/
def takeDigits : List Char → Option (List Char)
  | c :: cs => if c.isDigit then some (cs.dropWhile Char.isDigit) else none
  | [] => none

def expectChar (d : Char) : List Char → Option (List Char)
  | c :: cs => if c == d then some cs else none
  | [] => none

/-- `TIME_REG`. -/
def matchesTime (atEnd : List Char → Bool) (value : List Char) : Bool :=
  let rest := do
    let rest ← expectChar '-' (← takeDigits value)
    let rest ← expectChar '-' (← takeDigits rest)
    let rest ← expectChar 'T' (← takeDigits rest)
    let rest ← expectChar ':' (← takeDigits rest)
    let rest ← expectChar ':' (← takeDigits rest)
    expectChar 'Z' (← takeDigits rest)
  match rest with
  | some rest => atEnd rest
  | none => false

/-- `25[0-5]|2[0-4][0-9]|[01]?[0-9][0-9]?`. -/
def isOctet : List Char → Bool
  | [a] => a.isDigit
  | [a, b] => a.isDigit && b.isDigit
  | [a, b, c] =>
    (a == '2' && b == '5' && c.isDigit && c ≤ '5') ||
    (a == '2' && b.isDigit && b ≤ '4' && c.isDigit) ||
    ((a == '0' || a == '1') && b.isDigit && c.isDigit)
  | _ => false

/-- The longest run of digits, and what follows it. -/
def spanDigits (value : List Char) : List Char × List Char :=
  (value.takeWhile Char.isDigit, value.dropWhile Char.isDigit)

/-- `IP_REG`.  Dots and digits exclude each other, so every octet is a longest run of digits. -/
def matchesIp (atEnd : List Char → Bool) (value : List Char) : Bool :=
  let octet (value : List Char) : Option (List Char) :=
    if isOctet (spanDigits value).1 then some (spanDigits value).2 else none
  let rest := do
    let rest ← expectChar '.' (← octet value)
    let rest ← expectChar '.' (← octet rest)
    let rest ← expectChar '.' (← octet rest)
    octet rest
  match rest with
  | some rest => atEnd rest
  | none => false

/-- Does one of `MASK_REGS` match? -/
def Dialect.isMasked (d : Dialect) (value : String) : Bool :=
  matchesTime d.atEnd value.toList || matchesIp d.atEnd value.toList

/-- The coordinator's language. -/
def go : Dialect := ⟨goScalarEqual, goJoin, fun rest => rest.isEmpty⟩

/-- The learner's language: `$` also matches before a final newline. -/
def python : Dialect := ⟨pythonScalarEqual, pythonJoin, fun rest => rest.isEmpty || rest == ['\n']⟩

example : go.isMasked "10.96.0.1" = true ∧ go.isMasked "2021-05-02T03:00:00Z" = true ∧
    python.isMasked "10.96.0.1\n" = true ∧ go.isMasked "10.96.0.1\n" = false ∧
    goJoin "metadata/annotations" "a/../b" = "metadata/annotations/b" := by decide

end Sieve.Event
