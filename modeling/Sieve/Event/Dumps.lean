import Mathlib.Data.List.Sort
import Sieve.Event.Json
import Sieve.Library.Decimal

/-!
# The text of a decoded value

`json.dumps(value, sort_keys=True)`, with which the learner compares differences and writes them into
test plans.  A number is written with all its digits.
-/

namespace Sieve.Event

open Sieve.Library

def hexDigit (n : ℕ) : Char := "0123456789abcdef".toList.getD (n % 16) '0'

/-- Four hexadecimal digits. -/
def unicodeEscape (n : ℕ) : List Char :=
  ['\\', 'u', hexDigit (n / 4096), hexDigit (n / 256), hexDigit (n / 16), hexDigit n]

/-- The quotation mark. -/
def quoteChar : Char := Char.ofNat 34

/-- Everything but printable ASCII is escaped, beyond the basic plane by two surrogates. -/
def escapeChar (c : Char) : List Char :=
  if c == quoteChar then ['\\', quoteChar]
  else if c == '\\' then ['\\', '\\']
  else if c == '\n' then ['\\', 'n']
  else if c == '\r' then ['\\', 'r']
  else if c == '\t' then ['\\', 't']
  else if c.toNat == 8 then ['\\', 'b']
  else if c.toNat == 12 then ['\\', 'f']
  else if 32 ≤ c.toNat && c.toNat ≤ 126 then [c]
  else if c.toNat < 65536 then unicodeEscape c.toNat
  else unicodeEscape (55296 + (c.toNat - 65536) / 1024) ++
    unicodeEscape (56320 + (c.toNat - 65536) % 1024)

def dumpsString (s : String) : String :=
  String.ofList (quoteChar :: s.toList.flatMap escapeChar ++ [quoteChar])

def dumpsNumber (q : Rat) : String := String.ofList (formatDecimal q)

mutual

def dumps : Json → String
  | .null => "null"
  | .bool true => "true"
  | .bool false => "false"
  | .num q => dumpsNumber q
  | .str s => dumpsString s
  | .arr items => "[" ++ String.intercalate ", " (dumpsItems items) ++ "]"
  | .obj fields =>
    let sorted := (dumpsFields fields).insertionSort fun a b => a.1 ≤ b.1
    "\x7b" ++ String.intercalate ", " (sorted.map fun f => dumpsString f.1 ++ ": " ++ f.2) ++ "\x7d"

def dumpsItems : List Json → List String
  | [] => []
  | item :: items => dumps item :: dumpsItems items

def dumpsFields : Fields → List (String × String)
  | [] => []
  | (key, value) :: fields => (key, dumps value) :: dumpsFields fields

end

/-- The text of an optional dict; `None` is `null`. -/
def dumpsMap : Option Fields → String
  | none => "null"
  | some fields => dumps (.obj fields)

example : dumps (.obj [("b", .arr [.num 1, .null]), ("a", .str "x")]) =
    dumps (.obj [("a", .str "x"), ("b", .arr [.num 1, .null])]) := by decide

end Sieve.Event
