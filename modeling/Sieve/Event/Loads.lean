import Sieve.Event.DeepEqual
import Sieve.Event.Dumps

/-!
# Reading a text back

`json.Unmarshal` into an interface, before its numbers are rounded.

* `readChar`, `readChars`: the characters of a string, with their escapes;
* `readValue`, `readItems`, `readMembers`: values, with fuel for the nesting, and what is left of the text;
* `Json.sortKeys`: the value with its fields in the order of `sort_keys=True`;
* `Json.Decimal`: a value whose numbers can be written;
* `loads_dumps`: what is written is read back, with sorted keys.
-/

namespace Sieve.Event

open Sieve.Library

/-! ### Strings -/

def hexValue (c : Char) : Option ℕ :=
  if c.isDigit then some (c.toNat - 48)
  else if 97 ≤ c.toNat && c.toNat ≤ 102 then some (c.toNat - 87)
  else if 65 ≤ c.toNat && c.toNat ≤ 70 then some (c.toNat - 55)
  else none

/-- Four hexadecimal digits. -/
def readHex : Text → Option (ℕ × Text)
  | a :: b :: c :: d :: rest => do
    let a ← hexValue a
    let b ← hexValue b
    let c ← hexValue c
    let d ← hexValue d
    some (a * 4096 + b * 256 + c * 16 + d, rest)
  | _ => none

def isSurrogate (n : ℕ) : Bool := 55296 ≤ n && n < 57344

/-- The character of two surrogates, if they belong together. -/
def decodeRune (n m : ℕ) : Option Char :=
  if 55296 ≤ n ∧ n < 56320 ∧ 56320 ≤ m ∧ m < 57344 then
    some (Char.ofNat (65536 + (n - 55296) * 1024 + (m - 56320)))
  else none

/-- What stands for a surrogate without its partner. -/
def replacementChar : Char := Char.ofNat 65533

/-- The second of two surrogates that belong together. -/
def readPartner (n : ℕ) : Text → Option (Char × Text)
  | '\\' :: 'u' :: rest =>
    (readHex rest).bind fun (m, rest) => (decodeRune n m).map fun c => (c, rest)
  | _ => none

/-- After a backslash and a `u`. -/
def readUnicode (text : Text) : Option (Char × Text) := do
  let (n, rest) ← readHex text
  if isSurrogate n then some ((readPartner n rest).getD (replacementChar, rest))
  else some (Char.ofNat n, rest)

/-- After a backslash. -/
def readEscape : Text → Option (Char × Text)
  | [] => none
  | c :: rest =>
    if c == quoteChar || c == '\\' || c == '/' then some (c, rest)
    else if c == 'b' then some (Char.ofNat 8, rest)
    else if c == 'f' then some (Char.ofNat 12, rest)
    else if c == 'n' then some ('\n', rest)
    else if c == 'r' then some ('\r', rest)
    else if c == 't' then some ('\t', rest)
    else if c == 'u' then readUnicode rest
    else none

def readChar : Text → Option (Char × Text)
  | [] => none
  | c :: rest =>
    if c == '\\' then readEscape rest
    else if c.toNat < 32 then none
    else some (c, rest)

/-- The characters up to the closing quotation mark. -/
def readChars : ℕ → Text → Option (Text × Text)
  | 0, _ => none
  | _ + 1, [] => none
  | fuel + 1, c :: rest =>
    if c == quoteChar then some ([], rest)
    else do
      let (c, rest) ← readChar (c :: rest)
      let (chars, rest) ← readChars fuel rest
      some (c :: chars, rest)

def readString (text : Text) : Option (String × Text) :=
  (readChars (text.length + 1) text).map fun (chars, rest) => (String.ofList chars, rest)

/-! ### Values -/

def isNumberChar (c : Char) : Bool :=
  c.isDigit || c == '-' || c == '+' || c == '.' || c == 'e' || c == 'E'

def readScalar (text : Text) : Option (Json × Text) :=
  if "null".toList.isPrefixOf text then some (.null, text.drop 4)
  else if "true".toList.isPrefixOf text then some (.bool true, text.drop 4)
  else if "false".toList.isPrefixOf text then some (.bool false, text.drop 5)
  else (parseDecimal (text.takeWhile isNumberChar)).map fun q =>
    (.num q, text.dropWhile isNumberChar)

def isSpace (c : Char) : Bool := c == ' ' || c == '\t' || c == '\n' || c == '\r'

def skipSpace (text : Text) : Text := text.dropWhile isSpace

mutual

def readValue : ℕ → Text → Option (Json × Text)
  | 0, _ => none
  | fuel + 1, text =>
    match skipSpace text with
    | [] => none
    | c :: rest =>
      if c == quoteChar then (readString rest).map fun (s, rest) => (.str s, rest)
      else if c == '[' then
        match skipSpace rest with
        | ']' :: rest => some (.arr [], rest)
        | _ => (readItems fuel rest).map fun (items, rest) => (.arr items, rest)
      else if c == '\x7b' then
        match skipSpace rest with
        | '\x7d' :: rest => some (.obj [], rest)
        | _ => (readMembers fuel [] rest).map fun (fields, rest) => (.obj fields, rest)
      else readScalar (c :: rest)

/-- The items up to the closing bracket. -/
def readItems : ℕ → Text → Option (List Json × Text)
  | 0, _ => none
  | fuel + 1, text => do
    let (item, rest) ← readValue fuel text
    match skipSpace rest with
    | ',' :: rest => (readItems fuel rest).map fun (items, rest) => (item :: items, rest)
    | ']' :: rest => some ([item], rest)
    | _ => none

/-- The members up to the closing brace; a later one replaces an earlier one with its key. -/
def readMembers : ℕ → Fields → Text → Option (Fields × Text)
  | 0, _, _ => none
  | fuel + 1, fields, text =>
    match skipSpace text with
    | c :: rest =>
      if c == quoteChar then do
        let (key, rest) ← readString rest
        match skipSpace rest with
        | ':' :: rest => do
          let (value, rest) ← readValue fuel rest
          match skipSpace rest with
          | ',' :: rest => readMembers fuel (Fields.insert fields key value) rest
          | '\x7d' :: rest => some (Fields.insert fields key value, rest)
          | _ => none
        | _ => none
      else none
    | [] => none

end

/-- The value of a whole text. -/
def loads (text : String) : Option Json := do
  let (value, rest) ← readValue (text.toList.length + 1) text.toList
  if (skipSpace rest).isEmpty then some value else none

/-! ### Sorted keys -/

mutual

/-- The fields of every object in the order of their keys. -/
def Json.sortKeys : Json → Json
  | .arr items => .arr (sortKeysItems items)
  | .obj fields => .obj ((sortKeysFields fields).insertionSort fun a b => a.1 ≤ b.1)
  | x => x

def sortKeysItems : List Json → List Json
  | [] => []
  | item :: items => item.sortKeys :: sortKeysItems items

def sortKeysFields : Fields → Fields
  | [] => []
  | (key, value) :: fields => (key, value.sortKeys) :: sortKeysFields fields

end

/-! ### Values that can be written -/

/-- The numbers of the value have finitely many digits. -/
inductive Json.Decimal : Json → Prop where
  | scalar {x : Json} (h : x.IsScalar) (hnum : ∀ q, x = .num q → IsDecimal q) : Decimal x
  | arr {items : List Json} (h : ∀ x ∈ items, Decimal x) : Decimal (.arr items)
  | obj {fields : Fields} (h : ∀ field ∈ fields, Decimal field.2) : Decimal (.obj fields)

theorem Json.Decimal.num {q : Rat} (h : Json.Decimal (.num q)) : IsDecimal q := by
  cases h with
  | scalar _ hnum => exact hnum q rfl

theorem Json.Decimal.items {items : List Json} (h : Json.Decimal (.arr items)) : ∀ x ∈ items, x.Decimal := by
  cases h with
  | scalar h => exact h.elim
  | arr h => exact h

theorem Json.Decimal.values {fields : Fields} (h : Json.Decimal (.obj fields)) :
    ∀ field ∈ fields, field.2.Decimal := by
  cases h with
  | scalar h => exact h.elim
  | obj h => exact h

/-! ### Strings are read back -/

theorem hexValue_hexDigit (n : ℕ) : hexValue (hexDigit n) = some (n % 16) := by
  have hall : ∀ k < 16, hexValue ("0123456789abcdef".toList.getD k '0') = some k := by decide
  exact hall (n % 16) (Nat.mod_lt n (by decide))

theorem readHex_hexDigits {n : ℕ} (hn : n < 65536) (rest : Text) :
    readHex (hexDigit (n / 4096) :: hexDigit (n / 256) :: hexDigit (n / 16) :: hexDigit n :: rest) =
      some (n, rest) := by
  simp only [readHex, hexValue_hexDigit, Option.bind_eq_bind, Option.bind_some, Option.some.injEq, Prod.mk.injEq,
    and_true]
  omega

theorem decodeRune_surrogates {c : Char} (hlow : 65536 ≤ c.toNat) :
    decodeRune (55296 + (c.toNat - 65536) / 1024) (56320 + (c.toNat - 65536) % 1024) = some c := by
  have hhigh : c.toNat < 1114112 := by
    obtain h | h := c.valid
    · exact lt_trans h (by decide)
    · exact h.2
  rw [decodeRune, if_pos (by omega)]
  have hsum : 65536 + (55296 + (c.toNat - 65536) / 1024 - 55296) * 1024 +
      (56320 + (c.toNat - 65536) % 1024 - 56320) = c.toNat := by omega
  rw [hsum, Char.ofNat_toNat]

theorem readChar_unicodeEscape {n : ℕ} (hn : n < 65536) (rest : Text) :
    readChar (unicodeEscape n ++ rest) =
      if isSurrogate n then some ((readPartner n rest).getD (replacementChar, rest))
      else some (Char.ofNat n, rest) := by
  show readUnicode (hexDigit (n / 4096) :: hexDigit (n / 256) :: hexDigit (n / 16) :: hexDigit n :: rest) = _
  rw [readUnicode, readHex_hexDigits hn]
  rfl

theorem readPartner_unicodeEscape {n m : ℕ} (hm : m < 65536) (rest : Text) :
    readPartner n (unicodeEscape m ++ rest) = (decodeRune n m).map fun c => (c, rest) := by
  show (readHex (hexDigit (m / 4096) :: hexDigit (m / 256) :: hexDigit (m / 16) :: hexDigit m :: rest)).bind _ = _
  rw [readHex_hexDigits hm]
  rfl

/-- **Each character is read back** from its escape. -/
theorem readChar_escapeChar (c : Char) (rest : Text) : readChar (escapeChar c ++ rest) = some (c, rest) := by
  rw [escapeChar]
  split
  · rename_i h
    rw [beq_iff_eq.mp h]
    rfl
  split
  · rename_i h
    rw [beq_iff_eq.mp h]
    rfl
  split
  · rename_i h
    rw [beq_iff_eq.mp h]
    rfl
  split
  · rename_i h
    rw [beq_iff_eq.mp h]
    rfl
  split
  · rename_i h
    rw [beq_iff_eq.mp h]
    rfl
  split
  · rename_i h
    rw [← Char.ofNat_toNat c, beq_iff_eq.mp h]
    rfl
  split
  · rename_i h
    rw [← Char.ofNat_toNat c, beq_iff_eq.mp h]
    rfl
  split
  · rename_i hbackslash _ _ _ _ _ hprint
    simp only [Bool.and_eq_true, decide_eq_true_eq] at hprint
    rw [List.singleton_append, readChar, if_neg hbackslash, if_neg (by omega)]
  split
  · rename_i hbasic
    have hplain : isSurrogate c.toNat = false := by
      rw [isSurrogate, Bool.and_eq_false_iff, decide_eq_false_iff_not, decide_eq_false_iff_not]
      obtain h | h := c.valid
      · exact .inl (Nat.not_le.mpr h)
      · exact .inr (Nat.not_lt.mpr h.1)
    rw [readChar_unicodeEscape hbasic, hplain, if_neg Bool.false_ne_true, Char.ofNat_toNat]
  · rename_i hbasic
    have hhigh : c.toNat < 1114112 := by
      obtain h | h := c.valid
      · exact lt_trans h (by decide)
      · exact h.2
    have hsurrogate : isSurrogate (55296 + (c.toNat - 65536) / 1024) = true := by
      rw [isSurrogate, Bool.and_eq_true, decide_eq_true_iff, decide_eq_true_iff]
      omega
    rw [List.append_assoc, readChar_unicodeEscape (by omega), if_pos hsurrogate,
      readPartner_unicodeEscape (by omega), decodeRune_surrogates (by omega)]
    rfl

/-- No escape begins with the quotation mark. -/
theorem escapeChar_head (c : Char) {rest tail : Text} {head : Char} (h : escapeChar c ++ rest = head :: tail) :
    (head == quoteChar) = false := by
  have hescape : escapeChar c = [c] ∧ c ≠ quoteChar ∨ ∃ more, escapeChar c = '\\' :: more := by
    rw [escapeChar]
    split
    · exact .inr ⟨_, rfl⟩
    rename_i hquote
    have hne : c ≠ quoteChar := fun heq => hquote (beq_iff_eq.mpr heq)
    split_ifs
    · exact .inr ⟨_, rfl⟩
    · exact .inr ⟨_, rfl⟩
    · exact .inr ⟨_, rfl⟩
    · exact .inr ⟨_, rfl⟩
    · exact .inr ⟨_, rfl⟩
    · exact .inr ⟨_, rfl⟩
    · exact .inl ⟨rfl, hne⟩
    · exact .inr ⟨_, rfl⟩
    · exact .inr ⟨_, rfl⟩
  rw [beq_eq_false_iff_ne]
  obtain ⟨heq, hne⟩ | ⟨more, heq⟩ := hescape
  · rw [heq] at h
    exact (List.cons.inj h).1 ▸ hne
  · rw [heq] at h
    rw [← (List.cons.inj h).1]
    decide

/-- The characters of a text that is escaped. -/
theorem readChars_escaped (chars rest : Text) {fuel : ℕ} (hfuel : chars.length < fuel) :
    readChars fuel (chars.flatMap escapeChar ++ quoteChar :: rest) = some (chars, rest) := by
  induction chars generalizing fuel with
  | nil =>
    obtain ⟨fuel, rfl⟩ := Nat.exists_eq_add_one_of_ne_zero (Nat.ne_zero_of_lt hfuel)
    rfl
  | cons c chars ih =>
    obtain ⟨fuel, rfl⟩ := Nat.exists_eq_add_one_of_ne_zero (Nat.ne_zero_of_lt hfuel)
    have hread := readChar_escapeChar c (chars.flatMap escapeChar ++ quoteChar :: rest)
    have hrest := ih (Nat.lt_of_succ_lt_succ hfuel)
    rw [List.flatMap_cons, List.append_assoc]
    cases htext : escapeChar c ++ (chars.flatMap escapeChar ++ quoteChar :: rest) with
    | nil =>
      rw [htext] at hread
      cases hread
    | cons head tail =>
      have hquote : (head == quoteChar) = false := escapeChar_head c htext
      rw [readChars, hquote, if_neg Bool.false_ne_true, ← htext, hread]
      show (readChars fuel _ >>= _) = _
      rw [hrest]
      rfl

theorem length_le_escaped (chars : Text) : chars.length ≤ (chars.flatMap escapeChar).length := by
  induction chars with
  | nil => exact Nat.zero_le _
  | cons c chars ih =>
    have hne : escapeChar c ≠ [] := by
      intro hnil
      have hread := readChar_escapeChar c []
      rw [hnil] at hread
      cases hread
    have hpos := List.length_pos_iff.mpr hne
    rw [List.flatMap_cons, List.length_append, List.length_cons]
    omega

theorem dumpsString_toList (s : String) :
    (dumpsString s).toList = quoteChar :: (s.toList.flatMap escapeChar ++ [quoteChar]) :=
  String.toList_ofList

theorem readString_escaped (s : String) (rest : Text) :
    readString (s.toList.flatMap escapeChar ++ quoteChar :: rest) = some (s, rest) := by
  have hlength := length_le_escaped s.toList
  rw [readString, readChars_escaped _ _ (by rw [List.length_append]; omega), Option.map_some]
  show some (String.ofList s.toList, rest) = _
  rw [String.ofList_toList]

/-! ### Numbers are read back -/

theorem dumpsNumber_toList (q : Rat) : (dumpsNumber q).toList = formatDecimal q := String.toList_ofList

theorem isNumberChar_dumpsNumber (q : Rat) : ∀ c ∈ (dumpsNumber q).toList, isNumberChar c = true := by
  intro c hmem
  rw [dumpsNumber_toList] at hmem
  rcases mem_formatDecimal c hmem with hdigit | rfl | rfl
  · rw [isNumberChar, hdigit]
    rfl
  · rfl
  · rfl

/-! ### The texts of lists and objects -/

theorem dumpsItems_eq (items : List Json) : dumpsItems items = items.map dumps := by
  induction items with
  | nil => rfl
  | cons item items ih => rw [dumpsItems, ih, List.map_cons]

theorem dumpsFields_eq (fields : Fields) :
    dumpsFields fields = fields.map fun field => (field.1, dumps field.2) := by
  induction fields with
  | nil => rfl
  | cons field fields ih => rw [dumpsFields, ih, List.map_cons]

theorem sortKeysItems_eq (items : List Json) : sortKeysItems items = items.map Json.sortKeys := by
  induction items with
  | nil => rfl
  | cons item items ih => rw [sortKeysItems, ih, List.map_cons]

theorem sortKeysFields_eq (fields : Fields) :
    sortKeysFields fields = fields.map fun field => (field.1, field.2.sortKeys) := by
  induction fields with
  | nil => rfl
  | cons field fields ih => rw [sortKeysFields, ih, List.map_cons]

/-- The fields in the order of their keys. -/
def byKey (fields : Fields) : Fields := fields.insertionSort fun a b => a.1 ≤ b.1

theorem map_byKey {α : Type} (f : Json → α) (fields : Fields) :
    (byKey fields).map (fun field => (field.1, f field.2)) =
      (fields.map fun field => (field.1, f field.2)).insertionSort fun a b => a.1 ≤ b.1 :=
  List.map_insertionSort (r := fun a b : String × Json => a.1 ≤ b.1) (s := fun a b : String × α => a.1 ≤ b.1)
    _ _ fun _ _ _ _ => Iff.rfl

theorem sortKeys_obj (fields : Fields) :
    (Json.obj fields).sortKeys = .obj ((byKey fields).map fun field => (field.1, field.2.sortKeys)) := by
  rw [Json.sortKeys, sortKeysFields_eq, map_byKey]

/-- The texts with a comma and a blank between them. -/
def joined (texts : List Text) : Text := [',', ' '].intercalate texts

def memberText (field : String × Json) : Text :=
  (dumpsString field.1).toList ++ ':' :: ' ' :: (dumps field.2).toList

theorem dumps_arr_toList (items : List Json) : (dumps (.arr items)).toList =
    '[' :: (joined (items.map fun x => (dumps x).toList) ++ [']']) := by
  rw [dumps, dumpsItems_eq, String.toList_append, String.toList_append, String.toList_intercalate, List.map_map]
  rfl

theorem dumps_obj_toList (fields : Fields) : (dumps (.obj fields)).toList =
    '\x7b' :: (joined ((byKey fields).map memberText) ++ ['\x7d']) := by
  rw [dumps, dumpsFields_eq, ← map_byKey, String.toList_append, String.toList_append,
    String.toList_intercalate, List.map_map,
    List.map_map]
  have htext : (String.toList ∘ fun f : String × String => dumpsString f.1 ++ ": " ++ f.2) ∘
      (fun field : String × Json => (field.1, dumps field.2)) = memberText := by
    funext field
    show (dumpsString field.1 ++ ": " ++ dumps field.2).toList = _
    rw [String.toList_append, String.toList_append, List.append_assoc]
    rfl
  rw [htext]
  rfl

/-! ### Values are read back -/

theorem skipSpace_cons {c : Char} (h : isSpace c = false) (rest : Text) : skipSpace (c :: rest) = c :: rest :=
  List.dropWhile_cons_of_neg (by rw [h]; exact Bool.false_ne_true)

theorem readValue_space (fuel : ℕ) (text : Text) : readValue fuel (' ' :: text) = readValue fuel text := by
  cases fuel with
  | zero => rfl
  | succ fuel => rfl

theorem readItems_space (fuel : ℕ) (text : Text) : readItems fuel (' ' :: text) = readItems fuel text := by
  cases fuel with
  | zero => rfl
  | succ fuel => rw [readItems, readValue_space, readItems]

theorem readMembers_space (fuel : ℕ) (fields : Fields) (text : Text) :
    readMembers fuel fields (' ' :: text) = readMembers fuel fields text := by
  cases fuel with
  | zero => rfl
  | succ fuel => rfl

/-- A text after a number, which has to end there. -/
def Ends (rest : Text) : Prop := ∀ c ∈ rest.head?, isNumberChar c = false

theorem span_number {text rest : Text} (h : ∀ c ∈ text, isNumberChar c = true) (hrest : Ends rest) :
    (text ++ rest).takeWhile isNumberChar = text ∧ (text ++ rest).dropWhile isNumberChar = rest := by
  rw [List.takeWhile_append_of_pos h, List.dropWhile_append_of_pos h]
  cases rest with
  | nil => simp
  | cons c rest =>
    have hc : ¬ isNumberChar c = true := by
      rw [hrest c rfl]
      exact Bool.false_ne_true
    rw [List.takeWhile_cons_of_neg hc, List.dropWhile_cons_of_neg hc, List.append_nil]
    exact ⟨rfl, rfl⟩

/-- What a number may begin with, no other value does. -/
theorem isNumberChar_head {c : Char} (h : isNumberChar c = true) :
    isSpace c = false ∧ (c == quoteChar) = false ∧ (c == '[') = false ∧ (c == '\x7b') = false ∧ c ≠ ']' ∧
      c ≠ '\x7d' ∧ c ≠ 'n' ∧ c ≠ 't' ∧ c ≠ 'f' := by
  have hother : ∀ other : Char, isNumberChar other = false → c ≠ other := by
    rintro other hfalse rfl
    rw [h] at hfalse
    cases hfalse
  simp only [isSpace, Bool.or_eq_false_iff, beq_eq_false_iff_ne]
  exact ⟨⟨⟨⟨hother _ (by decide), hother _ (by decide)⟩, hother _ (by decide)⟩, hother _ (by decide)⟩,
    hother _ (by decide), hother _ (by decide), hother _ (by decide), hother _ (by decide), hother _ (by decide),
    hother _ (by decide), hother _ (by decide), hother _ (by decide)⟩

theorem dumpsNumber_cons (q : Rat) : ∃ c text, (dumpsNumber q).toList = c :: text ∧ isNumberChar c = true := by
  obtain ⟨c, text, htext⟩ := List.exists_cons_of_ne_nil (formatDecimal_ne_nil q)
  rw [← dumpsNumber_toList] at htext
  exact ⟨c, text, htext, isNumberChar_dumpsNumber q c (htext ▸ List.mem_cons_self)⟩

theorem readValue_num {q : Rat} (hq : IsDecimal q) {rest : Text} (hrest : Ends rest) (fuel : ℕ) :
    readValue (fuel + 1) ((dumpsNumber q).toList ++ rest) = some (.num q, rest) := by
  obtain ⟨c, text, htext, hc⟩ := dumpsNumber_cons q
  obtain ⟨hspace, hquote, hbracket, hbrace, -, -, hn, ht, hf⟩ := isNumberChar_head hc
  obtain ⟨htake, hdrop⟩ := span_number (isNumberChar_dumpsNumber q) hrest
  have hnull : "null".toList.isPrefixOf (c :: (text ++ rest)) = false := by
    show ('n' == c && _) = false
    rw [beq_eq_false_iff_ne.mpr hn.symm, Bool.false_and]
  have htrue : "true".toList.isPrefixOf (c :: (text ++ rest)) = false := by
    show ('t' == c && _) = false
    rw [beq_eq_false_iff_ne.mpr ht.symm, Bool.false_and]
  have hfalse : "false".toList.isPrefixOf (c :: (text ++ rest)) = false := by
    show ('f' == c && _) = false
    rw [beq_eq_false_iff_ne.mpr hf.symm, Bool.false_and]
  have hscalar : readScalar (c :: (text ++ rest)) = some (.num q, rest) := by
    rw [readScalar, hnull, htrue, hfalse, if_neg Bool.false_ne_true, if_neg Bool.false_ne_true,
      if_neg Bool.false_ne_true, ← List.cons_append, ← htext, htake, hdrop, dumpsNumber_toList,
      parseDecimal_formatDecimal hq]
    rfl
  rw [htext, List.cons_append, readValue, skipSpace_cons hspace]
  show (if _ then _ else if _ then _ else if _ then _ else readScalar _) = _
  rw [hquote, hbracket, hbrace, if_neg Bool.false_ne_true, if_neg Bool.false_ne_true, if_neg Bool.false_ne_true,
    hscalar]

/-- The text of a value is read, whatever comes after it. -/
def IsRead (x : Json) : Prop :=
  ∀ (rest : Text) (fuel : ℕ), Ends rest → (dumps x).toList.length < fuel →
    readValue fuel ((dumps x).toList ++ rest) = some (x.sortKeys, rest)

theorem readString_dumps {s : String} {rest : Text} (fuel : ℕ) :
    readValue (fuel + 1) ((dumpsString s).toList ++ rest) = some (.str s, rest) := by
  rw [dumpsString_toList]
  show (readString ((s.toList.flatMap escapeChar ++ [quoteChar]) ++ rest)).map _ = _
  rw [List.append_assoc, List.singleton_append, readString_escaped]
  rfl

/-- The text of a value begins with neither a blank nor a closing bracket. -/
theorem dumps_cons (x : Json) : ∃ c text, (dumps x).toList = c :: text ∧ isSpace c = false ∧ c ≠ ']' := by
  cases x with
  | null => exact ⟨_, _, rfl, by decide, by decide⟩
  | bool b => cases b <;> exact ⟨_, _, rfl, by decide, by decide⟩
  | num q =>
    obtain ⟨c, text, htext, hc⟩ := dumpsNumber_cons q
    obtain ⟨hspace, -, -, -, hbracket, -⟩ := isNumberChar_head hc
    exact ⟨c, text, htext, hspace, hbracket⟩
  | str s => exact ⟨_, _, dumpsString_toList s, by decide, by decide⟩
  | arr items => exact ⟨_, _, dumps_arr_toList items, by decide, by decide⟩
  | obj fields => exact ⟨_, _, dumps_obj_toList fields, by decide, by decide⟩

theorem joined_cons_cons (text text' : Text) (texts : List Text) :
    joined (text :: text' :: texts) = text ++ ',' :: ' ' :: joined (text' :: texts) := by
  rw [joined, List.intercalate_cons_cons, List.append_assoc]
  rfl

theorem readItems_dumps {items : List Json} (hne : items ≠ []) (hread : ∀ x ∈ items, IsRead x) (rest : Text)
    {fuel : ℕ} (hfuel : (joined (items.map fun x => (dumps x).toList)).length + 1 < fuel) :
    readItems fuel (joined (items.map fun x => (dumps x).toList) ++ ']' :: rest) =
      some (items.map Json.sortKeys, rest) := by
  induction items generalizing fuel with
  | nil => exact absurd rfl hne
  | cons x items ih =>
    obtain ⟨hx, hitems⟩ := List.forall_mem_cons.mp hread
    obtain ⟨fuel, rfl⟩ := Nat.exists_eq_add_one_of_ne_zero (Nat.ne_zero_of_lt hfuel)
    cases items with
    | nil =>
      have htext : joined [(dumps x).toList] = (dumps x).toList := List.intercalate_singleton
      rw [List.map_cons, List.map_nil, htext] at hfuel ⊢
      rw [readItems, hx (']' :: rest) fuel (fun c hc => by cases hc; rfl) (by omega)]
      rfl
    | cons x' items =>
      rw [List.map_cons, List.map_cons, joined_cons_cons] at hfuel ⊢
      simp only [List.length_append, List.length_cons] at hfuel
      have hrest := @ih (List.cons_ne_nil _ _) hitems fuel (by rw [List.map_cons]; omega)
      rw [List.map_cons] at hrest
      rw [List.append_assoc, readItems, hx _ fuel (fun c hc => by cases hc; rfl) (by omega)]
      show (readItems fuel (' ' :: (joined (_ :: _) ++ ']' :: rest))).map _ = _
      rw [readItems_space, hrest]
      rfl

theorem readMembers_dumps {fields read : Fields} (hne : fields ≠ []) (hread : ∀ field ∈ fields, IsRead field.2)
    (hkeys : (fields.map Prod.fst).Nodup) (hfresh : ∀ key ∈ fields.map Prod.fst, read.lookup key = none)
    (rest : Text) {fuel : ℕ} (hfuel : (joined (fields.map memberText)).length + 1 < fuel) :
    readMembers fuel read (joined (fields.map memberText) ++ '\x7d' :: rest) =
      some (read ++ fields.map fun field => (field.1, field.2.sortKeys), rest) := by
  induction fields generalizing read fuel with
  | nil => exact absurd rfl hne
  | cons field fields ih =>
    obtain ⟨key, x⟩ := field
    obtain ⟨hx, hfields⟩ : IsRead x ∧ ∀ field ∈ fields, IsRead field.2 := List.forall_mem_cons.mp hread
    obtain ⟨hnew, hnodup⟩ : key ∉ fields.map Prod.fst ∧ (fields.map Prod.fst).Nodup := List.nodup_cons.mp hkeys
    obtain ⟨hkey, hothers⟩ : read.lookup key = none ∧ ∀ key ∈ fields.map Prod.fst, read.lookup key = none :=
      List.forall_mem_cons.mp hfresh
    obtain ⟨fuel, rfl⟩ := Nat.exists_eq_add_one_of_ne_zero (Nat.ne_zero_of_lt hfuel)
    have hmember : ∀ after : Text, memberText (key, x) ++ after = quoteChar ::
        (key.toList.flatMap escapeChar ++ quoteChar :: ':' :: ' ' :: ((dumps x).toList ++ after)) := by
      intro after
      rw [memberText, dumpsString_toList]
      simp
    have hvalue : ∀ after : Text, Ends after → (dumps x).toList.length < fuel →
        readMembers (fuel + 1) read (memberText (key, x) ++ after) =
          match skipSpace after with
          | ',' :: rest => readMembers fuel (Fields.insert read key x.sortKeys) rest
          | '\x7d' :: rest => some (Fields.insert read key x.sortKeys, rest)
          | _ => none := by
      intro after hends hlength
      rw [hmember, readMembers]
      show (readString _ >>= _) = _
      rw [readString_escaped]
      show (readValue fuel (' ' :: _) >>= _) = _
      rw [readValue_space, hx after fuel hends hlength]
      rfl
    have hlength : (dumps x).toList.length < (memberText (key, x)).length := by
      simp only [memberText, List.length_append, List.length_cons]
      omega
    cases fields with
    | nil =>
      have htext : joined [memberText (key, x)] = memberText (key, x) := List.intercalate_singleton
      rw [List.map_cons, List.map_nil, htext] at hfuel ⊢
      rw [hvalue _ (fun c hc => by cases hc; rfl) (by omega)]
      show some (Fields.insert read key x.sortKeys, rest) = _
      rw [insert_fresh hkey]
      rfl
    | cons field' fields =>
      rw [List.map_cons, List.map_cons, joined_cons_cons] at hfuel ⊢
      simp only [List.length_append, List.length_cons] at hfuel
      have hrest := @ih (Fields.insert read key x.sortKeys) (List.cons_ne_nil _ _) hfields hnodup
        (fun key' hkey' => by
          rw [lookup_insert_of_ne _ _ (ne_of_mem_of_not_mem hkey' hnew)]
          exact hothers key' hkey') fuel (by rw [List.map_cons]; omega)
      rw [List.map_cons] at hrest
      rw [List.append_assoc, hvalue _ (fun c hc => by cases hc; rfl) (by omega)]
      show readMembers fuel _ (' ' :: (joined (_ :: _) ++ '\x7d' :: rest)) = _
      rw [readMembers_space, hrest, insert_fresh hkey, List.append_assoc]
      rfl

theorem nodup_byKey {fields : Fields} (h : (fields.map Prod.fst).Nodup) :
    ((byKey fields).map Prod.fst).Nodup :=
  ((List.perm_insertionSort _ fields).map Prod.fst).nodup_iff.mpr h

theorem mem_byKey {fields : Fields} {field : String × Json} : field ∈ byKey fields ↔ field ∈ fields :=
  (List.perm_insertionSort _ fields).mem_iff

/-- A list that does not end at once. -/
theorem readValue_items {c : Char} (hspace : isSpace c = false) (hbracket : c ≠ ']') (text : Text) (fuel : ℕ) :
    readValue (fuel + 1) ('[' :: c :: text) =
      (readItems fuel (c :: text)).map fun (items, rest) => (.arr items, rest) := by
  rw [readValue]
  show (match skipSpace (c :: text) with
    | ']' :: rest => some (Json.arr [], rest)
    | _ => (readItems fuel (c :: text)).map fun (items, rest) => (Json.arr items, rest)) = _
  rw [skipSpace_cons hspace]
  split
  · rename_i heq
    exact absurd (List.cons.inj heq).1 hbracket
  · rfl

theorem isRead_scalar {x : Json} (hscalar : x.IsScalar) (hdecimal : x.Decimal) : IsRead x := by
  intro rest fuel hends hfuel
  obtain ⟨fuel, rfl⟩ := Nat.exists_eq_add_one_of_ne_zero (Nat.ne_zero_of_lt hfuel)
  cases x with
  | null => rfl
  | bool b => cases b <;> rfl
  | num q =>
    rw [dumps, readValue_num hdecimal.num hends]
    rfl
  | str s =>
    rw [dumps, readString_dumps]
    rfl
  | arr items => exact hscalar.elim
  | obj fields => exact hscalar.elim

/-- Behind the bracket the text of the first item begins. -/
theorem joined_items_cons (x : Json) (items : List Json) (rest : Text) :
    ∃ c text, joined ((x :: items).map fun x => (dumps x).toList) ++ ']' :: rest = c :: text ∧
      isSpace c = false ∧ c ≠ ']' := by
  obtain ⟨c, text, htext, hspace, hbracket⟩ := dumps_cons x
  cases items with
  | nil =>
    refine ⟨c, text ++ ']' :: rest, ?_, hspace, hbracket⟩
    rw [List.map_singleton, joined, List.intercalate_singleton, htext, List.cons_append]
  | cons x' items =>
    rw [List.map_cons, List.map_cons, joined_cons_cons, htext]
    exact ⟨c, _, rfl, hspace, hbracket⟩

theorem isRead_arr {items : List Json} (h : ∀ x ∈ items, IsRead x) : IsRead (.arr items) := by
  intro rest fuel _ hfuel
  obtain ⟨fuel, rfl⟩ := Nat.exists_eq_add_one_of_ne_zero (Nat.ne_zero_of_lt hfuel)
  rw [Json.sortKeys, sortKeysItems_eq, dumps_arr_toList] at *
  cases items with
  | nil => rfl
  | cons x items =>
    have hread := @readItems_dumps _ (List.cons_ne_nil x items) h rest fuel (by
      simp only [List.length_cons, List.length_append, List.length_nil] at hfuel
      omega)
    obtain ⟨c, text, htext, hspace, hbracket⟩ := joined_items_cons x items rest
    rw [List.cons_append, List.append_assoc, List.singleton_append, htext,
      readValue_items hspace hbracket, ← htext, hread]
    rfl

/-- Behind the brace a key begins. -/
theorem joined_members_cons (field : String × Json) (others : Fields) (rest : Text) :
    ∃ text, joined ((field :: others).map memberText) ++ rest = quoteChar :: text := by
  cases others with
  | nil =>
    rw [List.map_singleton, joined, List.intercalate_singleton, memberText, dumpsString_toList]
    exact ⟨_, rfl⟩
  | cons field' others =>
    rw [List.map_cons, List.map_cons, joined_cons_cons, memberText, dumpsString_toList]
    exact ⟨_, rfl⟩

theorem isRead_obj {fields : Fields} (hkeys : (fields.map Prod.fst).Nodup)
    (h : ∀ field ∈ fields, IsRead field.2) : IsRead (.obj fields) := by
  intro rest fuel _ hfuel
  have hfields : ∀ field ∈ byKey fields, IsRead field.2 := fun field hfield =>
    h field (mem_byKey.mp hfield)
  have hnodup := nodup_byKey hkeys
  obtain ⟨fuel, rfl⟩ := Nat.exists_eq_add_one_of_ne_zero (Nat.ne_zero_of_lt hfuel)
  rw [sortKeys_obj]
  rw [dumps_obj_toList] at hfuel ⊢
  cases hsorted : byKey fields with
  | nil => rfl
  | cons field others =>
    rw [hsorted] at hfields hnodup hfuel
    have hread := @readMembers_dumps _ [] (List.cons_ne_nil field others) hfields hnodup
      (fun _ _ => rfl) rest fuel (by
        simp only [List.length_cons, List.length_append, List.length_nil] at hfuel
        omega)
    obtain ⟨text, htext⟩ := joined_members_cons field others ('\x7d' :: rest)
    rw [List.cons_append, List.append_assoc, List.singleton_append, htext]
    show (readMembers fuel [] (quoteChar :: text)).map _ = _
    rw [← htext, hread]
    rfl

/-- **The text of every value is read.** -/
theorem isRead {x : Json} (hdistinct : x.Distinct) (hdecimal : x.Decimal) : IsRead x := by
  induction x using Json.induct with
  | scalar x hscalar => exact isRead_scalar hscalar hdecimal
  | arr items ih =>
    exact isRead_arr fun x hx => ih x hx (hdistinct.items x hx) (hdecimal.items x hx)
  | obj fields ih =>
    exact isRead_obj hdistinct.keys fun field hfield =>
      ih field hfield (hdistinct.values field hfield) (hdecimal.values field hfield)

/-- **What is written is read back**, with sorted keys. -/
theorem loads_dumps {x : Json} (h : x.Distinct) (hdecimal : x.Decimal) : loads (dumps x) = some x.sortKeys := by
  have hread := isRead h hdecimal [] _ (fun c hc => nomatch hc) (Nat.lt_succ_self _)
  rw [List.append_nil] at hread
  rw [loads, hread]
  rfl

/-! ### A value with sorted keys -/

theorem lookup_byKey {fields : Fields} (h : (fields.map Prod.fst).Nodup) (key : String) :
    ((byKey fields).map fun field => (field.1, field.2.sortKeys)).lookup key =
      (fields.lookup key).map Json.sortKeys := by
  have hkeys : (((byKey fields).map fun field => (field.1, field.2.sortKeys)).map Prod.fst).Nodup := by
    rw [List.map_map]
    exact nodup_byKey h
  cases hlookup : fields.lookup key with
  | none =>
    rw [Option.map_none, lookup_none_iff, List.map_map]
    intro hmem
    obtain ⟨field, hfield, heq⟩ := List.mem_map.mp hmem
    exact lookup_none_iff.mp hlookup (List.mem_map.mpr ⟨field, mem_byKey.mp hfield, heq⟩)
  | some x =>
    exact mem_lookup hkeys (List.mem_map.mpr ⟨(key, x), mem_byKey.mpr (lookup_mem hlookup), rfl⟩)

theorem sortKeys_distinct {x : Json} (h : x.Distinct) : x.sortKeys.Distinct := by
  induction x using Json.induct with
  | scalar x hscalar =>
    cases x with
    | arr items => exact hscalar.elim
    | obj fields => exact hscalar.elim
    | _ => exact h
  | arr items ih =>
    rw [Json.sortKeys, sortKeysItems_eq]
    exact .arr (List.forall_mem_map.mpr fun x hx => ih x hx (h.items x hx))
  | obj fields ih =>
    rw [sortKeys_obj]
    refine .obj ?_ (List.forall_mem_map.mpr fun field hfield => ?_)
    · rw [List.map_map]
      exact nodup_byKey h.keys
    · exact ih field (mem_byKey.mp hfield) (h.values field (mem_byKey.mp hfield))

/-- **The order of the keys means nothing.** -/
theorem sortKeys_equal {eq : Json → Json → Bool} (hlaw : LawfulScalars eq) {x : Json} (h : x.Distinct) :
    Json.Equal eq x x.sortKeys := by
  induction x using Json.induct with
  | scalar x hscalar =>
    cases x with
    | arr items => exact hscalar.elim
    | obj fields => exact hscalar.elim
    | _ => exact (equal_scalar_iff hscalar).mpr (hlaw.refl _ hscalar)
  | arr items ih =>
    rw [Json.sortKeys, sortKeysItems_eq, equal_arr_iff, List.forall₂_map_right_iff, List.forall₂_same]
    exact fun x hx => ih x hx (h.items x hx)
  | obj fields ih =>
    have hdistinct := sortKeys_distinct h
    rw [sortKeys_obj] at hdistinct ⊢
    rw [equal_obj_iff h.keys hdistinct.keys]
    intro key
    rw [lookup_byKey h.keys]
    cases hlookup : fields.lookup key with
    | none => exact .none
    | some x => exact .some (ih _ (lookup_mem hlookup) (lookup_distinct h hlookup))

end Sieve.Event
