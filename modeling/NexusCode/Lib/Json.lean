/-
  JSON values, `JSON.parse` and `JSON.stringify`.

  A value is what `JSON.parse` can return.  An object is the list of its own properties in the
  order they were created; `ownKeys` puts the array-index keys first, as property enumeration
  does.  The parser follows the grammar of the language's JSON: it reads a value with the usual
  escapes, rounds number literals to doubles, and lets a repeated key overwrite the earlier one
  in place.

  `sortedEntries` is the object a program gets by copying the properties in sorted key order
  into a fresh object literal: assigning to `__proto__` creates no property.
-/
import NexusCode.Lib.JsString
import NexusCode.Lib.JsNumber
import Mathlib.Data.List.Sort

namespace NexusCode.Lib

/-- A JSON value. -/
inductive Json where
  | null
  | bool (b : Bool)
  | num (x : JsNumber)
  | str (s : String)
  | arr (items : List Json)
  | obj (fields : List (String × Json))

namespace Json

/-! ## Properties -/

/-- Create a property or overwrite it in place. -/
def setField (k : String) (v : Json) : List (String × Json) → List (String × Json)
  | [] => [(k, v)]
  | (k', v') :: rest => if k' = k then (k, v) :: rest else (k', v') :: setField k v rest

/-- The value of an own property. -/
def field? (k : String) : List (String × Json) → Option Json
  | [] => none
  | (k', v) :: rest => if k' = k then some v else field? k rest

/-- `value[k]` for a value that may be anything: only objects have the properties looked up. -/
def get? (k : String) : Json → Option Json
  | obj fields => field? k fields
  | _ => none

/-- The number an array-index key stands for: canonical decimals below `2³² - 1`. -/
def arrayIndex? (k : String) : Option Nat :=
  let ds := k.toList
  let n := ds.foldl (fun n c => 10 * n + (c.toNat - 48)) 0
  if ds.all Char.isDigit && !ds.isEmpty && (ds.length == 1 || ds.head? != some '0')
      && n < 4294967295 then some n else none

/-- The order of property enumeration: array indices ascending, then the rest as created. -/
def enumerate (fields : List (String × Json)) : List (String × Json) :=
  let indexed := fields.filter fun f => (arrayIndex? f.1).isSome
  let named := fields.filter fun f => (arrayIndex? f.1).isNone
  indexed.insertionSort (fun a b => (arrayIndex? a.1).getD 0 ≤ (arrayIndex? b.1).getD 0) ++ named

/-- `Object.keys(value)`. -/
def ownKeys (fields : List (String × Json)) : List String := (enumerate fields).map (·.1)

/-- Comparison of keys as `sort` with `a < b ? -1 : a > b ? 1 : 0` sees it. -/
def keyLe (a b : String) : Bool := !JsString.ltUnits b a

/-- The properties of a fresh object filled in sorted key order. -/
def sortedEntries (fields : List (String × Json)) : List (String × Json) :=
  (fields.insertionSort fun a b => keyLe a.1 b.1).filter fun f => f.1 ≠ "__proto__"

/-! ## Printing -/

/-- Four lower-case hexadecimal digits. -/
def hex4 (n : Nat) : List Char :=
  let digit := fun m => (Nat.digitChar (m % 16))
  [digit (n / 4096), digit (n / 256), digit (n / 16), digit n]

/-- One character inside a JSON string. -/
def escapeChar (c : Char) : List Char :=
  if c = '"' then ['\\', '"']
  else if c = '\\' then ['\\', '\\']
  else if c.toNat = 8 then ['\\', 'b']
  else if c.toNat = 12 then ['\\', 'f']
  else if c = '\n' then ['\\', 'n']
  else if c = '\r' then ['\\', 'r']
  else if c = '\t' then ['\\', 't']
  else if c.toNat < 32 then '\\' :: 'u' :: hex4 c.toNat
  else [c]

/-- A quoted string. -/
def quote (s : String) : List Char := '"' :: (s.toList.flatMap escapeChar ++ ['"'])

/-- Items separated by commas. -/
def commaList : List (List Char) → List Char
  | [] => []
  | [x] => x
  | x :: xs => x ++ ',' :: commaList xs

mutual

/-- The text of a value. -/
def chars : Json → List Char
  | null => "null".toList
  | bool b => if b then "true".toList else "false".toList
  | num x => if x.isFinite then x.toChars else "null".toList
  | str s => quote s
  | arr items => '[' :: (commaList (charsList items) ++ [']'])
  | obj fields =>
    -- the members are printed where they were created; enumeration reorders the printed ones
    let printed := charsFields fields
    let indexed := printed.filter fun f => (arrayIndex? f.1).isSome
    let named := printed.filter fun f => (arrayIndex? f.1).isNone
    let ordered :=
      indexed.insertionSort (fun a b => (arrayIndex? a.1).getD 0 ≤ (arrayIndex? b.1).getD 0)
        ++ named
    '{' :: (commaList (ordered.map (·.2)) ++ ['}'])

/-- The texts of the items of an array. -/
def charsList : List Json → List (List Char)
  | [] => []
  | x :: xs => chars x :: charsList xs

/-- The texts of the members of an object, with their keys. -/
def charsFields : List (String × Json) → List (String × List Char)
  | [] => []
  | (k, v) :: rest => (k, quote k ++ ':' :: chars v) :: charsFields rest

end

/-- `JSON.stringify(value)`. -/
def stringify (v : Json) : String := String.ofList (chars v)

mutual

/-- `String(value)`, for objects that inherit `toString`. -/
def text : Json → String
  | null => "null"
  | bool b => if b then "true" else "false"
  | num x => String.ofList x.toChars
  | str s => s
  | arr items => ",".intercalate (textItems items)
  | obj _ => "[object Object]"

/-- The texts an array joins: `null` counts as the empty text. -/
def textItems : List Json → List String
  | [] => []
  | null :: rest => "" :: textItems rest
  | item :: rest => text item :: textItems rest

end

/-! ## Parsing -/

/-- JSON white space. -/
def isSpace (c : Char) : Bool := c == ' ' || c == '\t' || c == '\n' || c == '\r'

def skipSpace (s : List Char) : List Char := s.dropWhile isSpace

/-- The value of a hexadecimal digit. -/
def hexDigit? (c : Char) : Option Nat :=
  if c.isDigit then some (c.toNat - 48)
  else if 'a' ≤ c ∧ c ≤ 'f' then some (c.toNat - 87)
  else if 'A' ≤ c ∧ c ≤ 'F' then some (c.toNat - 55)
  else none

/-- Four hexadecimal digits: a code unit. -/
def unit? : List Char → Option (Nat × List Char)
  | a :: b :: c :: d :: rest => do
    let a ← hexDigit? a
    let b ← hexDigit? b
    let c ← hexDigit? c
    let d ← hexDigit? d
    some (((a * 16 + b) * 16 + c) * 16 + d, rest)
  | _ => none

/-- The characters of a string literal up to its closing quote.  A lone surrogate becomes the
    replacement character. -/
def stringBody : Nat → List Char → Option (List Char × List Char)
  | 0, _ => none
  | n + 1, s =>
    match s with
    | [] => none
    | '"' :: rest => some ([], rest)
    | '\\' :: e :: rest =>
      let simple := fun c => (stringBody n rest).map fun r => (c :: r.1, r.2)
      match e with
      | '"' => simple '"'
      | '\\' => simple '\\'
      | '/' => simple '/'
      | 'b' => simple (Char.ofNat 8)
      | 'f' => simple (Char.ofNat 12)
      | 'n' => simple '\n'
      | 'r' => simple '\r'
      | 't' => simple '\t'
      | 'u' => do
        let (u, rest) ← unit? rest
        let pair : Option (Nat × List Char) :=
          if 0xD800 ≤ u ∧ u < 0xDC00 then
            match rest with
            | '\\' :: 'u' :: rest' =>
              match unit? rest' with
              | some (v, rest'') =>
                if 0xDC00 ≤ v ∧ v < 0xE000 then
                  some (0x10000 + (u - 0xD800) * 0x400 + (v - 0xDC00), rest'')
                else none
              | none => none
            | _ => none
          else none
        let (code, rest) := pair.getD (u, rest)
        let c := if 0xD800 ≤ code ∧ code < 0xE000 then Char.ofNat 0xFFFD else Char.ofNat code
        let r ← stringBody n rest
        some (c :: r.1, r.2)
      | _ => none
    | c :: rest =>
      if c = '\\' ∨ c.toNat < 32 then none
      else (stringBody n rest).map fun r => (c :: r.1, r.2)

/-- The value of a run of decimal digits. -/
def decimal (ds : List Char) : Nat := ds.foldl (fun n c => 10 * n + (c.toNat - 48)) 0

/-- The digits of an exponent, with the sign of the exponent. -/
def exponentPart (s : List Char) : Option (Int × List Char) :=
  let signed := fun (neg : Bool) (t : List Char) =>
    let ds := t.takeWhile Char.isDigit
    if ds.isEmpty then none
    else some ((if neg then -(decimal ds : Int) else decimal ds), t.dropWhile Char.isDigit)
  match s with
  | '+' :: t => signed false t
  | '-' :: t => signed true t
  | t => signed false t

/-- A number literal without its sign. -/
def unsigned (s : List Char) : Option (Rat × List Char) := do
  let ip := s.takeWhile Char.isDigit
  let rest := s.dropWhile Char.isDigit
  if ip.isEmpty ∨ (ip.head? = some '0' ∧ 1 < ip.length) then none
  let (fp, rest) ← match rest with
    | '.' :: t =>
      let ds := t.takeWhile Char.isDigit
      if ds.isEmpty then none else some (ds, t.dropWhile Char.isDigit)
    | t => some ([], t)
  let (e, rest) ← match rest with
    | 'e' :: t => exponentPart t
    | 'E' :: t => exponentPart t
    | t => some (0, t)
  let shift : Int := e - fp.length
  let n := decimal (ip ++ fp)
  some (if 0 ≤ shift then ((n * 10 ^ shift.toNat : Nat) : Rat) else mkRat n (10 ^ (-shift).toNat),
    rest)

/-- A number literal. -/
def number (s : List Char) : Option (Json × List Char) :=
  match s with
  | '-' :: t => (unsigned t).map fun r => (num (JsNumber.round (-r.1)), r.2)
  | t => (unsigned t).map fun r => (num (JsNumber.round r.1), r.2)

/-- A fixed word. -/
def word (w : String) (v : Json) (s : List Char) : Option (Json × List Char) :=
  if w.toList.isPrefixOf s then some (v, s.drop w.toList.length) else none

mutual

/-- One value at the head of the text (no leading space). -/
def value : Nat → List Char → Option (Json × List Char)
  | 0, _ => none
  | n + 1, s =>
    match s with
    | '{' :: t =>
      match skipSpace t with
      | '}' :: rest => some (obj [], rest)
      | t => members n t []
    | '[' :: t =>
      match skipSpace t with
      | ']' :: rest => some (arr [], rest)
      | t => items n t []
    | '"' :: t => (stringBody (t.length + 1) t).map fun r => (str (String.ofList r.1), r.2)
    | 't' :: _ => word "true" (bool true) s
    | 'f' :: _ => word "false" (bool false) s
    | 'n' :: _ => word "null" null s
    | t => number t

/-- The members of an object, from the first key on; `acc` holds the ones read. -/
def members : Nat → List Char → List (String × Json) → Option (Json × List Char)
  | 0, _, _ => none
  | n + 1, s, acc => do
    match s with
    | '"' :: t =>
      let (k, rest) ← stringBody (t.length + 1) t
      match skipSpace rest with
      | ':' :: rest =>
        let (v, rest) ← value n (skipSpace rest)
        let acc := setField (String.ofList k) v acc
        match skipSpace rest with
        | ',' :: rest => members n (skipSpace rest) acc
        | '}' :: rest => some (obj acc, rest)
        | _ => none
      | _ => none
    | _ => none

/-- The items of an array, from the first on. -/
def items : Nat → List Char → List Json → Option (Json × List Char)
  | 0, _, _ => none
  | n + 1, s, acc => do
    let (v, rest) ← value n s
    match skipSpace rest with
    | ',' :: rest => items n (skipSpace rest) (acc ++ [v])
    | ']' :: rest => some (arr (acc ++ [v]), rest)
    | _ => none

end

/-- `JSON.parse(text)`; `none` is the `SyntaxError`.  Each level of the recursion consumes a
    character, so the length of the text is fuel enough. -/
def parse (text : String) : Option Json :=
  let s := skipSpace text.toList
  match value (2 * s.length + 2) s with
  | some (v, rest) => if (skipSpace rest).isEmpty then some v else none
  | none => none

end Json

end NexusCode.Lib
