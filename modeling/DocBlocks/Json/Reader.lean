import DocBlocks.Json.Basic
import DocBlocks.Number.Binary

/-!
# Reading JSON

A reader takes a text and returns what it has read and the rest, or nothing if the text does not
start with what it reads.

## Main definitions

* `Json.read?`: the value that a whole text writes.
-/

namespace DocBlocks.Json

/-- A text without the white space of JSON at its start. -/
def skipBlank (t : Text) : Text := t.dropWhile [' ', '\t', '\n', '\r'].contains

/-- The value of a hexadecimal digit. -/
def hexValue? (c : Char) : Option Nat :=
  if c.isDigit then some (c.toNat - 48)
  else if 'a' ≤ c ∧ c ≤ 'f' then some (c.toNat - 87)
  else if 'A' ≤ c ∧ c ≤ 'F' then some (c.toNat - 55)
  else none

/-- The number that four hexadecimal digits spell. -/
def unit? (t : Text) : Option (Nat × Text) := do
  let digits ← (t.take 4).mapM hexValue?
  if digits.length = 4 then some (digits.foldl (16 * · + ·) 0, t.drop 4) else none

/-- The character that an escape stands for, behind its backslash. Characters beyond the first plane
are written as two surrogates; a surrogate alone is no character. -/
def escape? : Text → Option (Char × Text)
  | 'u' :: t => do
    let (high, t) ← unit? t
    if 0xD800 ≤ high ∧ high < 0xDC00 then
      let (low, t) ← unit? (← ['\\', 'u'].isPrefixOf? t)
      if 0xDC00 ≤ low ∧ low < 0xE000 then
        some (Char.ofNat (0x10000 + (high - 0xD800) * 0x400 + (low - 0xDC00)), t)
      else none
    else if 0xDC00 ≤ high ∧ high < 0xE000 then none
    else some (Char.ofNat high, t)
  | c :: t =>
    (([('"', '"'), ('\\', '\\'), ('/', '/'), ('b', '\x08'), ('f', '\x0c'), ('n', '\n'), ('r', '\r'),
      ('t', '\t')] : List (Char × Char)).lookup c).map (·, t)
  | [] => none

/-- The rest of a string behind its opening quote. -/
def quotedBody? : Nat → Text → Option (Text × Text)
  | 0, _ => none
  | fuel + 1, t =>
    match t with
    | '"' :: t => some ([], t)
    | '\\' :: t => do
      let (c, t) ← escape? t
      let (s, t) ← quotedBody? fuel t
      return (c :: s, t)
    | c :: t => if c < ' ' then none else (quotedBody? fuel t).map fun (s, t) => (c :: s, t)
    | [] => none

/-- A string. -/
def quoted? : Text → Option (Text × Text)
  | '"' :: t => quotedBody? (t.length + 1) t
  | _ => none

/-- At least one decimal digit. -/
def digits? (t : Text) : Option (Text × Text) :=
  match t.takeWhile Char.isDigit with
  | [] => none
  | ds => some (ds, t.dropWhile Char.isDigit)

/-- The whole part of a number, which has no zero in front of other digits. -/
def whole? : Text → Option (Text × Text)
  | '0' :: t => if t.head?.any Char.isDigit then none else some (['0'], t)
  | t => digits? t

/-- The fraction of a number, which may be missing. -/
def fraction? : Text → Option (Text × Text)
  | '.' :: t => digits? t
  | t => some ([], t)

/-- The exponent of a number, which may be missing. -/
def exponent? : Text → Option (Int × Text)
  | c :: t =>
    if c = 'e' ∨ c = 'E' then
      let (negative, t) := match t with
        | '-' :: t => (true, t)
        | '+' :: t => (false, t)
        | t => (false, t)
      (digits? t).map fun (ds, t) =>
        let n : Int := (ds.foldl (fun n c => 10 * n + (c.toNat - 48)) 0 : Nat)
        (if negative then -n else n, t)
    else some (0, c :: t)
  | [] => some (0, [])

/-- A number. One that no number of 64 bits comes near to is refused. -/
def number? (t : Text) : Option (Json × Text) := do
  let (negative, rest) := match t with
    | '-' :: t => (true, t)
    | t => (false, t)
  let (whole, rest) ← whole? rest
  let (fraction, rest) ← fraction? rest
  let (exponent, rest) ← exponent? rest
  let digits := (whole ++ fraction).foldl (fun n c => 10 * n + (c.toNat - 48)) 0
  match Binary.ofDecimal Binary.double negative digits (exponent - fraction.length) with
  | .finite .. => some (.number (t.take (t.length - rest.length)), rest)
  | _ => none

/-- The values of an array behind its bracket, each read by `item`. -/
def items? (item : Text → Option (Json × Text)) : Nat → Text → Option (List Json × Text)
  | 0, _ => none
  | fuel + 1, t => do
    let (v, t) ← item t
    match skipBlank t with
    | ',' :: t =>
      let (vs, t) ← items? item fuel t
      return (v :: vs, t)
    | ']' :: t => return ([v], t)
    | _ => none

/-- The fields of an object behind its brace, their values read by `item`. -/
def fields? (item : Text → Option (Json × Text)) : Nat → Text → Option (List (Text × Json) × Text)
  | 0, _ => none
  | fuel + 1, t => do
    let (key, t) ← quoted? (skipBlank t)
    match skipBlank t with
    | ':' :: t =>
      let (v, t) ← item t
      match skipBlank t with
      | ',' :: t =>
        let (fs, t) ← fields? item fuel t
        return ((key, v) :: fs, t)
      | '\x7d' :: t => return ([(key, v)], t)
      | _ => none
    | _ => none

/-- A word that stands for a value. -/
def word? (t : Text) : Option (Json × Text) :=
  match "null".toList.isPrefixOf? t, "true".toList.isPrefixOf? t, "false".toList.isPrefixOf? t with
  | some t, _, _ => some (.null, t)
  | _, some t, _ => some (.boolean true, t)
  | _, _, some t => some (.boolean false, t)
  | _, _, _ => none

/-- A value with white space in front of it. Arrays and objects lie within one another up to `depth`
times. -/
def value? : Nat → Text → Option (Json × Text)
  | 0, t =>
    match skipBlank t with
    | '"' :: t => (quoted? ('"' :: t)).map fun (s, t) => (.string s, t)
    | t => (word? t).or (number? t)
  | depth + 1, t =>
    match skipBlank t with
    | '[' :: t =>
      match skipBlank t with
      | ']' :: t => some (.array [], t)
      | t => (items? (value? depth) (t.length + 1) t).map fun (vs, t) => (.array vs, t)
    | '\x7b' :: t =>
      match skipBlank t with
      | '\x7d' :: t => some (.object [], t)
      | t => (fields? (value? depth) (t.length + 1) t).map fun (fs, t) => (.object fs, t)
    | '"' :: t => (quoted? ('"' :: t)).map fun (s, t) => (.string s, t)
    | t => (word? t).or (number? t)

/-- How far arrays and objects may lie within one another. -/
def maxDepth : Nat := 127

/-- The value that a whole text writes. -/
def read? (t : Text) : Option Json :=
  match value? maxDepth t with
  | some (v, rest) => if skipBlank rest = [] then some v else none
  | none => none

end DocBlocks.Json
