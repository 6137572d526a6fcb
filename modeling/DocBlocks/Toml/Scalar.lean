import DocBlocks.Toml.Value

/-!
# TOML scalars

Readers for the parts of a document that hold no other values. A reader takes a text and returns
what it has read and the rest, or nothing if the text does not start with what it reads.

## Main definitions

* `Toml.basicString?`, `Toml.literalString?`: strings on one line.
* `Toml.string?`: strings of all four kinds.
* `Toml.moment?`: dates and times.
* `Toml.number?`: whole numbers and numbers with a fraction or an exponent.
* `Toml.key?`: dotted keys.
-/

namespace DocBlocks.Toml

/-- Whether a character is a space or a tab. -/
def isBlank (c : Char) : Bool := c = ' ' || c = '\t'

/-- A text without the spaces and tabs at its start. -/
def skipBlank (t : Text) : Text := t.dropWhile isBlank

/-- Whether a character may stand in a comment or a string: it is the tab or no control
character. -/
def isPlain (c : Char) : Bool := c = '\t' || (' ' ≤ c && c ≠ '\x7f')

/-- A text without the line feed at its start, which may have a carriage return in front of it. -/
def newline? : Text → Option Text
  | '\n' :: t => some t
  | '\r' :: '\n' :: t => some t
  | _ => none

/-- A text without white space, line feeds and comments at its start. -/
def skipLoose (inComment : Bool) : Text → Text
  | [] => []
  | c :: t =>
    if c = '\n' then skipLoose false t
    else if c = '\r' ∧ t.head? = some '\n' then skipLoose inComment t
    else if inComment then if isPlain c then skipLoose true t else c :: t
    else if isBlank c then skipLoose false t
    else if c = '#' then skipLoose true t
    else c :: t

/-- A text without the rest of its first line, on which only a comment may stand. -/
def endLine? (t : Text) : Option Text :=
  match skipBlank t with
  | [] => some []
  | '#' :: t =>
    match t.dropWhile isPlain with
    | [] => some []
    | rest => newline? rest
  | rest => newline? rest

/-! ## Strings -/

/-- The value of a hexadecimal digit. -/
def hexValue? (c : Char) : Option Nat :=
  if c.isDigit then some (c.toNat - 48)
  else if 'a' ≤ c ∧ c ≤ 'f' then some (c.toNat - 87)
  else if 'A' ≤ c ∧ c ≤ 'F' then some (c.toNat - 55)
  else none

/-- The character with the number that `count` hexadecimal digits spell. -/
def codePoint? (count : Nat) (t : Text) : Option (Char × Text) := do
  let digits ← (t.take count).mapM hexValue?
  let n := digits.foldl (16 * · + ·) 0
  if digits.length = count ∧ n.isValidChar then some (Char.ofNat n, t.drop count) else none

/-- The character that an escape stands for, behind its backslash. -/
def escape? : Text → Option (Char × Text)
  | 'u' :: t => codePoint? 4 t
  | 'U' :: t => codePoint? 8 t
  | c :: t =>
    (([('b', '\x08'), ('t', '\t'), ('n', '\n'), ('f', '\x0c'), ('r', '\r'), ('"', '"'),
      ('\\', '\\')] : List (Char × Char)).lookup c).map (·, t)
  | [] => none

/-- The rest of a string in double quotes. -/
def basicBody? : Nat → Text → Option (Text × Text)
  | 0, _ => none
  | fuel + 1, t =>
    match t with
    | '"' :: t => some ([], t)
    | '\\' :: t => do
      let (c, t) ← escape? t
      let (s, t) ← basicBody? fuel t
      return (c :: s, t)
    | c :: t =>
      if isPlain c then (basicBody? fuel t).map fun (s, t) => (c :: s, t) else none
    | [] => none

/-- A string in double quotes. -/
def basicString? : Text → Option (Text × Text)
  | '"' :: t => basicBody? (t.length + 1) t
  | _ => none

/-- A string in single quotes. -/
def literalString? : Text → Option (Text × Text)
  | '\'' :: t =>
    let isInner (c : Char) : Bool := isPlain c && c ≠ '\''
    match t.dropWhile isInner with
    | '\'' :: rest => some (t.takeWhile isInner, rest)
    | _ => none
  | _ => none

/-- What stands behind a backslash at the end of a line: everything but the white space that
follows. -/
def continued? (t : Text) : Option Text :=
  (newline? (skipBlank t)).map fun t =>
    t.dropWhile fun c => isBlank c || c = '\n' || c = '\r'

/-- The rest of a string of several lines in three quotes. Up to two more quotes may stand in front
of the last three. -/
def longBody? (quote : Char) : Nat → Text → Option (Text × Text)
  | 0, _ => none
  | fuel + 1, t =>
    let quotes := t.takeWhile (· = quote)
    if 3 ≤ quotes.length then
      if quotes.length ≤ 5 then some (quotes.drop 3, t.drop quotes.length) else none
    else
      match t, newline? t with
      | _, some t => (longBody? quote fuel t).map fun (s, t) => ('\n' :: s, t)
      | c :: t, none =>
        if c = '\\' ∧ quote = '"' then
          match continued? t with
          | some t => longBody? quote fuel t
          | none => do
            let (c, t) ← escape? t
            let (s, t) ← longBody? quote fuel t
            return (c :: s, t)
        else if isPlain c then (longBody? quote fuel t).map fun (s, t) => (c :: s, t)
        else none
      | [], none => none

/-- A string of several lines. A line feed right behind the opening quotes does not count. -/
def longString? (quote : Char) (t : Text) : Option (Text × Text) :=
  match [quote, quote, quote].isPrefixOf? t with
  | some t =>
    let t := (newline? t).getD t
    longBody? quote (t.length + 1) t
  | none => none

/-- A string of any kind. -/
def string? (t : Text) : Option (Text × Text) :=
  if ['"', '"', '"'].isPrefixOf t then longString? '"' t
  else if ['\'', '\'', '\''].isPrefixOf t then longString? '\'' t
  else (basicString? t).or (literalString? t)

/-! ## Dates and times -/

/-- A number of exactly `count` decimal digits. -/
def fixed? (count : Nat) (t : Text) : Option (Nat × Text) :=
  let digits := t.take count
  if digits.length = count ∧ digits.all Char.isDigit then
    some (digits.foldl (fun n c => 10 * n + (c.toNat - 48)) 0, t.drop count)
  else none

/-- A text without the character `c` at its start. -/
def exactly? (c : Char) : Text → Option Text
  | d :: t => if d = c then some t else none
  | [] => none

/-- The number of days of a month. -/
def daysOf (year month : Nat) : Nat :=
  if month = 2 then if year % 4 = 0 ∧ (year % 100 ≠ 0 ∨ year % 400 = 0) then 29 else 28
  else if month = 4 ∨ month = 6 ∨ month = 9 ∨ month = 11 then 30
  else 31

/-- The text behind a date. -/
def date? (t : Text) : Option Text := do
  let (year, t) ← fixed? 4 t
  let t ← exactly? '-' t
  let (month, t) ← fixed? 2 t
  let t ← exactly? '-' t
  let (day, t) ← fixed? 2 t
  if 1 ≤ month ∧ month ≤ 12 ∧ 1 ≤ day ∧ day ≤ daysOf year month then some t else none

/-- The text behind a time of day. -/
def time? (t : Text) : Option Text := do
  let (hour, t) ← fixed? 2 t
  let t ← exactly? ':' t
  let (minute, t) ← fixed? 2 t
  let t ← exactly? ':' t
  let (second, t) ← fixed? 2 t
  if hour ≤ 23 ∧ minute ≤ 59 ∧ second ≤ 60 then
    match t with
    | '.' :: c :: rest => if c.isDigit then some (rest.dropWhile Char.isDigit) else some t
    | _ => some t
  else none

/-- The text behind the offset of a time zone. -/
def offset? : Text → Option Text
  | 'Z' :: t | 'z' :: t => some t
  | '+' :: t | '-' :: t => do
    let (hour, t) ← fixed? 2 t
    let t ← exactly? ':' t
    let (minute, t) ← fixed? 2 t
    if hour ≤ 23 ∧ minute ≤ 59 then some t else none
  | _ => none

/-- The text behind a time that follows a date. -/
def timeOfDate? : Text → Option Text
  | 'T' :: t | 't' :: t | ' ' :: t => (time? t).map fun t => (offset? t).getD t
  | _ => none

/-- The text behind a date, a time, or both. -/
def moment? (t : Text) : Option Text :=
  match date? t with
  | some t => some ((timeOfDate? t).getD t)
  | none => time? t

/-! ## Numbers -/

/-- Digits that may have a low line between any two of them, and the rest of the text. -/
def digitTail (isDigit : Char → Bool) : Text → Text × Text
  | [] => ([], [])
  | [c] => if isDigit c then ([c], []) else ([], [c])
  | c :: d :: t =>
    if isDigit c then
      let (ds, rest) := digitTail isDigit (d :: t)
      (c :: ds, rest)
    else if c = '_' ∧ isDigit d then digitTail isDigit (d :: t)
    else ([], c :: d :: t)

/-- At least one digit, and more that may have low lines between them. -/
def digits? (isDigit : Char → Bool) : Text → Option (Text × Text)
  | c :: t => if isDigit c then some (digitTail isDigit (c :: t)) else none
  | [] => none

/-- The number that digits spell in a base. -/
def spelled (base : Nat) (digits : Text) : Nat :=
  digits.foldl (fun n c => base * n + (hexValue? c).getD 0) 0

/-- The sign at the start of a text, true for a minus, and the rest. -/
def sign : Text → Bool × Text
  | '-' :: t => (true, t)
  | '+' :: t => (false, t)
  | t => (false, t)

/-- The decimal digits of a whole number. No zero stands in front of others. -/
def decimal? : Text → Option (Text × Text)
  | '0' :: t => some (['0'], t)
  | t => digits? Char.isDigit t

/-- The exponent of a number. -/
def exponent? : Text → Option (Int × Text)
  | c :: t =>
    if c = 'e' ∨ c = 'E' then
      let (negative, t) := sign t
      (digits? Char.isDigit t).map fun (ds, t) =>
        let n : Int := spelled 10 ds
        (if negative then -n else n, t)
    else none
  | [] => none

/-- The fraction and the exponent of a number, of which one may be missing: the digits of the first,
the value of the second. -/
def fractional? : Text → Option (Text × Int × Text)
  | '.' :: t => do
    let (ds, t) ← digits? Char.isDigit t
    match exponent? t with
    | some (e, t) => return (ds, e, t)
    | none => return (ds, 0, t)
  | t => (exponent? t).map fun (e, t) => ([], e, t)

/-- A word for a number that has no digits. -/
def special? (negative : Bool) (t : Text) : Option (Value × Text) :=
  match "inf".toList.isPrefixOf? t with
  | some t => some (.float (.infinite negative), t)
  | none => ("nan".toList.isPrefixOf? t).map (.float .nan, ·)

/-- A whole number, if it fits into 64 bits. -/
def integer? (i : Int) (t : Text) : Option (Value × Text) :=
  if Int64.minValue.toInt ≤ i ∧ i ≤ Int64.maxValue.toInt then some (.integer i, t) else none

/-- A number with a fraction or an exponent. One that is too great is refused; a negative one
becomes infinite. -/
def float? (negative : Bool) (digits fraction : Text) (exponent : Int) (t : Text) : Option (Value × Text) :=
  let x := Binary.ofDecimal Binary.double negative (spelled 10 (digits ++ fraction)) (exponent - fraction.length)
  if x = .infinite false then none else some (.float x, t)

/-- A number in the base that the mark behind its leading zero names. -/
def based? (base : Nat) (t : Text) : Option (Value × Text) := do
  let (ds, t) ← digits? (fun c => (hexValue? c).any (· < base)) t
  integer? (spelled base ds) t

/-- A number. -/
def number? : Text → Option (Value × Text)
  | '0' :: 'x' :: t => based? 16 t
  | '0' :: 'o' :: t => based? 8 t
  | '0' :: 'b' :: t => based? 2 t
  | t =>
    let (negative, t) := sign t
    match decimal? t with
    | none => special? negative t
    | some (digits, t) =>
      match fractional? t with
      | some (fraction, exponent, t) => float? negative digits fraction exponent t
      | none =>
        let n : Int := spelled 10 digits
        integer? (if negative then -n else n) t

/-! ## Keys -/

/-- Whether a character may stand in a key without quotes. -/
def isBare (c : Char) : Bool := c.isAlphanum || c = '_' || c = '-'

/-- One part of a key. -/
def part? (t : Text) : Option (Text × Text) :=
  match t.takeWhile isBare with
  | [] => (basicString? t).or (literalString? t)
  | bare => some (bare, t.dropWhile isBare)

/-- The parts of a dotted key, with blanks around each, at most `fuel` of them. -/
def parts? : Nat → Text → Option (List Text × Text)
  | 0, _ => none
  | fuel + 1, t => do
    let (p, t) ← part? (skipBlank t)
    match skipBlank t with
    | '.' :: t =>
      let (ps, t) ← parts? fuel t
      return (p :: ps, t)
    | t => return ([p], t)

/-- A key: the parts of its path, and its last part. A key has fewer than eighty parts. -/
def key? (t : Text) : Option (List Text × Text × Text) := do
  let (ps, t) ← parts? 79 t
  return (ps.dropLast, ← ps.getLast?, t)

end DocBlocks.Toml
