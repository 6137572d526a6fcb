import DocBlocks.Grammar.Trivia

/-!
# Lexemes

The spellings of names, numbers, escapes and regular expressions. Each recogniser splits a text into
the longest lexeme of its class at the start and the rest, or finds none.

## Main definitions

* `name?`, `privateName?`: names, with Unicode escapes.
* `number?`: decimal, hexadecimal, octal and binary numbers, with separators and the suffix `n`.
* `escape?`: escape sequences of strings and templates.
* `regexPattern?`: the pattern between the slashes of a regular expression.
-/

namespace DocBlocks.Grammar

/-- A recogniser of lexemes. -/
abbrev Recogniser := Text → Option (Text × Text)

/-- The longest non-empty prefix of characters in a class. -/
def takeSome (p : Char → Bool) : Recogniser := fun t =>
  match t.takeWhile p with
  | [] => none
  | lexeme => some (lexeme, t.dropWhile p)

/-- The given spelling. -/
def spelled (s : Text) : Recogniser := fun t =>
  if s.isPrefixOf t then some (s, t.drop s.length) else none

/-- The given spelling, with no character of `notBefore` behind it. -/
def spelledAlone (s notBefore : Text) : Recogniser := fun t =>
  if s.isPrefixOf t ∧ !((t.drop s.length).head?.map notBefore.contains).getD false then
    some (s, t.drop s.length)
  else none

/-! ## Names -/

/-- Hexadecimal digits. -/
def isHexDigit (c : Char) : Bool :=
  c.isDigit || ('a' ≤ c && c ≤ 'f') || ('A' ≤ c && c ≤ 'F')

/-- The punctuation that no name contains. -/
def isPunctuation (c : Char) : Bool :=
  let n := c.toNat
  (0x21 ≤ n && n ≤ 0x23) || (0x25 ≤ n && n ≤ 0x2F) || (0x3A ≤ n && n ≤ 0x40) || (0x5B ≤ n && n ≤ 0x5E) ||
    n = 0x60 || (0x7B ≤ n && n ≤ 0x7E)

/-- The characters a name may contain: all but control characters, blanks and punctuation. -/
def isNamePart (c : Char) : Bool :=
  c.isAlphanum || c = '_' || c = '$' ||
    (0x1F < c.toNat && !isPunctuation c && !isBlank c)

/-- The characters a name may start with. -/
def isNameStart (c : Char) : Bool :=
  isNamePart c && !c.isDigit

/-- A Unicode escape: `\u` with four digits, or with any number of digits in braces. -/
def unicodeEscape? : Recogniser
  | '\\' :: 'u' :: '{' :: t =>
    match takeSome isHexDigit t with
    | some (digits, '}' :: rest) => some ('\\' :: 'u' :: '{' :: (digits ++ ['}']), rest)
    | _ => none
  | '\\' :: 'u' :: t =>
    let digits := t.take 4
    if digits.length = 4 ∧ digits.all isHexDigit then some ('\\' :: 'u' :: digits, t.drop 4) else none
  | _ => none

/-- The longest run of name characters and Unicode escapes, in at most `n` pieces. -/
def nameParts : Nat → Text → Text × Text
  | 0, t => ([], t)
  | n + 1, t =>
    match takeSome isNamePart t with
    | some (run, rest) =>
      let (more, rest) := nameParts n rest
      (run ++ more, rest)
    | none =>
      match unicodeEscape? t with
      | some (run, rest) =>
        let (more, rest) := nameParts n rest
        (run ++ more, rest)
      | none => ([], t)

/-- A name. -/
def name? : Recogniser := fun t =>
  match t with
  | [] => none
  | c :: _ =>
    if isNameStart c ∨ (unicodeEscape? t).isSome then some (nameParts t.length t) else none

/-- A private name: a name behind a number sign. -/
def privateName? : Recogniser
  | '#' :: t => (name? t).map fun (lexeme, rest) => ('#' :: lexeme, rest)
  | _ => none

/-- A name that is none of the given words. -/
def nameExcept? (words : List String) : Recogniser := fun t =>
  match name? t with
  | some (lexeme, rest) => if words.any (fun w => w.toList = lexeme) then none else some (lexeme, rest)
  | none => none

/-- The given word, as a whole name. -/
def word? (w : Text) : Recogniser := fun t =>
  match name? t with
  | some (lexeme, rest) => if lexeme = w then some (lexeme, rest) else none
  | none => none

/-- A name of markup: a name with at least one hyphen. -/
def hyphenName? : Recogniser := fun t =>
  let ascii := fun c : Char => c.isAlphanum || c = '_' || c = '$'
  match t.takeWhile ascii with
  | [] => none
  | c :: first =>
    if c.isDigit then none
    else
      match t.dropWhile ascii with
      | '-' :: rest =>
        let tail := fun c => ascii c || c = '-'
        some (c :: first ++ '-' :: rest.takeWhile tail, rest.dropWhile tail)
      | _ => none

/-! ## Numbers -/

/-- Digits of a class, single underscores between them, in at most `n` groups. -/
def digitGroups (digit : Char → Bool) : Nat → Recogniser
  | 0, _ => none
  | n + 1, t =>
    match takeSome digit t with
    | some (run, '_' :: rest) =>
      match digitGroups digit n rest with
      | some (more, rest') => some (run ++ '_' :: more, rest')
      | none => some (run, '_' :: rest)
    | found => found

/-- Digits of a class, single underscores between them. -/
def digits (digit : Char → Bool) : Recogniser := fun t => digitGroups digit t.length t

/-- An exponent: `e`, a sign if there is one, and digits. -/
def exponent? : Recogniser
  | e :: t =>
    if e = 'e' ∨ e = 'E' then
      match t with
      | sign :: r =>
        if sign = '+' ∨ sign = '-' then
          (digits Char.isDigit r).map fun (ds, rest) => (e :: sign :: ds, rest)
        else (digits Char.isDigit t).map fun (ds, rest) => (e :: ds, rest)
      | [] => none
    else none
  | [] => none

/-- The two parts of an optional lexeme: empty if there is none. -/
def optional (r : Recogniser) (t : Text) : Text × Text :=
  (r t).getD ([], t)

/-- A number in another base: its mark, its digits, and `n` if that follows. -/
def basedNumber? (mark : List Char) (digit : Char → Bool) : Recogniser
  | '0' :: m :: t =>
    if mark.contains m then
      match digits digit t with
      | some (ds, 'n' :: rest) => some ('0' :: m :: (ds ++ ['n']), rest)
      | some (ds, rest) => some ('0' :: m :: ds, rest)
      | none => none
    else none
  | _ => none

/-- Whether digits may have a fraction or an exponent: a zero, or digits with at most one leading
zero. -/
def isIntegerPart : Text → Bool
  | ['0'] => true
  | '0' :: c :: _ => c.isDigit && c ≠ '0'
  | _ => true

/-- A decimal number. -/
def decimal? : Recogniser := fun t =>
  match t with
  | '.' :: r =>
    (digits Char.isDigit r).map fun (ds, rest) =>
      let (e, rest) := optional exponent? rest
      ('.' :: ds ++ e, rest)
  | _ =>
    match digits Char.isDigit t with
    | none => none
    | some (ds, rest) =>
      match rest with
      | 'n' :: r => some (ds ++ ['n'], r)
      | '.' :: r =>
        if isIntegerPart ds then
          let (fraction, rest) := optional (digits Char.isDigit) r
          let (e, rest) := optional exponent? rest
          some (ds ++ '.' :: fraction ++ e, rest)
        else some (ds, rest)
      | _ =>
        if isIntegerPart ds then
          let (e, rest) := optional exponent? rest
          some (ds ++ e, rest)
        else some (ds, rest)

/-- A number. -/
def number? : Recogniser := fun t =>
  match basedNumber? ['x', 'X'] isHexDigit t with
  | some found => some found
  | none =>
    match basedNumber? ['b', 'B'] (fun c => c = '0' || c = '1') t with
    | some found => some found
    | none =>
      match basedNumber? ['o', 'O'] (fun c => '0' ≤ c && c ≤ '7') t with
      | some found => some found
      | none => decimal? t

/-! ## Escapes and patterns -/

/-- An escape sequence of a string or template. -/
def escape? : Recogniser
  | '\\' :: 'x' :: t =>
    let ds := t.take 2
    if ds.length = 2 ∧ ds.all isHexDigit then some ('\\' :: 'x' :: ds, t.drop 2) else none
  | '\\' :: 'u' :: t => unicodeEscape? ('\\' :: 'u' :: t)
  | '\\' :: c :: t =>
    if '0' ≤ c ∧ c ≤ '7' then
      let ds := ((c :: t).take 3).takeWhile fun c => '0' ≤ c && c ≤ '7'
      some ('\\' :: ds, (c :: t).drop ds.length)
    else
      match t with
      | b :: r =>
        if (c = '\r' ∨ c = '?') ∧ (b = '\n' ∨ isLineSeparator b) then some (['\\', c, b], r)
        else some (['\\', c], t)
      | [] => some (['\\', c], t)
  | _ => none

/-- What follows the longest pattern of a regular expression: it stops at a slash, at the end of the
line, and at a bracket that this line does not close. `opened` is the text from the bracket on that
is still to be closed; a slash inside brackets is part of the pattern. -/
def behindPattern (opened : Option Text) : Text → Text
  | '\\' :: c :: t => if c = '\n' then opened.getD ('\\' :: c :: t) else behindPattern opened t
  | ['\\'] => opened.getD ['\\']
  | '\n' :: t => opened.getD ('\n' :: t)
  | '[' :: t => behindPattern (some (opened.getD ('[' :: t))) t
  | ']' :: t => behindPattern none t
  | '/' :: t => if opened.isSome then behindPattern opened t else '/' :: t
  | _ :: t => behindPattern opened t
  | [] => opened.getD []

/-- The pattern of a regular expression. -/
def regexPattern? : Recogniser := fun t =>
  let rest := behindPattern none t
  match t.take (t.length - rest.length) with
  | [] => none
  | pattern => some (pattern, rest)

end DocBlocks.Grammar
