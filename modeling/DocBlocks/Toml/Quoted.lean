import DocBlocks.Text.Search

/-!
# Quoted TOML strings

Writes a string in the plainest of the four kinds of quotes that can hold it. Double quotes on one
line come first, then single quotes, then three double quotes, then three single quotes; what none
of them holds plainly is written with escapes.

## Main definitions

* `Toml.quoted`: a string in quotes.
-/

namespace DocBlocks.Toml

/-- Whether a character is a control character that only an escape can write. -/
def needsEscape (c : Char) : Bool :=
  (c < ' ' && c ≠ '\t' && c ≠ '\n') || c = '\x7f'

/-- Whether a text has `count` times the same character in a row. -/
def hasRun (count : Nat) (c : Char) (t : Text) : Bool :=
  (Text.breakAt? (List.replicate count c) t).isSome

/-- The hexadecimal digit of a number below 16. -/
def upperHex (n : Nat) : Char := "0123456789ABCDEF".toList.getD n '0'

/-- A character as an escape. -/
def escaped (c : Char) : Text :=
  match ([('\x08', 'b'), ('\t', 't'), ('\n', 'n'), ('\x0c', 'f'), ('\r', 'r'), ('"', '"'),
      ('\\', '\\')] : List (Char × Char)).lookup c with
  | some e => ['\\', e]
  | none => ['\\', 'u', '0', '0', upperHex (c.toNat / 16), upperHex (c.toNat % 16)]

/-- The inside of double quotes. Behind `quotes` double quotes in a row, of which `allowed` may
stand without an escape; line feeds stay as they are if the string spans lines. -/
def basicInside (allowed : Nat) (isLong : Bool) (quotes : Nat) : Text → Text
  | [] => []
  | c :: t =>
    if c = '"' then
      if quotes < allowed then c :: basicInside allowed isLong (quotes + 1) t
      else escaped c ++ basicInside allowed isLong 0 t
    else if (c = '\n' ∧ isLong) ∨ ¬ (c = '\t' ∨ c = '\n' ∨ c = '\\' ∨ needsEscape c) then
      c :: basicInside allowed isLong 0 t
    else escaped c ++ basicInside allowed isLong 0 t

/-- A string in one double quote at each end. -/
def basicQuoted (t : Text) : Text := ['"'] ++ basicInside 0 false 0 t ++ ['"']

/-- A string in three quotes at each end. If it spans lines its own first line starts on a new
line. -/
def longQuoted (quote : Char) (inside : Text) (t : Text) : Text :=
  List.replicate 3 quote ++ (if t.contains '\n' then ['\n'] else []) ++ inside ++ List.replicate 3 quote

/-- A string in quotes. -/
def quoted (t : Text) : Text :=
  let hasLines := t.contains '\n'
  let plain := !t.any needsEscape
  let slashed := t.contains '\\'
  let long := longQuoted '"' (basicInside 2 true 0 t) t
  if plain && !slashed && !hasRun 1 '"' t && !hasLines then basicQuoted t
  else if plain && !hasRun 1 '\'' t && !hasLines then ['\''] ++ t ++ ['\'']
  else if plain && !slashed && !hasRun 3 '"' t then long
  else if plain && !hasRun 3 '\'' t then longQuoted '\'' t t
  else if hasLines then long
  else basicQuoted t

end DocBlocks.Toml
