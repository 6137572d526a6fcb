import DocBlocks.Text.Search

/-!
# Addresses

The address of a service is read and brought into its normal form: names in small letters, no port
that goes without saying, no dots among the parts of the path, and everything that may not stand for
itself as percent codes.

## Main definitions

* `Url`: an address in its normal form.
* `Url.read?`: reads an address.
* `Url.render`: an address as a text.
-/

namespace DocBlocks

/-- An address in its normal form. -/
structure Url where
  scheme : Text
  /-- The name of a machine, with its port if that has to be told. -/
  host : Option Text
  path : Text
  query : Option Text
  fragment : Option Text
  deriving DecidableEq, Repr, Inhabited

namespace Url

/-- The schemes whose addresses all have the form of an address in the network, with the port that
goes without saying. -/
def networkPort? (scheme : Text) : Option Nat :=
  [("http".toList, 80), ("https".toList, 443), ("ws".toList, 80), ("wss".toList, 443),
    ("ftp".toList, 21)].lookup scheme

/-- The percent code of a byte. -/
def percent (b : UInt8) : Text :=
  let digit (n : Nat) : Char := "0123456789ABCDEF".toList.getD n '0'
  ['%', digit (b.toNat / 16), digit (b.toNat % 16)]

/-- A text with the characters of `special`, control characters and everything beyond ASCII as
percent codes. -/
def encode (special : Text) (t : Text) : Text :=
  t.flatMap fun c =>
    if c < ' ' ∨ '\x7f' ≤ c ∨ special.contains c then (String.utf8EncodeChar c).flatMap percent else [c]

/-- What may not stand for itself in a path. -/
def pathSpecial : Text := " \"#<>?`\x7b\x7d".toList

/-- What may not stand for itself in a query of an address in the network. -/
def querySpecial : Text := " \"#<>'".toList

/-- What may not stand for itself in a fragment. -/
def fragmentSpecial : Text := " \"<>`".toList

/-- The scheme in small letters, and what follows its colon. -/
def scheme? (t : Text) : Option (Text × Text) :=
  let isPart (c : Char) : Bool := c.isAlphanum || ['+', '-', '.'].contains c
  match t.takeWhile isPart, t.dropWhile isPart with
  | c :: name, ':' :: rest => if c.isAlpha then some ((c :: name).map Char.toLower, rest) else none
  | _, _ => none

/-- Whether a part of a path stands for the part itself. -/
def isDot (part : Text) : Bool := ["." , "%2e"].contains (String.ofList (part.map Char.toLower))

/-- Whether a part of a path stands for the part in front of it. -/
def isDoubleDot (part : Text) : Bool :=
  ["..", ".%2e", "%2e.", "%2e%2e"].contains (String.ofList (part.map Char.toLower))

/-- The parts of a path, the last first, behind those already taken. -/
def resolve : List Text → List Text → List Text
  | taken, [] => taken
  | taken, part :: rest =>
    if isDoubleDot part then
      resolve (if rest = [] then [] :: taken.drop 1 else taken.drop 1) rest
    else if isDot part then resolve (if rest = [] then [] :: taken else taken) rest
    else resolve (part :: taken) rest

/-- The normal form of a path that starts with a slash. -/
def normalPath (t : Text) : Text :=
  let parts := resolve [] ((t.drop 1).splitOn '/')
  '/' :: ['/'].intercalate (parts.reverse.map (encode pathSpecial))

/-- A port, left out if it goes without saying. -/
def port? (usual : Option Nat) (t : Text) : Option (Option Nat) :=
  if t = [] then some none
  else if t.all Char.isDigit then
    let n := t.foldl (fun n c => 10 * n + (c.toNat - 48)) 0
    if 65535 < n then none else some (if some n = usual then none else some n)
  else none

/-- The normal form of a machine's name with its port. What stands in front of an at sign does not
count. -/
def host? (usual : Option Nat) (t : Text) : Option Text :=
  let (_, t) := Text.splitBehindLast ['@'] t
  let name := t.takeWhile (· ≠ ':')
  let isName (c : Char) : Bool := c.isAlphanum || ['-', '.', '_', '~', '!', '$', '&', '+'].contains c
  if name = [] ∨ ¬ name.all isName then none
  else
    (port? usual (t.drop (name.length + 1))).map fun port =>
      name.map Char.toLower ++ (port.map fun n => ':' :: Nat.toDigits 10 n).getD []

/-- A text cut in front of a character, without that character. -/
def cut (c : Char) (t : Text) : Text × Option Text :=
  match t.dropWhile (· ≠ c) with
  | [] => (t, none)
  | _ :: rest => (t.takeWhile (· ≠ c), some rest)

/-- An address. -/
def read? (t : Text) : Option Url := do
  let trimmed := ((t.dropWhile (· ≤ ' ')).reverse.dropWhile (· ≤ ' ')).reverse
  let (scheme, rest) ← scheme? (trimmed.filter fun c => ¬ ['\t', '\n', '\r'].contains c)
  let (rest, fragment) := cut '#' rest
  let (rest, query) := cut '?' rest
  let fragment := fragment.map (encode fragmentSpecial)
  let query := query.map (encode querySpecial)
  let usual := networkPort? scheme
  let slashed := if usual.isSome then rest.map fun c => if c = '\\' then '/' else c else rest
  if usual.isSome ∨ ['/', '/'].isPrefixOf slashed then
    let rest := slashed.dropWhile (· = '/')
    let host ← host? usual (rest.takeWhile (· ≠ '/'))
    return ⟨scheme, some host, normalPath (rest.dropWhile (· ≠ '/')), query, fragment⟩
  else if ['/'].isPrefixOf rest then return ⟨scheme, none, normalPath rest, query, fragment⟩
  else return ⟨scheme, none, encode [] rest, query, fragment⟩

/-- An address as a text. -/
def render (u : Url) : Text :=
  u.scheme ++ [':'] ++ (u.host.map fun h => ['/', '/'] ++ h).getD [] ++ u.path ++
    (u.query.map ('?' :: ·)).getD [] ++ (u.fragment.map ('#' :: ·)).getD []

/-- Whether an address can be asked for anything: it names a machine, and the way to talk to it is
known. -/
def isReachable (u : Url) : Bool :=
  u.host.isSome && (u.scheme = "http".toList || u.scheme = "https".toList)

end Url

end DocBlocks
