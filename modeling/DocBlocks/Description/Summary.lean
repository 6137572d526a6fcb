import DocBlocks.CodeUnit
import DocBlocks.Text.LowerCase
import DocBlocks.Text.Search

/-!
# Summaries

A sentence about a code unit, made from its name and from the names it calls. The first word of the
name tells what the unit does if it is one of a few verbs.

## Main definitions

* `Summary.spaced`, `Summary.unmarked`: two passes over a name, which put white space between its
  words.
* `Summary.words`: the words of a name in lower case.
* `CodeUnit.summarize`: the sentence about a unit.
-/

namespace DocBlocks

namespace Summary

/-- Whether a capital starts a new word: it stands behind a small letter or a digit, all of them in
ASCII. -/
def isBoundary (before after : Char) : Bool :=
  (before.isLower || before.isDigit) && after.isUpper

/-- A name with a blank between each small letter or digit and a capital behind it. The pairs are
looked for from the left, and the search goes on behind a pair that it has found. -/
def spaced : Text → Text
  | a :: b :: t => if isBoundary a b then a :: ' ' :: b :: spaced t else a :: spaced (b :: t)
  | t => t

/-- The marks that separate the words of a name. -/
def isMark (c : Char) : Bool := c = '_' || c = '-'

/-- A name with a blank for each run of marks, in place of the last of them. -/
def unmarked : Text → Text
  | [] => []
  | c :: t =>
    if isMark c then if t.head?.any isMark then unmarked t else ' ' :: unmarked t else c :: unmarked t

/-- The words of a name in lower case. -/
def words (name : Text) : List Text := (Text.words (unmarked (spaced name))).map Text.lowerCase

/-- The verbs that start a name, with their form in a sentence. -/
def verbs : List (Text × Text) :=
  [("get", "gets"), ("set", "sets"), ("compute", "computes"), ("calculate", "calculates"),
    ("fetch", "fetches"), ("load", "loads"), ("render", "renders"), ("handle", "handles"),
    ("parse", "parses"), ("format", "formats"), ("validate", "validates"), ("transform", "transforms"),
    ("build", "builds"), ("update", "updates"), ("create", "creates")].map fun (word, form) =>
    (word.toList, form.toList)

/-- What a unit does whose name has the words `first` and `rest`. -/
def predicate (first : Text) (rest : List Text) : Text :=
  match verbs.lookup first, rest with
  | some verb, [] => verb
  | some verb, _ => verb ++ [' '] ++ [' '].intercalate rest
  | none, [] => "performs ".toList ++ first
  | none, _ => "performs ".toList ++ [' '].intercalate rest

/-- Whether a called name is known to reach for the network. -/
def isNetworkCall (name : Text) : Bool :=
  "fetch".toList.isPrefixOf name || "axios".toList.isPrefixOf name ||
    (Text.breakAt? "http".toList name).isSome

/-- A sentence with a capital at its start. -/
def capitalize : Text → Text
  | [] => []
  | c :: t => c.toUpper :: t

end Summary

/-- The sentence about a unit, empty if its name has no words. -/
def CodeUnit.summarize (u : CodeUnit) : Text :=
  match Summary.words u.name with
  | [] => []
  | first :: rest =>
    let sentence := Summary.predicate first rest
    if u.isAsync || u.called.any Summary.isNetworkCall then "Asynchronously ".toList ++ sentence
    else Summary.capitalize sentence

end DocBlocks
