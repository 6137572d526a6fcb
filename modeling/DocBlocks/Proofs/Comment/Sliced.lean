import DocBlocks.Proofs.Comment.Run
import Mathlib.Data.List.TakeWhile

/-!
# Comments above a place, by slices

The search for comments above a place works on byte offsets: it slices the source in front of the
place, and slices what it got again at offsets that it computed. Each slice can fail. It never comes
to that, whatever the source is and wherever the place is: what is computed from a text are always
cuts of it.

## Main definitions

* `Text.lineStart?`: the start of a line, by a slice.
* `Comment.slicedBlock?`, `Comment.slicedRun?`: the search with each of its slices.

## Main results

* `Text.lineStart?_append`: the start of the line of a cut.
* `Comment.slicedBlock?_eq`, `Comment.slicedRun?_eq`: no slice of the search fails.
-/

namespace DocBlocks

namespace Text

/-! ## Slices at the ends of a text -/

/-- The difference of two numbers of bytes. There is none if it is negative. -/
def less? (n m : Nat) : Option Nat := if m ≤ n then some (n - m) else none

/-- What is in front of the end of a text has all its bytes but those of the end. -/
lemma less?_append (a b : Text) : less? (bytes (a ++ b)) (bytes b) = some (bytes a) := by
  rw [bytes_append, less?, if_pos (Nat.le_add_left _ _), Nat.add_sub_cancel]

/-- The slice up to a cut. -/
lemma slice?_front (a b : Text) : slice? (a ++ b) 0 (bytes a) = some a := by
  simpa using slice?_append [] a b

/-- The slice from a cut on. -/
lemma slice?_back (a b : Text) : slice? (a ++ b) (bytes a) (bytes (a ++ b)) = some b := by
  simpa using slice?_append a b []

/-- The slice up to a byte is what is in front of it. -/
lemma slice?_zero (t : Text) (n : Nat) : slice? t 0 n = (splitAt? t n).map Prod.fst := by
  rw [slice?, if_pos (Nat.zero_le n)]
  cases t <;> rfl

/-- Nothing is left of a text without the white space at its ends exactly if there is nothing else
in it. -/
lemma trim_eq_nil_iff {t : Text} : trim t = [] ↔ t.all isWhite := by
  rw [trim, trimEnd, List.reverse_eq_nil_iff, List.dropWhile_eq_nil_iff, List.all_eq_true]
  simp only [List.mem_reverse]
  constructor
  · intro h c hc
    rw [← List.takeWhile_append_dropWhile (p := isWhite) (l := t), List.mem_append] at hc
    rcases hc with hc | hc
    · exact List.mem_takeWhile_imp hc
    · exact h c hc
  · intro h c hc
    exact h c ((List.dropWhile_sublist isWhite).subset hc)

/-! ## The start of a line -/

/-- The start of the line that a byte is on: the place behind the last line feed in front of it. -/
def lineStart? (t : Text) (pos : Nat) : Option Nat := do
  let before ← t.slice? 0 pos
  return match breakAtLast? ['\n'] before with
    | some (front, _) => front.bytes + 1
    | none => 0

/-- The last line of a text starts behind the last line feed. -/
lemma bytes_splitLastLine (t : Text) :
    bytes (splitLastLine t).1 =
      match breakAtLast? ['\n'] t with
      | some (front, _) => front.bytes + 1
      | none => 0 := by
  cases h : breakAtLast? ['\n'] t with
  | none =>
    have hline : '\n' ∉ t := by
      intro hmem
      obtain ⟨x, y, rfl⟩ := List.append_of_mem hmem
      exact breakAtLast?_eq_none_iff.mp h ⟨x, y, by simp⟩
    have hsplit : splitLastLine t = ([], t) := splitLastLine_eq_iff.mpr ⟨rfl, hline, .inl rfl⟩
    rw [hsplit]
    rfl
  | some found =>
    obtain ⟨front, rest⟩ := found
    obtain ⟨rfl, ⟨line, rfl⟩, hlast⟩ := breakAtLast?_eq_some (by simp) h
    have hline : '\n' ∉ line := by
      intro hmem
      obtain ⟨x, y, rfl⟩ := List.append_of_mem hmem
      exact hlast ⟨x, y, by simp⟩
    have hsplit : splitLastLine (front ++ (['\n'] ++ line)) = (front ++ ['\n'], line) :=
      splitLastLine_eq_iff.mpr ⟨by simp, hline, .inr (by simp)⟩
    rw [hsplit, bytes_append]
    rfl

/-- **The start of the line** of a cut is the start of the last line in front of it. -/
lemma lineStart?_append (a b : Text) : lineStart? (a ++ b) (bytes a) = some (bytes (splitLastLine a).1) := by
  rw [lineStart?, slice?_front, bytes_splitLastLine]
  rfl

end Text

namespace Comment

open Text

/-! ## The search -/

/-- The search for the start of the block comment that ends a text, slice by slice. There is no
answer if a slice fails or a number of bytes is negative. -/
def slicedStart? (text : Text) : Option (Option Nat) :=
  if closer.isSuffixOf text then do
    let body ← text.slice? 0 (← less? text.bytes closer.bytes)
    let behind := match breakAtLast? closer body with
      | some (front, _) => front.bytes + closer.bytes
      | none => 0
    let tail ← body.slice? behind body.bytes
    return (breakAt? opener tail).map fun (front, _) => behind + front.bytes
  else some none

/-- The search for the documentation comment above a place, slice by slice. There is no answer if a
slice fails. If the source cannot be cut at the place itself, nothing is found. -/
def slicedBlock? (source : Text) (position : Nat) : Option (Option Span) :=
  match source.slice? 0 position with
  | none => some none
  | some before => do
    let text := before.trimEnd
    let gap ← before.slice? text.bytes before.bytes
    if gap.lineBreaks ≤ 1 then
      match ← slicedStart? text with
      | none => return none
      | some start =>
        if isDoc (← text.slice? start text.bytes) then
          let line ← source.lineStart? start
          let indent ← source.slice? line start
          return some ⟨if indent.trim = [] then line else start, position⟩
        else return none
    else return none

/-- The search for comments above those already found, at most `n` of them, slice by slice. -/
def slicedEarlier? (source : Text) : Nat → Span → Option Span
  | 0, run => some run
  | n + 1, run => do
    match ← slicedBlock? source run.start with
    | some earlier => slicedEarlier? source n ⟨earlier.start, run.stop⟩
    | none => return run

/-- The search for the documentation comments stacked above a place, slice by slice. -/
def slicedRun? (source : Text) (position count : Nat) : Option (Option Span) := do
  match ← slicedBlock? source position with
  | some run => return some (← slicedEarlier? source (count - 1) run)
  | none => return none

/-! ## No slice fails -/

/-- The last closer of a text ends where the text is cut behind it. -/
lemma bytes_splitBehindLast (t : Text) :
    bytes (splitBehindLast closer t).1 =
      match breakAtLast? closer t with
      | some (front, _) => front.bytes + closer.bytes
      | none => 0 := by
  rw [splitBehindLast]
  cases breakAtLast? closer t with
  | none => rfl
  | some found => exact bytes_append _ _

/-- **The start of the comment that ends a text** is found by slices that succeed. -/
lemma slicedStart?_eq (text : Text) : slicedStart? text = some ((lastComment? text).map fun x => bytes x.1) := by
  rw [slicedStart?, lastComment?]
  cases hbody : closer.isSuffixOf? text with
  | none =>
    have hsuffix : ¬ closer.isSuffixOf text := by
      rw [List.isSuffixOf_iff_suffix]
      rintro ⟨body, h⟩
      rw [List.isSuffixOf?_eq_some_iff_append_eq.mpr h] at hbody
      cases hbody
    rw [if_neg hsuffix]
    rfl
  | some body =>
    obtain rfl := List.isSuffixOf?_eq_some_iff_append_eq.mp hbody
    have hsuffix : closer.isSuffixOf (body ++ closer) := List.isSuffixOf_iff_suffix.mpr (List.suffix_append body closer)
    obtain ⟨⟨earlier, tail⟩, hsplit⟩ : ∃ found, splitBehindLast closer body = found := ⟨_, rfl⟩
    have hbehind := bytes_splitBehindLast body
    rw [hsplit] at hbehind
    obtain ⟨rfl, -, -⟩ := (splitBehindLast_eq_iff (by decide)).mp hsplit
    rw [if_pos hsuffix, less?_append]
    simp only [slice?_front, ← hbehind, hsplit, Option.pure_def, Option.bind_eq_bind, Option.bind_some]
    rw [slice?_back]
    simp [Function.comp_def]

/-- **The documentation comment above a place** is found by slices that succeed, in any source and
at any place. -/
lemma slicedBlock?_eq (source : Text) (position : Nat) :
    slicedBlock? source position = some (precedingBlock? source position) := by
  rw [slicedBlock?, precedingBlock?, slice?_zero]
  cases hsplit : source.splitAt? position with
  | none => rfl
  | some found =>
    obtain ⟨before, rest⟩ := found
    obtain ⟨rfl, rfl⟩ := splitAt?_eq_some_iff.mp hsplit
    obtain ⟨blanks, hbefore, -, -⟩ := trimEnd_eq_iff.mp (rfl : trimEnd before = trimEnd before)
    have hgap : before.slice? (bytes before.trimEnd) (bytes before) = some blanks := by
      have := slice?_back before.trimEnd blanks
      rwa [← hbefore] at this
    have hdrop : before.drop before.trimEnd.length = blanks := by
      have := congrArg (List.drop before.trimEnd.length) hbefore
      simpa using this
    simp only [Option.map_some, hgap, slicedStart?_eq, above?, hdrop, Option.bind_eq_bind, Option.bind_some]
    by_cases hbreaks : lineBreaks blanks ≤ 1
    · rw [if_pos hbreaks, if_pos hbreaks]
      cases hlast : lastComment? before.trimEnd with
      | none => rfl
      | some parts =>
        obtain ⟨front, comment⟩ := parts
        have htext := append_of_lastComment? hlast
        have hsource : before ++ rest = front ++ (comment ++ blanks ++ rest) := by
          rw [hbefore, htext]
          simp
        obtain ⟨hfront, -, -⟩ := splitLastLine_spec front
        have hindent : (before ++ rest).slice? (bytes (splitLastLine front).1) (bytes front) =
            some (splitLastLine front).2 := by
          apply slice?_eq_some_iff.mpr
          refine ⟨(splitLastLine front).1, comment ++ blanks ++ rest, ?_, rfl, ?_⟩
          · rw [hsource, ← List.append_assoc (splitLastLine front).1, ← hfront]
          · rw [← bytes_append, ← hfront]
        have hline : (before ++ rest).lineStart? (bytes front) = some (bytes (splitLastLine front).1) := by
          rw [hsource, lineStart?_append]
        simp only [Option.map_some, htext, slice?_back, Option.bind_some]
        by_cases hdoc : isDoc comment
        · simp only [hdoc, if_true, hline, hindent, Option.bind_some, trim_eq_nil_iff, Option.map_some]
          split <;> rfl
        · simp [hdoc]
    · rw [if_neg hbreaks, if_neg hbreaks]
      rfl

/-- The comments above those already found are found by slices that succeed. -/
lemma slicedEarlier?_eq (before rest : Text) (n stop : Nat) :
    slicedEarlier? (before ++ rest) n ⟨bytes before, stop⟩ = some ⟨bytes (aboveRun n before), stop⟩ := by
  induction n generalizing before rest with
  | zero => rfl
  | succ n ih =>
    have hblock : precedingBlock? (before ++ rest) (bytes before) =
        (above? before).map fun top => ⟨bytes top, bytes before⟩ := by
      rw [precedingBlock?, splitAt?_append]
    simp only [slicedEarlier?, slicedBlock?_eq, hblock, aboveRun, Option.bind_eq_bind, Option.bind_some]
    cases habove : above? before with
    | none => rfl
    | some top =>
      -- the text above the comment is a front of the source again
      obtain ⟨indent, comment, blanks, rfl, -⟩ := above?_found habove
      have hearlier := ih top (indent ++ comment ++ blanks ++ rest)
      simpa only [List.append_assoc, Option.map_some] using hearlier

/-- **The comments stacked above a place** are found by slices that succeed, in any source, at any
place and however many are wanted. -/
lemma slicedRun?_eq (source : Text) (position count : Nat) :
    slicedRun? source position count = some (precedingRun? source position count) := by
  rw [slicedRun?, slicedBlock?_eq, precedingBlock?, precedingRun?]
  cases hsplit : source.splitAt? position with
  | none => rfl
  | some found =>
    obtain ⟨before, rest⟩ := found
    obtain ⟨rfl, rfl⟩ := splitAt?_eq_some_iff.mp hsplit
    cases habove : above? before with
    | none => simp [habove]
    | some top =>
      obtain ⟨indent, comment, blanks, rfl, -⟩ := above?_found habove
      have hearlier := slicedEarlier?_eq top (indent ++ comment ++ blanks ++ rest) (count - 1)
      simp only [← List.append_assoc] at hearlier habove ⊢
      simp only [habove, hearlier, Option.map_some, Option.bind_eq_bind, Option.bind_some]
      rfl

end Comment

end DocBlocks
