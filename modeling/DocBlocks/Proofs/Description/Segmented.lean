import DocBlocks.Description.Summary
import DocBlocks.Proofs.Text.Runs

/-!
# The words of a name

The words of a name are what its separators leave of it, cut before each capital behind a small
letter or a digit. There is one way only to do this. The two passes over the name come to the same
words. A pair of characters that the first pass has gone past never hides another one from it.

## Main definitions

* `Summary.segments`: the words of a name as they are written.
* `Summary.IsSegmentation`: what it is for texts to be the words of a name as they are written.

## Main results

* `Summary.words_unmarked_spaced`: what the passes come to.
* `Summary.not_cutAt_segments`, `Summary.cutAt_segments`: where the words of a name are cut.
* `Summary.isSegmentation_segments`, `Summary.IsSegmentation.unique`: a name has one segmentation.
* `CodeUnit.summarize_eq_nil_iff`: the names without words.
* `Summary.words_isSegmentation`: the words of a name.
-/

namespace DocBlocks

open Text

/-! ## Passes over a name -/

namespace Summary

/-- Whether a character separates the words of a name. -/
def isSeparator (c : Char) : Bool := isMark c || Text.isWhite c

/-- The words of a name as they are written: its runs between separators, cut in front of the
capitals that start a word. -/
def segments (name : Text) : List Text := runsBy isSeparator isBoundary name

lemma isBoundary_iff (a b : Char) :
    isBoundary a b ↔ ('a' ≤ a ∧ a ≤ 'z' ∨ '0' ≤ a ∧ a ≤ '9') ∧ 'A' ≤ b ∧ b ≤ 'Z' := by
  have hsmall : a.isLower ↔ 'a' ≤ a ∧ a ≤ 'z' := by
    rw [← decide_eq_true_iff (p := 'a' ≤ a ∧ a ≤ 'z'), Bool.decide_and]
    rfl
  have hdigit : a.isDigit ↔ '0' ≤ a ∧ a ≤ '9' := by
    rw [← decide_eq_true_iff (p := '0' ≤ a ∧ a ≤ '9'), Bool.decide_and]
    rfl
  have hcapital : b.isUpper ↔ 'A' ≤ b ∧ b ≤ 'Z' := decide_eq_true_iff
  rw [isBoundary, Bool.and_eq_true, Bool.or_eq_true, hsmall, hdigit, hcapital]

/-- The places where a capital starts a word, by the numbers of the characters. -/
lemma isBoundary_iff_toNat (a b : Char) :
    isBoundary a b ↔ (97 ≤ a.toNat ∧ a.toNat ≤ 122 ∨ 48 ≤ a.toNat ∧ a.toNat ≤ 57) ∧ 65 ≤ b.toNat ∧ b.toNat ≤ 90 := by
  rw [isBoundary_iff]
  simp only [Char.le_def, UInt32.le_iff_toNat_le]
  rfl

/-- A small letter or a digit is no separator. -/
lemma isSeparator_of_isBoundary {a b : Char} (h : isBoundary a b) : isSeparator a = false := by
  obtain ⟨hsmall, -⟩ := (isBoundary_iff_toNat a b).mp h
  have hmark : a ≠ '_' ∧ a ≠ '-' := by
    constructor <;> rintro rfl <;> exact absurd hsmall (by decide)
  simp only [isSeparator, isMark, hmark, isWhite, decide_false, Bool.false_or]
  simp only [Bool.or_eq_false_iff, Bool.and_eq_false_iff, decide_eq_false_iff_not]
  omega

/-- A capital starts no pair, so a pair that was gone past hides no other one. -/
lemma spaced_cons_of_isBoundary {a b : Char} (h : isBoundary a b) (t : Text) : spaced (b :: t) = b :: spaced t := by
  cases t with
  | nil => rfl
  | cons c t =>
    have hno : ¬ isBoundary b c := by
      rw [isBoundary_iff_toNat] at h ⊢
      omega
    rw [spaced, if_neg hno]

/-- **The first pass**, character by character. -/
lemma spaced_cons (a : Char) (t : Text) :
    spaced (a :: t) = a :: if t.head?.any (isBoundary a) then ' ' :: spaced t else spaced t := by
  cases t with
  | nil => rfl
  | cons b t =>
    rw [spaced, List.head?_cons, Option.any_some]
    split
    · rename_i hboundary
      rw [spaced_cons_of_isBoundary hboundary]
    · rfl

lemma head?_spaced (t : Text) : (spaced t).head? = t.head? := by
  cases t with
  | nil => rfl
  | cons a t => rw [spaced_cons, List.head?_cons, List.head?_cons]

/-- **The first pass** makes separators of the other places where a name is cut. -/
lemma runsBy_spaced (name : Text) : runsBy isSeparator (fun _ _ => false) (spaced name) = segments name := by
  rw [segments]
  induction name with
  | nil => rfl
  | cons a t ih =>
    rw [spaced_cons, runsBy_cons a t, ← ih]
    cases t with
    | nil => exact runsBy_cons a []
    | cons b t =>
      by_cases hboundary : isBoundary a b
      · have ha := isSeparator_of_isBoundary hboundary
        have hblank : isSeparator ' ' := by decide
        rw [runsBy_cons]
        simp [joined, hboundary, ha, hblank, runsBy_cons ' ']
      · rw [runsBy_cons]
        simp [joined, hboundary, head?_spaced]

/-- Behind the second pass a text starts with white space exactly if it did with a separator. -/
lemma map_head?_unmarked (t : Text) : (unmarked t).head?.map isWhite = t.head?.map isSeparator := by
  have hblank : isWhite ' ' := by decide
  induction t with
  | nil => rfl
  | cons c t ih =>
    rw [unmarked, List.head?_cons, Option.map_some, isSeparator]
    by_cases hmark : isMark c
    · rw [if_pos hmark, hmark, Bool.true_or]
      split
      · rename_i hnext
        obtain ⟨d, t, rfl, hd⟩ := exists_cons_of_any_head? hnext
        rw [ih, List.head?_cons, Option.map_some, isSeparator, hd, Bool.true_or]
      · rw [List.head?_cons, Option.map_some, hblank]
    · rw [if_neg hmark, List.head?_cons, Option.map_some, Bool.eq_false_iff.mpr hmark, Bool.false_or]

/-- **The second pass** makes white space of the separators. -/
lemma runsBy_unmarked (t : Text) :
    runsBy isWhite (fun _ _ => false) (unmarked t) = runsBy isSeparator (fun _ _ => false) t := by
  have hblank : isWhite ' ' := by decide
  induction t with
  | nil => rfl
  | cons c t ih =>
    rw [unmarked]
    by_cases hmark : isMark c
    · have hc : isSeparator c := by rw [isSeparator, hmark, Bool.true_or]
      rw [if_pos hmark, runsBy_cons c t, if_pos hc, ← ih]
      split
      · rfl
      · rw [runsBy_cons, if_pos hblank]
    · have hc : isSeparator c = isWhite c := by rw [isSeparator, Bool.eq_false_iff.mpr hmark, Bool.false_or]
      have hany : ∀ (p : Char → Bool) (o : Option Char),
          o.any (joined p (fun _ _ => false) c) = (!p c && (o.map p).any (!·)) := by
        intro p o
        cases o <;> simp [joined]
      rw [if_neg hmark, runsBy_cons, runsBy_cons c t, hany, hany, map_head?_unmarked, ih, hc]

/-- **What the passes come to**: between white space stand then the words of the name. -/
lemma words_unmarked_spaced (name : Text) : Text.words (unmarked (spaced name)) = segments name := by
  rw [words_eq_runsBy, runsBy_unmarked, runsBy_spaced]

/-- The words of a name are those that are written, in lower case. -/
lemma words_eq_map_segments (name : Text) : words name = (segments name).map lowerCase := by
  rw [words, words_unmarked_spaced]

/-! ## Segmentations -/

/-- What is left of a text without its separators. -/
def kept (t : Text) : Text := t.filter fun c => !isSeparator c

/-- Whether texts are the words of a name as they are written. None of them is empty, together they
are what is left of the name without its separators, and between two neighbours of what is left they
are cut exactly if separators stand between the two in the name, or if the first is a small letter
or a digit and the second a capital, all of them in ASCII. -/
structure IsSegmentation (name : Text) (parts : List Text) : Prop where
  nil_notMem : [] ∉ parts
  flatten : parts.flatten = kept name
  cutAt_iff : ∀ before a gap b behind, name = before ++ a :: (gap ++ b :: behind) →
    isSeparator a = false → isSeparator b = false → (∀ c ∈ gap, isSeparator c) →
      (CutAt parts (kept (before ++ [a])) (kept (b :: behind)) ↔
        gap ≠ [] ∨ ('a' ≤ a ∧ a ≤ 'z' ∨ '0' ≤ a ∧ a ≤ '9') ∧ 'A' ≤ b ∧ b ≤ 'Z')

lemma kept_append (s t : Text) : kept (s ++ t) = kept s ++ kept t := List.filter_append ..

lemma kept_cons {a : Char} (ha : isSeparator a = false) (t : Text) : kept (a :: t) = a :: kept t :=
  List.filter_cons_of_pos (by rw [ha]; rfl)

lemma kept_eq_nil {gap : Text} (h : ∀ c ∈ gap, isSeparator c) : kept gap = [] :=
  List.filter_eq_nil_iff.mpr fun c hc => by simp [h c hc]

/-- Neighbours of what is left of a name are found in it, with nothing but separators in between. -/
lemma exists_of_kept_eq_append {name front back : Text} (h : kept name = front ++ back) (hfront : front ≠ [])
    (hback : back ≠ []) :
    ∃ before a gap b behind, name = before ++ a :: (gap ++ b :: behind) ∧ isSeparator a = false ∧ isSeparator b = false ∧
      (∀ c ∈ gap, isSeparator c) ∧ kept (before ++ [a]) = front ∧ kept (b :: behind) = back := by
  obtain ⟨front, a, rfl⟩ := (List.eq_nil_or_concat' front).resolve_left hfront
  obtain ⟨b, back, rfl⟩ := List.exists_cons_of_ne_nil hback
  obtain ⟨x, y, rfl, hx, hy⟩ := List.filter_eq_append_iff.mp h
  obtain ⟨x, z, rfl, hbefore, hz⟩ := List.filter_eq_append_iff.mp hx
  obtain ⟨gap, gap', rfl, hgap, ha, hgap'⟩ := List.filter_eq_cons_iff.mp hz
  obtain ⟨gap'', behind, rfl, hgap'', hb, hbehind⟩ := List.filter_eq_cons_iff.mp hy
  rw [List.filter_eq_nil_iff] at hgap'
  simp only [Bool.not_eq_true', Bool.not_eq_false] at hgap ha hgap' hgap'' hb
  refine ⟨x ++ gap, a, gap' ++ gap'', b, behind, by simp, ha, hb, List.forall_mem_append.mpr ⟨hgap', hgap''⟩, ?_, ?_⟩
  · rw [kept_append, kept_append, kept_eq_nil hgap, kept_cons ha, List.append_nil]
    exact congrArg (· ++ [a]) hbefore
  · rw [kept_cons hb]
    exact congrArg (b :: ·) hbehind

/-- **A name has one segmentation**: what is said of the neighbours in it tells all of its cuts. -/
lemma IsSegmentation.unique {name : Text} {ps qs : List Text} (hps : IsSegmentation name ps) (hqs : IsSegmentation name qs) :
    ps = qs := by
  -- the two are in the same position, so one direction is enough
  have hcut : ∀ {ps qs : List Text}, IsSegmentation name ps → IsSegmentation name qs →
      ∀ front back, CutAt ps front back → CutAt qs front back := by
    intro ps qs hps hqs front back h
    have hkept : kept name = front ++ back := by rw [h.append_eq, hps.flatten]
    by_cases hfront : front = []
    · exact ⟨[], qs, rfl, hfront.symm, by rw [hqs.flatten, hkept, hfront, List.nil_append]⟩
    by_cases hback : back = []
    · exact ⟨qs, [], (List.append_nil qs).symm, by rw [hqs.flatten, hkept, hback, List.append_nil], hback.symm⟩
    obtain ⟨before, a, gap, b, behind, hname, ha, hb, hgap, rfl, rfl⟩ := exists_of_kept_eq_append hkept hfront hback
    rw [hps.cutAt_iff before a gap b behind hname ha hb hgap] at h
    rwa [hqs.cutAt_iff before a gap b behind hname ha hb hgap]
  exact eq_of_cutAt_iff hps.nil_notMem hqs.nil_notMem (hps.flatten.trans hqs.flatten.symm) fun front back =>
    ⟨hcut hps hqs front back, hcut hqs hps front back⟩

lemma flatten_segments (name : Text) : (segments name).flatten = kept name := flatten_runsBy name

section Neighbours

variable {a b : Char} (before behind : Text) {gap : Text}

/-- Two characters next to each other that are joined stand in one word, and there is no cut inside
it. -/
lemma not_cutAt_segments (h : joined isSeparator isBoundary a b) :
    ¬ CutAt (segments (before ++ a :: b :: behind)) (kept (before ++ [a])) (kept (b :: behind)) := by
  obtain ⟨runs, last, first, runs', hlast, hfirst, hall⟩ := exists_runsBy_append h before behind
  have hfront : kept (before ++ [a]) = runs.flatten ++ last := by
    rw [← flatten_segments, segments, hlast, List.flatten_append, List.flatten_singleton]
  have hback : kept (b :: behind) = first ++ runs'.flatten := by
    rw [← flatten_segments, segments, hfirst, List.flatten_cons]
  rw [segments, hall, hfront, hback]
  apply not_cutAt
  · rintro rfl
    exact nil_notMem_runsBy (hlast ▸ List.mem_append_right runs List.mem_cons_self)
  · rintro rfl
    exact nil_notMem_runsBy (hfirst ▸ List.mem_cons_self)

/-- Between two characters with separators in between, or a small letter or digit and a capital
behind it, there is a cut. -/
lemma cutAt_segments (ha : isSeparator a = false) (hgap : ∀ c ∈ gap, isSeparator c) (h : gap ≠ [] ∨ isBoundary a b) :
    CutAt (segments (before ++ a :: (gap ++ b :: behind))) (kept (before ++ [a])) (kept (b :: behind)) := by
  have hseam : ∀ c ∈ (before ++ a :: gap).getLast?, ∀ d ∈ (b :: behind).head?,
      joined isSeparator isBoundary c d = false := by
    intro c hc d hd
    obtain rfl : b = d := by simpa using hd
    -- in front of the cut stands the last separator, or else the first of the two itself
    rcases List.eq_nil_or_concat' gap with rfl | ⟨gap, e, rfl⟩
    · obtain rfl : a = c := by simpa using hc
      rw [joined, h.resolve_left (not_not.mpr rfl), Bool.not_true, Bool.and_false]
    · obtain rfl : e = c := by simpa [List.getLast?_cons] using hc
      rw [joined, hgap e (by simp)]
      rfl
  have hsplit := runsBy_append hseam
  rw [List.append_assoc, List.cons_append] at hsplit
  refine ⟨_, _, hsplit, ?_, flatten_segments _⟩
  rw [← segments, flatten_segments, kept_append, kept_append, kept_cons ha, kept_cons ha, kept_eq_nil hgap]
  rfl

end Neighbours

/-- **The words of a name, as they are written**, are its segmentation. -/
lemma isSegmentation_segments (name : Text) : IsSegmentation name (segments name) where
  nil_notMem := nil_notMem_runsBy
  flatten := flatten_segments name
  cutAt_iff := by
    rintro before a gap b behind rfl ha hb hgap
    rw [← isBoundary_iff]
    constructor
    · intro hcut
      by_contra hno
      rw [not_or, not_not, Bool.not_eq_true] at hno
      obtain ⟨rfl, hboundary⟩ := hno
      exact not_cutAt_segments before behind (joined_iff.mpr ⟨ha, hb, hboundary⟩) hcut
    · exact cutAt_segments before behind ha hgap

/-! ## Summaries -/

/-- What a unit does is said in some words. -/
lemma predicate_ne_nil (first : Text) (rest : List Text) : predicate first rest ≠ [] := by
  have hverbs : ∀ x ∈ verbs, x.2 ≠ [] := by decide
  cases hlookup : verbs.lookup first with
  | none => cases rest <;> simp [predicate, hlookup]
  | some verb =>
    obtain ⟨front, back, htable, -⟩ := List.lookup_eq_some_iff.mp hlookup
    have hverb : verb ≠ [] := hverbs (first, verb) (by rw [htable]; simp)
    cases rest <;> simp [predicate, hlookup, hverb]

end Summary

/-- **A summary is empty** exactly if the name of the unit has no words. -/
lemma CodeUnit.summarize_eq_nil_iff (u : CodeUnit) : u.summarize = [] ↔ Summary.segments u.name = [] := by
  rw [← List.map_eq_nil_iff (f := lowerCase), ← Summary.words_eq_map_segments, summarize]
  cases Summary.words u.name with
  | nil => simp
  | cons first rest =>
    obtain ⟨c, t, hsentence⟩ := List.exists_cons_of_ne_nil (Summary.predicate_ne_nil first rest)
    simp only [reduceCtorEq, iff_false, hsentence]
    split <;> simp [Summary.capitalize]

namespace Summary

/-- **The words of a name** are those of its one segmentation, each in lower case: no word is empty,
they lose nothing but the separators, and the name is cut between two of the characters that stay
exactly where separators stood, or behind a small letter or a digit and in front of a capital. They
are what two passes over the name come to, which put blanks in front of the capitals and make blanks
of the marks, and what is then between white space. The summary of a unit is empty exactly if its
name has no words.

**Proof sketch.** The words as they are written are a segmentation (`isSegmentation_segments`), and
there is no other (`IsSegmentation.unique`). Each pass only changes what separates the words: the
first makes blanks of the cuts in front of capitals (`runsBy_spaced`), the second makes white space
of all separators (`runsBy_unmarked`). -/
theorem words_isSegmentation (name : Text) :
    (∀ parts, IsSegmentation name parts ↔ parts = Text.words (unmarked (spaced name))) ∧
      words name = (Text.words (unmarked (spaced name))).map lowerCase ∧
      ∀ u : CodeUnit, u.summarize = [] ↔ IsSegmentation u.name [] := by
  have hparts : ∀ name parts, IsSegmentation name parts ↔ parts = segments name := by
    intro name parts
    constructor
    · intro h
      exact h.unique (isSegmentation_segments name)
    · rintro rfl
      exact isSegmentation_segments name
  rw [words_unmarked_spaced]
  refine ⟨hparts name, words_eq_map_segments name, fun u => ?_⟩
  rw [u.summarize_eq_nil_iff, hparts, eq_comm]

example : words "load2HTTPItems__of-parseXml größeÄndern".toList =
    ["load2", "httpitems", "of", "parse", "xml", "größeändern"].map String.toList := by
  decide +kernel

end Summary

end DocBlocks
