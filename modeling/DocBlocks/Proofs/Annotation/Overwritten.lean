import DocBlocks.Proofs.Annotation.Planned
import DocBlocks.Proofs.Comment.Run
import DocBlocks.Proofs.Extraction.Accepted
import DocBlocks.Proofs.Splice.Weave

/-!
# What overwriting takes out

A run that overwrites takes out of a source only the text from the top of the comments found above
the place of a unit down to that place. That text is made up of blanks and of what was found, and
what was found is spared code exactly if it opens inside a comment of the source, and either that is
a block comment, or the rest of it lies in comments too.

## Main definitions

* `blankOrComment`: the bytes of white space and of comments.
* `replacedBlocks`: what is found above the place of a target that replaces it.
* `OpensInComment`: when what is found holds no code.

## Main results

* `render_overwriting_iff`: when overwriting takes out nothing but blanks and comments.
-/

namespace DocBlocks

open Syntax Syntax.Tree Text Comment

/-! ## Blanks and comments -/

/-- Whether a byte is in a comment of a tree. -/
def commentAt (tree : Tree) (i : Nat) : Bool :=
  tree.preorder.any fun k => k.isComment && k.start ≤ i && i < k.stop

/-- Whether a byte of a source is one of white space or of a comment. -/
def blankOrComment (source : Text) (tree : Tree) (i : Nat) : Bool := blankAt source i || commentAt tree i

/-- Whether a found text opens inside a comment, and either that is a block comment, or what follows
it up to the end of the found text is blanks and comments. -/
def OpensInComment (source : Text) (tree : Tree) (b : Span) : Prop :=
  ∃ k ∈ tree.preorder, k.isComment ∧ k.start ≤ b.start ∧ b.start < k.stop ∧
    (opener <+: Extraction.textOf source k ∨ ∀ i < b.stop, k.stop ≤ i → blankOrComment source tree i)

instance (source : Text) (tree : Tree) (b : Span) : Decidable (OpensInComment source tree b) :=
  inferInstanceAs (Decidable (∃ k ∈ tree.preorder, _))

section Found

variable {source : Text} {tree : Tree}

/-- Where a found text opens, there is no blank. -/
lemma blankAt_of_lastComment? {front comment rest : Text}
    (hlast : lastComment? (front ++ comment) = some (front, comment)) :
    blankAt (front ++ comment ++ rest) (bytes front) = false := by
  obtain ⟨u, rfl⟩ := opener_of_lastComment? hlast
  have := blankAt_append_add front (opener ++ u ++ rest) 0
  rw [← List.append_assoc] at this
  rw [show bytes front = bytes front + 0 from rfl, this]
  rfl

/-- **A found text holds no code** exactly if it opens inside a comment, and either that is a block
comment, which it cannot leave, or it goes on in blanks and comments. -/
lemma blankOrComment_found_iff (hfits : tree.Fits source) {front comment rest : Text}
    (hsource : source = front ++ comment ++ rest)
    (hlast : lastComment? (front ++ comment) = some (front, comment)) :
    (∀ i < bytes front + bytes comment, bytes front ≤ i → blankOrComment source tree i) ↔
      OpensInComment source tree ⟨bytes front, bytes front + bytes comment⟩ := by
  have hpos : 0 < bytes comment := by
    obtain ⟨u, rfl⟩ := opener_of_lastComment? hlast
    exact bytes_pos (by simp [opener])
  constructor
  · intro h
    have hfirst := h (bytes front) (by omega) le_rfl
    rw [blankOrComment, hsource, blankAt_of_lastComment? hlast, Bool.false_or, commentAt, List.any_eq_true] at hfirst
    obtain ⟨k, hk, hfirst⟩ := hfirst
    simp only [Bool.and_eq_true, decide_eq_true_eq] at hfirst
    obtain ⟨⟨hcomment, hle⟩, hlt⟩ := hfirst
    exact ⟨k, hk, hcomment, hle, hlt, .inr fun i hi hki => h i hi (by omega)⟩
  · rintro ⟨k, hk, hcomment, hle, hlt, hrest⟩ i hi hfi
    by_cases hin : i < k.stop
    · rw [blankOrComment, Bool.or_eq_true]
      refine .inr (List.any_eq_true.mpr ⟨k, hk, ?_⟩)
      simp only [Bool.and_eq_true, decide_eq_true_eq]
      simp only at hle
      exact ⟨⟨hcomment, by omega⟩, hin⟩
    · rcases hrest with hopen | hrest
      · obtain ⟨x, w, y, hw, hstart, hstop, hclosed⟩ := (hfits k hk).covers hcomment
        have htext : Extraction.textOf source k = w := by
          rw [Extraction.textOf, hw, ← hstart, ← hstop, slice?_append, Option.getD_some]
        obtain ⟨u, rfl⟩ := hclosed (htext ▸ hopen)
        simp only at hle hlt
        have := found_inside (y := y) hsource hlast (by rw [hw, List.append_assoc]) (by omega) (by omega)
        omega
      · exact hrest i hi (by omega)

end Found

/-! ## Runs -/

/-- What is found above the place of a target that replaces it. `points` are the places of all
targets. -/
def replacedBlocks (source : Text) (points : List Nat) (t : Target) : List Span :=
  if t.replaceFrom = t.point then []
  else
    match source.splitAt? t.point with
    | some (before, _) => blocksAbove (points.count t.point) before
    | none => []

/-- **What a target replaces** holds no code exactly if each text found for it opens inside a
comment and holds no code behind that. -/
lemma blankOrComment_replaced_iff {source : Text} {tree : Tree} {units : List CodeUnit} {targets : List Target}
    (hfits : tree.Fits source) (h : targets? source true units = some targets) {t : Target} (ht : t ∈ targets) :
    (∀ i < t.point, t.replaceFrom ≤ i → blankOrComment source tree i) ↔
      ∀ b ∈ replacedBlocks source (targets.map (·.point)) t, OpensInComment source tree b := by
  rw [replacedBlocks]
  split
  · rename_i hsame
    exact ⟨fun _ b hb => absurd hb List.not_mem_nil, fun _ i hi hfrom => by omega⟩
  · rename_i hne
    obtain ⟨before, rest, rfl, hpoint, hfrom⟩ := (mem_targets?_overwriting h ht).resolve_left hne
    generalize (targets.map (·.point)).count t.point = n at *
    rw [← hpoint, hfrom, splitAt?_append]
    simp only
    have hfound {b : Span} (hb : b ∈ blocksAbove n before) :
        bytes (aboveRun n before) ≤ b.start ∧ b.stop ≤ bytes before ∧
          ((∀ i < b.stop, b.start ≤ i → blankOrComment (before ++ rest) tree i) ↔
            OpensInComment (before ++ rest) tree b) := by
      obtain ⟨front, comment, behind, rfl, hlast, hle, rfl⟩ := exists_of_mem_blocksAbove hb
      exact ⟨hle, by simp, blankOrComment_found_iff hfits (by rw [List.append_assoc]) hlast⟩
    constructor
    · intro hall b hb
      obtain ⟨hstart, hstop, hiff⟩ := hfound hb
      exact hiff.mp fun i hi hbi => hall i (by omega) (by omega)
    · intro hall i hi hrun
      rcases (blank_or_mem_blocksAbove n before).2 i hrun hi with hblank | ⟨b, hb, hbi, hib⟩
      · rw [blankOrComment, blankAt_append_of_lt rest hi, hblank, Bool.true_or]
      · obtain ⟨-, -, hiff⟩ := hfound hb
        exact hiff.mpr (hall b hb) i hib hbi

/-! ## Overwriting -/

/-- **Overwriting** takes out of a source nothing but text between the top of the comments found
above a target and the target's place. All of that is blanks and comments of the source exactly if
each text found opens inside a comment of the source, and either that is a block comment or what
follows it is blanks and comments.

**Proof sketch.** The new text is the source with the removed ranges taken out (`splice?_text`),
each of which is in the range of its target (`exists_of_isGone_removed`). A range is made up of
blanks and found texts (`blank_or_mem_blocksAbove`). A found text that opens inside a block comment
ends in it, since it has no closer in front of its own and each block comment of the tree ends with
one (`found_inside`, `fits_syntaxTree`). -/
theorem render_overwriting_iff {s : Session} {g : Option Generator} {path : Text} {r : Rendered} {d : Dialect}
    {units : List CodeUnit} {targets : List Target} (hpath : Path.dialect? path = some d)
    (hr : (s.render g true path).1 = .ok (.rendered r)) (hunits : extract d r.original = .ok units)
    (htargets : targets? r.original true units = some targets) :
    (∃ new gone, r.text = Splice.woven new gone 0 r.original ∧
      ∀ i, gone i → ∃ t ∈ targets, t.replaceFrom ≤ i ∧ i < t.point) ∧
    ((∀ t ∈ targets, ∀ i < t.point, t.replaceFrom ≤ i →
        blankOrComment r.original (syntaxTree d r.original) i) ↔
      ∀ t ∈ targets, ∀ b ∈ replacedBlocks r.original (targets.map (·.point)) t,
        OpensInComment r.original (syntaxTree d r.original) b) := by
  obtain ⟨d₀, units₀, targets₀, extension, hd₀, hunits₀, -, htargets₀, hsplice⟩ := Session.render_eq_rendered hr
  obtain rfl : d₀ = d := Option.some.inj (hd₀.symm.trans hpath)
  obtain rfl : units₀ = units := Except.ok.inj (hunits₀.symm.trans hunits)
  obtain rfl : targets₀ = targets := Option.some.inj (htargets₀.symm.trans htargets)
  constructor
  · refine ⟨_, _, (Splice.splice?_text _ _).1 _ hsplice, fun i hi => ?_⟩
    obtain ⟨e, he, hle, hlt⟩ := Splice.exists_of_isGone_removed hi
    have hmem := List.mem_map_of_mem (f := fun e : Edit => (e.point, e.replaceFrom)) (mem_sortEdits.mp he)
    rw [Session.map_editsFor] at hmem
    obtain ⟨t, ht, heq⟩ := List.mem_map.mp hmem
    obtain ⟨hpoint, hfrom⟩ := Prod.mk.inj heq
    exact ⟨t, ht, by omega, by omega⟩
  · have hfits := fits_syntaxTree (extract_eq_ok_iff.mp hunits).1
    exact forall₂_congr fun t ht => blankOrComment_replaced_iff hfits htargets ht

/-- All that a run takes out above a function is its comment. -/
theorem render_overwriting_block :
    (List.range 5).all
      (blankOrComment "/***/function f(){}".toList (syntaxTree .javaScript "/***/function f(){}".toList)) := by
  rw [List.all_eq_true]
  intro i hi
  refine (@render_overwriting_iff (Session.withFile "a.js".toList "/***/function f(){}".toList) none "a.js".toList
    ⟨"a.js".toList, "/***/function f(){}".toList, "/**\n * Performs f\n */\nfunction f(){}".toList,
      ["Replace comment for f at line 1".toList]⟩
    .javaScript [⟨"f".toList, .function, [], none, ⟨5, 19⟩, false, [], []⟩]
    [⟨⟨⟨"f".toList, .function, [], none, ⟨5, 19⟩, false, [], []⟩, 5, []⟩, 0⟩]
    ?_ ?_ ?_ ?_).2.mpr ?_ _ List.mem_cons_self i (List.mem_range.mp hi) (Nat.zero_le i)
  all_goals decide +kernel

/-- A run takes out the end of a regular expression whose marks look like those of a comment. -/
theorem render_overwriting_takes :
    ((Session.withFile "a.js".toList "/[/**]*/\nfunction f(){}".toList).render none true "a.js".toList).1 =
        .ok (.rendered ⟨"a.js".toList, "/[/**]*/\nfunction f(){}".toList,
          "/[/**\n * Performs f\n */\nfunction f(){}".toList, ["Replace comment for f at line 2".toList]⟩) ∧
      blankOrComment "/[/**]*/\nfunction f(){}".toList
        (syntaxTree .javaScript "/[/**]*/\nfunction f(){}".toList) 5 = false := by
  decide +kernel

end DocBlocks
