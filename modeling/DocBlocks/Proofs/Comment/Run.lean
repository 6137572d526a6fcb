import DocBlocks.Proofs.Comment.Found

/-!
# Runs of comments above a place

The comments above a place are found one after the other, upwards. Together with the blanks between
them they make up the text down to the place. What is found opens where the text has the mark for
it, so it need not be a comment of the source; but where it opens inside a block comment of the
source, it ends there as well.

## Main definitions

* `Text.blankAt`: the bytes of white space.
* `Comment.blocksAbove`: the comments found above a place.

## Main results

* `Comment.blank_or_mem_blocksAbove`: the text of a run is made up of blanks and the comments found.
* `Comment.found_inside`: what is found inside a block comment ends in it.
-/

namespace DocBlocks

namespace Text

/-- Whether a byte of a text is one of white space. -/
def blankAt : Text → Nat → Bool
  | [], _ => false
  | c :: t, i => if i < c.utf8Size then isWhite c else blankAt t (i - c.utf8Size)

/-- The bytes of a text behind a front. -/
@[simp] lemma blankAt_append_add (a b : Text) (i : Nat) : blankAt (a ++ b) (bytes a + i) = blankAt b i := by
  induction a generalizing i with
  | nil => simp
  | cons c a ih =>
    rw [List.cons_append, blankAt, if_neg (by simp; omega)]
    have := ih i
    simp only [bytes_cons]
    rwa [show c.utf8Size + bytes a + i - c.utf8Size = bytes a + i by omega]

/-- The bytes of a front of a text. -/
lemma blankAt_append_of_lt {a : Text} (b : Text) {i : Nat} (h : i < bytes a) : blankAt (a ++ b) i = blankAt a i := by
  induction a generalizing i with
  | nil => simp at h
  | cons c a ih =>
    rw [List.cons_append, blankAt, blankAt]
    split
    · rfl
    · rw [bytes_cons] at h
      exact ih (by omega)

/-- Each byte of blanks is one of white space. -/
lemma blankAt_of_white {m : Text} {i : Nat} (hm : ∀ c ∈ m, isWhite c) (h : i < bytes m) : blankAt m i := by
  induction m generalizing i with
  | nil => simp at h
  | cons c m ih =>
    rw [blankAt]
    split
    · exact hm c (by simp)
    · rw [bytes_cons] at h
      exact ih (fun d hd => hm d (by simp [hd])) (by omega)

/-- Each byte of blanks within a text is one of white space. -/
lemma blankAt_of_white_part {a m b : Text} {i : Nat} (hm : ∀ c ∈ m, isWhite c) (hle : bytes a ≤ i)
    (hlt : i < bytes a + bytes m) : blankAt (a ++ m ++ b) i := by
  obtain ⟨j, rfl⟩ := Nat.exists_eq_add_of_le hle
  have hj : j < bytes m := by omega
  rw [List.append_assoc, blankAt_append_add, blankAt_append_of_lt b hj]
  exact blankAt_of_white hm hj

end Text

namespace Comment

open Text

/-- The comments found above a place, at most `n`, the lowest one first. -/
def blocksAbove : Nat → Text → List Span
  | 0, _ => []
  | n + 1, before =>
    match above? before, lastComment? before.trimEnd with
    | some top, some (front, comment) => ⟨bytes front, bytes front + bytes comment⟩ :: blocksAbove n top
    | _, _ => []

/-- The text above a comment and the indentation of the comment make up what stands in front of it.
The indentation goes with the comment only if it is all that stands in front of it on its line. -/
lemma topOf_append (front : Text) :
    ∃ indent, front = topOf front ++ indent ∧ (∀ c ∈ indent, isWhite c) ∧ '\n' ∉ indent ∧
      (EndsLine (topOf front) ∨ indent = []) := by
  obtain ⟨hfront, hline, hlines⟩ := splitLastLine_spec front
  rw [topOf]
  split
  · rename_i hall
    exact ⟨_, hfront, List.all_eq_true.mp hall, hline, .inl hlines⟩
  · exact ⟨[], by simp, by simp, by simp, .inr rfl⟩

/-- What a search above a place finds: the text above a comment, its indentation, the comment, and
blanks. -/
lemma above?_found {before top : Text} (h : above? before = some top) :
    ∃ indent comment blanks, before = top ++ indent ++ comment ++ blanks ∧ (∀ c ∈ indent, isWhite c) ∧
      (∀ c ∈ blanks, isWhite c) ∧ lastComment? before.trimEnd = some (top ++ indent, comment) ∧
      lastComment? (top ++ indent ++ comment) = some (top ++ indent, comment) := by
  obtain ⟨front, comment, blanks, rfl, hblanks, -, hlast, -, rfl⟩ := above?_eq_some_iff.mp h
  obtain ⟨indent, hfront, hindent, -, -⟩ := topOf_append front
  refine ⟨indent, comment, blanks, ?_⟩
  rw [trimEnd_of_lastComment? hlast hblanks, ← hfront]
  exact ⟨rfl, hindent, hblanks, hlast, hlast⟩

/-- **A run** is made up of blanks and the comments found. -/
lemma blank_or_mem_blocksAbove (n : Nat) (before : Text) :
    aboveRun n before <+: before ∧ ∀ i, bytes (aboveRun n before) ≤ i → i < bytes before →
      blankAt before i ∨ ∃ b ∈ blocksAbove n before, b.start ≤ i ∧ i < b.stop := by
  induction n generalizing before with
  | zero =>
    refine ⟨List.prefix_refl _, fun i hle hlt => ?_⟩
    rw [aboveRun] at hle
    omega
  | succ n ih =>
    rw [aboveRun, blocksAbove]
    cases habove : above? before with
    | none =>
      refine ⟨List.prefix_refl _, fun i hle hlt => ?_⟩
      simp only at hle
      omega
    | some top =>
      obtain ⟨indent, comment, blanks, rfl, hindent, hblanks, hlast, -⟩ := above?_found habove
      obtain ⟨hfront, hrun⟩ := ih top
      refine ⟨hfront.trans ⟨indent ++ comment ++ blanks, by simp⟩, fun i hle hlt => ?_⟩
      simp only [hlast]
      -- the byte is above the comment, in its indentation, in the comment, or in the blanks below
      -- it
      rcases Nat.lt_or_ge i (bytes top) with htop | htop
      · rcases hrun i hle htop with hblank | ⟨b, hb, hi⟩
        · left
          rwa [List.append_assoc, List.append_assoc, blankAt_append_of_lt _ htop]
        · exact .inr ⟨b, List.mem_cons_of_mem _ hb, hi⟩
      · rcases Nat.lt_or_ge i (bytes (top ++ indent)) with hi | hi
        · left
          rw [bytes_append] at hi
          rw [List.append_assoc (top ++ indent)]
          exact blankAt_of_white_part hindent htop hi
        · rcases Nat.lt_or_ge i (bytes (top ++ indent) + bytes comment) with hi' | hi'
          · exact .inr ⟨_, List.mem_cons_self, hi, hi'⟩
          · left
            rw [← bytes_append] at hi'
            rw [bytes_append] at hlt
            simpa using blankAt_of_white_part (b := []) hblanks hi' hlt

/-- Each comment of a run ends a part of the text above the place, and starts in the run. -/
lemma exists_of_mem_blocksAbove {n : Nat} {before : Text} {b : Span} (hb : b ∈ blocksAbove n before) :
    ∃ front comment rest, before = front ++ comment ++ rest ∧
      lastComment? (front ++ comment) = some (front, comment) ∧ bytes (aboveRun n before) ≤ bytes front ∧
      b = ⟨bytes front, bytes front + bytes comment⟩ := by
  induction n generalizing before with
  | zero => cases hb
  | succ n ih =>
    rw [blocksAbove] at hb
    rw [aboveRun]
    cases habove : above? before with
    | none =>
      rw [habove] at hb
      cases hb
    | some top =>
      obtain ⟨indent, comment, blanks, rfl, -, -, hlast, hown⟩ := above?_found habove
      simp only [habove, hlast] at hb
      rcases List.mem_cons.mp hb with rfl | hb
      · refine ⟨top ++ indent, comment, blanks, rfl, hown, ?_, rfl⟩
        obtain ⟨rest, hrest⟩ := (blank_or_mem_blocksAbove n top).1
        have := congrArg bytes hrest
        simp only [bytes_append] at this ⊢
        omega
      · obtain ⟨front, comment', rest, rfl, hown', hle, rfl⟩ := ih hb
        exact ⟨front, comment', rest ++ indent ++ comment ++ blanks, by simp, hown', hle, rfl⟩

/-- **What is found inside a block comment** ends in it: it has no closer in front of its own, and
it does not open with the slash of a closer. -/
lemma found_inside {source front comment rest x u y : Text} (hsource : source = front ++ comment ++ rest)
    (hlast : lastComment? (front ++ comment) = some (front, comment)) (hw : source = x ++ (u ++ closer ++ y))
    (hle : bytes x ≤ bytes front) (hlt : bytes front < bytes x + bytes (u ++ closer)) :
    bytes front + bytes comment ≤ bytes x + bytes (u ++ closer) := by
  obtain ⟨e, f, c, hfront, rfl, -, hn, he, hb⟩ := lastComment?_eq_some_iff.mp hlast
  have hclosed : u ++ closer = u ++ ['*'] ++ ['/'] := by simp [closer]
  by_contra hbehind
  -- what is found opens in a last part `w` of the block comment, and goes on behind it
  obtain ⟨m, rfl, hm⟩ := exists_of_bytes_le (hw.symm.trans (hsource.trans (List.append_assoc ..))) hle
  obtain ⟨w, hmw, hcw⟩ := exists_of_bytes_le hm.symm (by simp at hlt ⊢; omega)
  obtain ⟨z, hwz, -⟩ := exists_of_bytes_le hcw.symm (by
    have := congrArg bytes hmw
    simp at this hbehind ⊢
    omega)
  have hz : z ≠ [] := by
    rintro rfl
    apply hbehind
    rw [hwz, hmw]
    simp
    omega
  rcases List.eq_nil_or_concat' w with rfl | ⟨w, d, rfl⟩
  · rw [hmw] at hlt
    simp at hlt
  rw [hmw, ← List.append_assoc] at hclosed
  obtain ⟨hmw', hd⟩ := List.append_inj' hclosed rfl
  obtain rfl : d = '/' := by simpa using hd
  rcases List.eq_nil_or_concat' w with rfl | ⟨w, d, rfl⟩
  · -- the text in front of what is found ends with a star, so a closer would reach into it
    have hstar : (x ++ m).getLast? = some '*' := by
      rw [show m = u ++ ['*'] by simpa using hmw']
      simp [← List.append_assoc]
    have hslash : c.head? = some '/' := by
      obtain ⟨c', rfl⟩ := (breakAt?_eq_some_iff.mp hb).2.1
      rfl
    rw [hfront] at hstar
    rcases List.eq_nil_or_concat' f with rfl | ⟨f, d, rfl⟩
    · rcases he with rfl | ⟨e, rfl⟩
      · cases hstar
      · simp [closer] at hstar
    · apply hn
      rw [closer, pair_isInfix_append]
      refine .inr (.inr ⟨?_, hslash⟩)
      simpa [← List.append_assoc] using hstar
  · -- the closer of the block comment is in front of the one of what is found
    rw [← List.append_assoc] at hmw'
    obtain ⟨-, hd⟩ := List.append_inj' hmw' rfl
    obtain rfl : d = '*' := by simpa using hd
    have hc : w ++ closer ++ z = c ++ closer := by simpa [closer] using hwz.symm
    have : closer <:+: c ++ ['*'] := pair_isInfix_of_append_eq hc hz
    rw [closer, pair_isInfix_append] at this
    rcases this with h | h | ⟨-, h⟩
    · exact hn (h.trans (List.suffix_append f c).isInfix)
    · exact not_pair_isInfix_singleton h
    · cases h

end Comment

end DocBlocks
