import DocBlocks.Proofs.Comment.Stack

/-!
# Maximal stacks of comments

What a search finds above a place is a stack of whole documentation comments, whatever the text is:
each has its only closer at its end, and nothing but blanks stands around it. The search takes as
many of them as it may, and it stops early only where no further one follows.

## Main definitions

* `Comment.Segment`: a documentation comment with the blanks around it.
* `Comment.Segment.IsWhole`: the segments that a search takes.
* `Comment.IsStack`: a range that is a stack of such segments, with no further one above if there
  could be more.

## Main results

* `Comment.exists_segments`: a search goes up segment by segment.
* `Comment.aboveRun_add`, `Comment.aboveRun_eq_of_stops`: a longer search continues a shorter one,
  and a search that stops has stopped for good.
* `precedingRun?_maximal`: what is found is a maximal stack.
-/

namespace DocBlocks

open Text

namespace Comment

/-! ## Segments -/

/-- A documentation comment with the blanks in front of it and behind it. -/
structure Segment where
  indent : Text
  comment : Text
  blanks : Text

namespace Segment

/-- The text of a segment. -/
def text (s : Segment) : Text := s.indent ++ s.comment ++ s.blanks

/-- Whether a segment consists of white space without a line feed, a documentation comment whose
only closer is its end, and white space with at most one line feed. -/
structure IsWhole (s : Segment) : Prop where
  indent : ∀ c ∈ s.indent, isWhite c
  line : '\n' ∉ s.indent
  doc : isDoc s.comment
  closes : EndsAtCloser s.comment
  blanks : ∀ c ∈ s.blanks, isWhite c
  breaks : lineBreaks s.blanks ≤ 1

variable {s : Segment}

/-- The comment of a segment starts with the mark of a documentation comment. -/
lemma IsWhole.opens (h : s.IsWhole) : docOpener <+: s.comment :=
  List.isPrefixOf_iff_prefix.mp ((Bool.and_eq_true _ _).mp h.doc).1

lemma IsWhole.text_ne_nil (h : s.IsWhole) : s.text ≠ [] := by
  obtain ⟨t, ht⟩ := h.opens
  simp [text, ← ht, docOpener]

end Segment

/-- **One step of a search** finds a segment. It starts a line, or with the mark of the comment. -/
lemma exists_segment {before top : Text} (h : above? before = some top) :
    ∃ s : Segment, s.IsWhole ∧ before = top ++ s.text ∧ (EndsLine top ∨ docOpener <+: s.text) := by
  obtain ⟨front, comment, blanks, rfl, hblanks, hbreaks, hlast, hdoc, rfl⟩ := above?_eq_some_iff.mp h
  obtain ⟨indent, hfront, hindent, hline, hstart⟩ := topOf_append front
  obtain ⟨e, f, c, -, rfl, -, hn, -⟩ := lastComment?_eq_some_iff.mp hlast
  have hcloses : EndsAtCloser (c ++ closer) := ⟨c, rfl, fun h => hn (h.trans (List.suffix_append f c).isInfix)⟩
  have hwhole : Segment.IsWhole ⟨indent, c ++ closer, blanks⟩ := ⟨hindent, hline, hdoc, hcloses, hblanks, hbreaks⟩
  refine ⟨_, hwhole, ?_, hstart.imp_right ?_⟩
  · simp only [Segment.text, ← List.append_assoc, ← hfront]
  · rintro rfl
    exact hwhole.opens.trans (List.prefix_append _ blanks)

/-- Each step of a search goes up. -/
lemma bytes_lt_of_above? {before top : Text} (h : above? before = some top) : bytes top < bytes before := by
  obtain ⟨s, hs, rfl, -⟩ := exists_segment h
  have hpos := bytes_pos hs.text_ne_nil
  rw [bytes_append]
  omega

/-! ## Searches of different lengths -/

/-- A search that finds nothing stays where it is. -/
lemma aboveRun_of_none {before : Text} (h : above? before = none) (n : Nat) : aboveRun n before = before := by
  cases n with
  | zero => rfl
  | succ n => rw [aboveRun, h]

/-- A longer search continues a shorter one. -/
lemma aboveRun_add (m n : Nat) (before : Text) : aboveRun (m + n) before = aboveRun n (aboveRun m before) := by
  induction m generalizing before with
  | zero => rw [Nat.zero_add, aboveRun]
  | succ m ih =>
    rw [Nat.succ_add]
    cases h : above? before with
    | none => rw [aboveRun_of_none h, aboveRun_of_none h, aboveRun_of_none h]
    | some top =>
      rw [aboveRun, aboveRun, h]
      exact ih top

/-- A longer search goes up at least as far. -/
lemma bytes_aboveRun_le {m n : Nat} (h : m ≤ n) (before : Text) :
    bytes (aboveRun n before) ≤ bytes (aboveRun m before) := by
  obtain ⟨k, rfl⟩ := Nat.exists_eq_add_of_le h
  obtain ⟨rest, hrest⟩ := (blank_or_mem_blocksAbove k (aboveRun m before)).1
  have hbytes := congrArg bytes hrest
  rw [bytes_append] at hbytes
  rw [aboveRun_add]
  omega

/-- **A search that stops** has stopped for good: if one more comment makes it no longer, no number
of comments does. -/
lemma aboveRun_eq_of_stops {m n : Nat} {before : Text}
    (hstops : bytes (aboveRun (n + 1) before) = bytes (aboveRun n before)) (h : n ≤ m) :
    aboveRun m before = aboveRun n before := by
  obtain ⟨k, rfl⟩ := Nat.exists_eq_add_of_le h
  have hnone : above? (aboveRun n before) = none := by
    rw [aboveRun_add, aboveRun] at hstops
    split at hstops
    · rename_i top htop
      have hlt := bytes_lt_of_above? htop
      rw [aboveRun] at hstops
      omega
    · assumption
  rw [aboveRun_add, aboveRun_of_none hnone]

/-- **A search finds segments**, at most as many as it may take. It starts at a line or at the mark
of a comment, and it stops early only where nothing follows.

**Proof sketch.** Induction on the number of comments. The first step finds the lowest segment
(`exists_segment`); the rest of the search starts at its top. -/
lemma exists_segments (n : Nat) (before : Text) :
    ∃ segments : List Segment, before = aboveRun n before ++ segments.flatMap Segment.text ∧
      (∀ s ∈ segments, s.IsWhole) ∧ segments.length ≤ n ∧
      (segments.length < n → above? (aboveRun n before) = none) ∧
      (segments = [] ∨ EndsLine (aboveRun n before) ∨ docOpener <+: segments.flatMap Segment.text) := by
  induction n generalizing before with
  | zero => exact ⟨[], by simp [aboveRun], by simp, le_rfl, fun h => absurd h (lt_irrefl 0), .inl rfl⟩
  | succ n ih =>
    cases h : above? before with
    | none =>
      rw [aboveRun_of_none h]
      exact ⟨[], by simp, by simp, Nat.zero_le _, fun _ => h, .inl rfl⟩
    | some top =>
      obtain ⟨s, hs, hbefore, hstart⟩ := exists_segment h
      obtain ⟨segments, htop, hwhole, hle, hmaximal, hfirst⟩ := ih top
      have hrun : aboveRun (n + 1) before = aboveRun n top := by rw [aboveRun, h]
      rw [hrun]
      refine ⟨segments ++ [s], ?_, ?_, by simpa using hle, fun hlt => hmaximal (by simpa using hlt), .inr ?_⟩
      · rw [List.flatMap_append, List.flatMap_singleton, ← List.append_assoc, ← htop, ← hbefore]
      · intro s' hs'
        rcases List.mem_append.mp hs' with hs' | hs'
        · exact hwhole s' hs'
        · exact List.mem_singleton.mp hs' ▸ hs
      · rcases hfirst with rfl | hfirst
        · rw [List.flatMap_nil, List.append_nil] at htop
          rw [← htop]
          simpa using hstart
        · refine hfirst.imp_right fun hopens => hopens.trans ?_
          rw [List.flatMap_append]
          exact List.prefix_append _ _

/-- Whether a range of a source is a maximal stack of segments down to a place: there are at most
`count` of them, but one in any case, the first starts a line or with the mark of its comment, and
if there are fewer, no comment stands above. -/
structure IsStack (source : Text) (position count : Nat) (range : Span) (segments : List Segment) : Prop where
  stop : range.stop = position
  text : source.slice? range.start range.stop = some (segments.flatMap Segment.text)
  pos : 1 ≤ segments.length
  le : segments.length ≤ max count 1
  whole : ∀ s ∈ segments, s.IsWhole
  start : (∃ front, source.slice? 0 range.start = some front ∧ EndsLine front) ∨
    docOpener <+: segments.flatMap Segment.text
  maximal : segments.length < count → precedingBlock? source range.start = none

end Comment

open Comment

/-! ## Runs -/

/-- What is found above the end of the first part of a text. -/
lemma precedingRun?_append (before back : Text) (count : Nat) :
    precedingRun? (before ++ back) (bytes before) count =
      (above? before).map fun _ => ⟨bytes (aboveRun (max count 1) before), bytes before⟩ := by
  rw [precedingRun?, splitAt?_append]
  cases h : above? before with
  | none => simp [h]
  | some top =>
    have hcount : max count 1 = (count - 1) + 1 := by omega
    simp only [hcount, aboveRun, h]
    rfl

/-- The comment right above the end of the first part of a text. -/
lemma precedingBlock?_append (before back : Text) :
    precedingBlock? (before ++ back) (bytes before) = (above? before).map fun top => ⟨bytes top, bytes before⟩ := by
  rw [precedingBlock?, splitAt?_append]

/-- Where a source cannot be cut, nothing is found. -/
lemma precedingRun?_of_not_cut {source : Text} {position : Nat} (h : source.splitAt? position = none) (count : Nat) :
    precedingRun? source position count = none ∧ precedingBlock? source position = none := by
  rw [precedingRun?, precedingBlock?, h]
  exact ⟨rfl, rfl⟩

/-- What is found above a place is a stack of segments. -/
lemma exists_isStack {source : Text} {position count : Nat} {range : Span}
    (h : precedingRun? source position count = some range) : ∃ segments, IsStack source position count range segments := by
  cases hcut : source.splitAt? position with
  | none =>
    rw [(precedingRun?_of_not_cut hcut count).1] at h
    cases h
  | some parts =>
    obtain ⟨before, back⟩ := parts
    obtain ⟨rfl, rfl⟩ := splitAt?_eq_some_iff.mp hcut
    rw [precedingRun?_append, Option.map_eq_some_iff] at h
    obtain ⟨top, habove, rfl⟩ := h
    obtain ⟨segments, hbefore, hwhole, hle, hmaximal, hstart⟩ := exists_segments (max count 1) before
    generalize hrun : aboveRun (max count 1) before = front at *
    have hpos : 1 ≤ segments.length := by
      -- the search goes up by at least one comment
      by_contra hnone
      obtain rfl : segments = [] := List.length_eq_zero_iff.mp (by omega)
      rw [List.flatMap_nil, List.append_nil] at hbefore
      have hfound := hmaximal (Nat.lt_of_lt_of_le Nat.zero_lt_one (le_max_right count 1))
      rw [← hbefore, habove] at hfound
      cases hfound
    have hne : segments ≠ [] := List.ne_nil_of_length_pos hpos
    refine ⟨segments, rfl, ?_, hpos, hle, hwhole, (hstart.resolve_left hne).imp_left fun hline => ?_, fun hlt => ?_⟩
    · refine slice?_eq_some_iff.mpr ⟨front, back, ?_, rfl, ?_⟩
      · rw [← List.append_assoc, ← hbefore]
      · rw [← bytes_append, ← hbefore]
    · exact ⟨front, slice?_eq_some_iff.mpr ⟨[], segments.flatMap Segment.text ++ back, by rw [List.nil_append,
        ← List.append_assoc, ← hbefore], rfl, by simp⟩, hline⟩
    · have hsource : before ++ back = front ++ (segments.flatMap Segment.text ++ back) := by
        rw [← List.append_assoc, ← hbefore]
      rw [hsource, precedingBlock?_append, hmaximal (by omega)]
      rfl

/-- **What is found above a place is a maximal stack of whole documentation comments**, for each
source, place and number of comments. The range ends at the place, and its text is made of segments,
of which there are at most as many as may be taken (one in any case): white space without a line
feed, a documentation comment whose only closer is its end, and white space with at most one line
feed. It starts a line, or with the mark of a comment; and where more comments might have been
taken, none stands above it. With more comments the range starts at the same place or further up,
and once one more comment does not make it longer, no number of comments does. With at most one
comment it is the range of the comment right above the place.

**Proof sketch.** A search goes up segment by segment (`exists_segments`). A longer one continues a
shorter one (`aboveRun_add`), so it stays where that one stopped (`aboveRun_eq_of_stops`). -/
theorem precedingRun?_maximal (source : Text) (position : Nat) :
    (∀ count range, precedingRun? source position count = some range →
      ∃ segments, IsStack source position count range segments) ∧
    (∀ m n, m ≤ n → Option.Rel (fun short long => long.start ≤ short.start)
      (precedingRun? source position m) (precedingRun? source position n)) ∧
    (∀ n, precedingRun? source position (max n 1 + 1) = precedingRun? source position n →
      ∀ m, n ≤ m → precedingRun? source position m = precedingRun? source position n) ∧
    ∀ n ≤ 1, precedingRun? source position n = precedingBlock? source position := by
  refine ⟨fun count range h => exists_isStack h, ?_⟩
  cases hcut : source.splitAt? position with
  | none =>
    have hnone := precedingRun?_of_not_cut hcut
    refine ⟨fun m n _ => ?_, fun n _ m _ => ?_, fun n _ => ?_⟩
    · rw [(hnone m).1, (hnone n).1]
      exact .none
    · rw [(hnone m).1, (hnone n).1]
    · rw [(hnone n).1, (hnone n).2]
  | some parts =>
    obtain ⟨before, back⟩ := parts
    obtain ⟨rfl, rfl⟩ := splitAt?_eq_some_iff.mp hcut
    simp only [precedingRun?_append, precedingBlock?_append]
    cases habove : above? before with
    | none => exact ⟨fun _ _ _ => .none, fun _ _ _ _ => rfl, fun _ _ => rfl⟩
    | some top =>
      simp only [Option.map_some, Option.some.injEq, Span.mk.injEq, and_true]
      refine ⟨fun m n hle => .some (bytes_aboveRun_le (by omega) before), fun n hstops m hle => ?_, fun n hle => ?_⟩
      · rw [show max (max n 1 + 1) 1 = max n 1 + 1 by omega] at hstops
        rw [aboveRun_eq_of_stops hstops (by omega)]
      · rw [show max n 1 = 0 + 1 by omega, aboveRun, habove]
        rfl

/-- Two comments are found below one that a blank line keeps apart, also if five may be taken. -/
theorem precedingRun?_maximal_two :
    let source := "/** h */\n\n /** a/*b */\n/***/ f()".toList
    precedingRun? source 29 5 = some ⟨10, 29⟩ ∧ (∃ segments, IsStack source 29 5 ⟨10, 29⟩ segments) ∧
      ∀ m, 2 ≤ m → precedingRun? source 29 m = precedingRun? source 29 2 := by
  intro source
  obtain ⟨hstack, -, hstops, -⟩ := precedingRun?_maximal source 29
  have hfound : precedingRun? source 29 5 = some ⟨10, 29⟩ := by decide
  exact ⟨hfound, hstack 5 _ hfound, hstops 2 (by decide)⟩

end DocBlocks
