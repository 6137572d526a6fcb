import DocBlocks.Proofs.Description.Lined

/-!
# Comments indented again

Indenting a comment brings its lines into a form that only the indentation tells apart: another
indentation takes the place of the first one. The content of a line stays, but for a star in front
of it, and what is put in front of a line makes no closer with it. So a single comment stays one,
behind its indentation.

## Main definitions

* `Comment.starred`: the content of a line in its form.
* `Comment.ClosesLast`: lines of which only the last one holds a closer, at its end.

## Main results

* `Text.trim_eq_iff`: the one part of a text between the white space at its ends.
* `Comment.contentLines_reindent`: the lines with content of an indented comment.
* `Comment.endsAtCloser_reindent`: a text that ends with its first closer does so when it is
  indented.
* `Comment.reindent_normal`: indenting is done once and for all, and keeps single comments.
-/

namespace DocBlocks

open Text

/-- **A text without the white space at its ends**: the only part with nothing else around it that
neither starts nor ends with white space. -/
lemma Text.trim_eq_iff {t a : Text} :
    trim t = a ↔ ∃ v w, t = v ++ (a ++ w) ∧ (∀ c ∈ v, isWhite c) ∧ (∀ c ∈ w, isWhite c) ∧
      (∀ c, a.head? = some c → isWhite c = false) ∧ ∀ c, a.getLast? = some c → isWhite c = false := by
  rw [trim, trimEnd_eq_iff]
  constructor
  · rintro ⟨w, hstart, hw, hlast⟩
    refine ⟨t.takeWhile isWhite, w, ?_, ?_, hw, fun c hc => ?_, hlast⟩
    · rw [← hstart, trimStart, List.takeWhile_append_dropWhile]
    · exact List.all_eq_true.mp List.all_takeWhile
    · have hhead := List.head?_dropWhile_not isWhite t
      rwa [← trimStart, hstart, List.head?_append, hc] at hhead
  · rintro ⟨v, w, rfl, hv, hw, hhead, hlast⟩
    rw [trimStart, List.dropWhile_append_of_pos hv]
    cases a with
    | nil => exact ⟨[], by simpa [List.dropWhile_eq_nil_iff] using hw, by simp, hlast⟩
    | cons c a => exact ⟨w, by simp [hhead c rfl], hw, hlast⟩

namespace Comment

/-! ## Contents of lines -/

/-- The content of a line in its form: a star stands in front, unless there is one or the line is
the first of a comment. -/
def starred (line : Text) : Text :=
  if docOpener.isPrefixOf line || ['*'].isPrefixOf line then line else ['*', ' '] ++ line

variable {indent line : Text}

/-- A line in its form is its content behind the indentation and a mark that ends with white
space. -/
lemma exists_indentLine (indent line : Text) :
    ∃ mark, indentLine indent line = indent ++ mark ++ line ∧ (mark = [] ∨ mark = [' '] ∨ mark = [' ', '*', ' ']) := by
  rw [indentLine]
  split
  · exact ⟨[], by simp, .inl rfl⟩
  · split
    · exact ⟨[' '], rfl, .inr (.inl rfl)⟩
    · exact ⟨[' ', '*', ' '], rfl, .inr (.inr rfl)⟩

/-- The content of a line in its form, without the white space in front. -/
lemma exists_starred (indent line : Text) :
    ∃ gap, indentLine indent line = indent ++ gap ++ starred line ∧ (gap = [] ∨ gap = [' ']) := by
  rw [indentLine, starred]
  by_cases hopener : docOpener.isPrefixOf line
  · exact ⟨[], by simp [hopener], .inl rfl⟩
  · by_cases hstar : ['*'].isPrefixOf line
    · exact ⟨[' '], by simp [hopener, hstar], .inr rfl⟩
    · exact ⟨[' '], by simp [hopener, hstar], .inr rfl⟩

/-- Lines with content have no white space at their ends, and are not empty. -/
lemma ends_of_mem_contentLines {block : Text} (h : line ∈ contentLines block) :
    line ≠ [] ∧ (∀ c, line.head? = some c → isWhite c = false) ∧ ∀ c, line.getLast? = some c → isWhite c = false := by
  obtain ⟨htrimmed, hne⟩ := List.mem_filter.mp h
  obtain ⟨raw, -, hraw⟩ := List.mem_map.mp htrimmed
  obtain ⟨-, -, -, -, -, hends⟩ := trim_eq_iff.mp hraw
  exact ⟨by simpa using hne, hends⟩

/-- **The content of a line in its form** does not depend on the indentation. -/
lemma trim_indentLine {block : Text} (hindent : IsIndent indent) (h : line ∈ contentLines block) :
    trim (indentLine indent line) = starred line := by
  obtain ⟨hne, hhead, hlast⟩ := ends_of_mem_contentLines h
  obtain ⟨gap, hshape, hgap⟩ := exists_starred indent line
  have hwhite : ∀ c ∈ indent ++ gap, isWhite c := by
    intro c hc
    rcases List.mem_append.mp hc with hc | hc
    · exact hindent.white c hc
    · rcases hgap with rfl | rfl
      · cases hc
      · obtain rfl := List.mem_singleton.mp hc
        decide
  refine trim_eq_iff.mpr ⟨indent ++ gap, [], by rw [hshape, List.append_nil], hwhite, by simp, ?_, ?_⟩
  · rw [starred]
    split
    · exact hhead
    · rintro c ⟨⟩
      decide
  · rw [starred]
    split
    · exact hlast
    · rwa [List.getLast?_append_of_ne_nil _ hne]

lemma starred_ne_nil (hne : line ≠ []) : starred line ≠ [] := by
  rw [starred]
  split <;> simp [hne]

/-- The form of a line is that of its content in its form. -/
lemma indentLine_starred (indent line : Text) : indentLine indent (starred line) = indentLine indent line := by
  rw [starred]
  split
  · rfl
  · rename_i h
    simp only [Bool.or_eq_true, not_or] at h
    rw [indentLine, indentLine, if_neg h.1, if_neg h.2]
    simp [docOpener]

/-- An indentation adds nothing to the first line. -/
lemma contentLines_indent_append (hindent : IsIndent indent) (t : Text) : contentLines (indent ++ t) = contentLines t := by
  obtain ⟨first, others, hlines⟩ := List.exists_cons_of_ne_nil (List.splitOn_ne_nil '\n' t)
  have hfirst : trim (indent ++ first) = trim first := by
    rw [trim, trim, trimStart, List.dropWhile_append_of_pos hindent.white, ← trimStart]
  rw [contentLines, contentLines, splitOn_append hindent.no_break hlines, hlines, List.map_cons, List.map_cons, hfirst]

/-- **The lines with content** of an indented comment are those of the comment, each with its
star. -/
lemma contentLines_reindent (block : Text) (hindent : IsIndent indent) :
    contentLines (reindent block indent) = (contentLines block).map starred := by
  by_cases hnil : contentLines block = []
  · rw [reindent, hnil]
    rfl
  · rw [contentLines, splitOn_reindent hindent.no_break hnil, List.map_map]
    have hmap : (contentLines block).map (trim ∘ indentLine indent) = (contentLines block).map starred :=
      List.map_congr_left fun line hline => trim_indentLine hindent hline
    rw [hmap, List.filter_eq_self]
    refine List.forall_mem_map.mpr fun line hline => ?_
    simpa using starred_ne_nil (ends_of_mem_contentLines hline).1

/-! ## Closers -/

/-- What ends neither with a star nor with a slash has no part in a closer behind it. -/
lemma endsAtCloser_append_iff {x t : Text} (hstar : x.getLast? ≠ some '*') (hslash : x.getLast? ≠ some '/') :
    EndsAtCloser (x ++ t) ↔ ¬ closer <:+: x ∧ EndsAtCloser t := by
  constructor
  · rintro ⟨v, hv, hn⟩
    rcases List.append_eq_append_iff.mp hv with ⟨m, rfl, rfl⟩ | ⟨m, rfl, hm⟩
    · exact ⟨fun h => hn (h.trans (List.prefix_append x m).isInfix), m, rfl,
        fun h => hn (h.trans (List.suffix_append x m).isInfix)⟩
    · -- the characters `m` of the closer would be the last ones of `x`
      match m, hm with
      | [], hm => exact ⟨by simpa using hn, [], by simpa using hm.symm, by simp [closer]⟩
      | [c], hm =>
        obtain ⟨rfl, -⟩ : '*' = c ∧ _ := List.cons.inj hm
        simp at hstar
      | c :: d :: m, hm =>
        obtain ⟨-, rfl, hrest⟩ : '*' = c ∧ '/' = d ∧ [] = m ++ t := by simpa [closer] using hm
        obtain ⟨rfl, -⟩ := List.append_eq_nil_iff.mp hrest.symm
        simp at hslash
  · rintro ⟨hx, v, rfl, hn⟩
    refine ⟨x ++ v, (List.append_assoc ..).symm, ?_⟩
    rw [closer, pair_isInfix_append]
    rintro (h | h | ⟨h, -⟩)
    · exact hx h
    · exact hn h
    · exact hstar h

/-- Whether of some lines the last one ends with its first closer, and the others hold none. -/
def ClosesLast (lines : List Text) : Prop :=
  ∃ before last, lines = before ++ [last] ∧ (∀ l ∈ before, ¬ closer <:+: l) ∧ EndsAtCloser last

/-- **A text of several lines** ends with its first closer if this is so of its last line, and no
other holds a closer. -/
lemma endsAtCloser_lines_iff {lines : List Text} (hne : lines ≠ []) :
    EndsAtCloser (['\n'].intercalate lines) ↔ ClosesLast lines := by
  induction lines with
  | nil => exact absurd rfl hne
  | cons l ls ih =>
    cases ls with
    | nil =>
      rw [List.intercalate_singleton]
      constructor
      · exact fun h => ⟨[], l, rfl, by simp, h⟩
      · rintro ⟨before, last, hlines, -, h⟩
        obtain ⟨rfl, rfl⟩ : before = [] ∧ last = l := by simpa [List.singleton_eq_append_iff] using hlines
        exact h
    | cons m ls =>
      have hlast : (l ++ ['\n']).getLast? = some '\n' := List.getLast?_concat
      have hline : closer <:+: l ++ ['\n'] ↔ closer <:+: l := by
        rw [closer, pair_isInfix_append]
        simp
      rw [List.intercalate_cons_cons, endsAtCloser_append_iff (by rw [hlast]; decide) (by rw [hlast]; decide),
        ih (by simp), hline]
      constructor
      · rintro ⟨hl, before, last, hlines, hbefore, h⟩
        exact ⟨l :: before, last, by rw [hlines]; rfl, List.forall_mem_cons.mpr ⟨hl, hbefore⟩, h⟩
      · rintro ⟨before, last, hlines, hbefore, h⟩
        cases before with
        | nil => simp at hlines
        | cons x before =>
          obtain ⟨rfl, hls⟩ := List.cons.inj hlines
          obtain ⟨hl, hbefore⟩ := List.forall_mem_cons.mp hbefore
          exact ⟨hl, before, last, hls, hbefore, h⟩

/-- The white space at the ends of a line is no part of a closer. -/
lemma endsAtCloser_trim (h : EndsAtCloser line) : EndsAtCloser (trim line) ∧ trim line ≠ [] := by
  obtain ⟨v, rfl, hn⟩ := h
  have htrim : trim (v ++ closer) = v.dropWhile isWhite ++ closer := by
    refine trim_eq_iff.mpr ⟨v.takeWhile isWhite, [], ?_, List.all_eq_true.mp List.all_takeWhile, by simp, ?_, ?_⟩
    · rw [List.append_nil, ← List.append_assoc, List.takeWhile_append_dropWhile]
    · intro c hc
      have hhead := List.head?_dropWhile_not isWhite v
      rw [List.head?_append] at hc
      cases hv : (v.dropWhile isWhite).head? with
      | none =>
        rw [hv] at hc
        obtain rfl : '*' = c := by simpa [closer] using hc
        decide
      | some d =>
        rw [hv] at hc hhead
        obtain rfl : d = c := by simpa using hc
        exact hhead
    · intro c hc
      obtain rfl : '/' = c := by simpa [closer, List.getLast?_append] using hc
      decide
  rw [htrim]
  exact ⟨⟨_, rfl, fun h => hn (h.trans (List.dropWhile_suffix isWhite).isInfix)⟩, by simp [closer]⟩

/-- Lines with content close where the lines of the text do. -/
lemma ClosesLast.contentLines {block : Text} (h : ClosesLast (block.splitOn '\n')) : ClosesLast (contentLines block) := by
  obtain ⟨before, last, hlines, hbefore, hlast⟩ := h
  obtain ⟨hcloses, hne⟩ := endsAtCloser_trim hlast
  refine ⟨(before.map trim).filter (· ≠ []), trim last, ?_, fun l hl => ?_, hcloses⟩
  · rw [Comment.contentLines, hlines, List.map_append, List.filter_append, List.map_singleton, List.filter_singleton]
    simp [hne]
  · obtain ⟨raw, hraw, rfl⟩ := List.mem_map.mp (List.mem_of_mem_filter hl)
    exact fun h => hbefore raw hraw (h.trans (trim_isInfix raw))

/-- What stands in front of a line in its form has no part in a closer. -/
lemma exists_inert_lead (hindent : IsIndent indent) (line : Text) :
    ∃ lead, indentLine indent line = lead ++ line ∧ ¬ closer <:+: lead ∧ lead.getLast? ≠ some '*' ∧
      lead.getLast? ≠ some '/' := by
  obtain ⟨mark, hshape, hmark⟩ := exists_indentLine indent line
  have hslash : '/' ∉ indent ++ mark := by
    rw [List.mem_append]
    rintro (h | h)
    · rcases hindent '/' h with h | h <;> cases h
    · rcases hmark with rfl | rfl | rfl <;> simp at h
  have hstar : (indent ++ mark).getLast? ≠ some '*' := by
    rcases hmark with rfl | rfl | rfl
    · intro h
      rw [List.append_nil] at h
      rcases hindent '*' (List.mem_of_getLast? h) with h | h <;> cases h
    · simp
    · simp [List.getLast?_append]
  refine ⟨indent ++ mark, hshape, fun h => hslash (h.subset ?_), hstar, fun h => hslash (List.mem_of_getLast? h)⟩
  simp [closer]

/-- Lines in their form close where the lines do. -/
lemma ClosesLast.map_indentLine {lines : List Text} (hindent : IsIndent indent) (h : ClosesLast lines) :
    ClosesLast (lines.map (indentLine indent)) := by
  obtain ⟨before, last, rfl, hbefore, hlast⟩ := h
  refine ⟨before.map (indentLine indent), indentLine indent last, by simp, List.forall_mem_map.mpr fun l hl => ?_, ?_⟩
  · obtain ⟨lead, hshape, hlead, hstar, -⟩ := exists_inert_lead hindent l
    rw [hshape, closer, pair_isInfix_append]
    rintro (h | h | ⟨h, -⟩)
    · exact hlead h
    · exact hbefore l hl h
    · exact hstar h
  · obtain ⟨lead, hshape, hlead, hstar, hslash⟩ := exists_inert_lead hindent last
    rw [hshape, endsAtCloser_append_iff hstar hslash]
    exact ⟨hlead, hlast⟩

/-- **A text that ends with its first closer** does so when it is indented. -/
lemma endsAtCloser_reindent {block : Text} (hindent : IsIndent indent) (h : EndsAtCloser block) :
    EndsAtCloser (reindent block indent) := by
  have hjoined : List.intercalate ['\n'] (block.splitOn '\n') = block := List.intercalate_splitOn '\n'
  rw [← hjoined, endsAtCloser_lines_iff (List.splitOn_ne_nil '\n' block)] at h
  have hcontents := h.contentLines.map_indentLine hindent
  rw [reindent, endsAtCloser_lines_iff]
  · exact hcontents
  · obtain ⟨before, last, hlines, -⟩ := hcontents
    rw [hlines]
    simp

/-! ## Single comments -/

/-- A single comment starts with the mark of a documentation comment and ends with the first closer
behind `/*`. -/
lemma isSingle_iff_endsAtCloser {b : Text} : IsSingle b ↔ docOpener <+: b ∧ EndsAtCloser (b.drop 2) := by
  rw [IsSingle, first_closer_iff, EndsAtCloser]
  simp only [closer_isInfix_concat_star]

/-- White space is cut off only behind a mark at the start of a line. -/
lemma trim_mark_append {mark : Text} (hne : mark ≠ []) (hmark : ∀ c ∈ mark, isWhite c = false) (t : Text) :
    trim (mark ++ t) = mark ++ trimEnd t := by
  obtain ⟨w, ht, hw, hlast⟩ := trimEnd_eq_iff.mp (rfl : trimEnd t = trimEnd t)
  refine trim_eq_iff.mpr ⟨[], w, ?_, by simp, hw, fun c hc => ?_, fun c hc => ?_⟩
  · rw [List.nil_append, List.append_assoc, ← ht]
  · rw [List.head?_append_of_ne_nil _ hne] at hc
    exact hmark c (List.mem_of_head? hc)
  · by_cases hnil : trimEnd t = []
    · rw [hnil, List.append_nil] at hc
      exact hmark c (List.mem_of_getLast? hc)
    · rw [List.getLast?_append_of_ne_nil _ hnil] at hc
      exact hlast c hc

/-- A mark at the start of a text is a part of the first of its lines with content. -/
lemma contentLines_mark_append {mark t first : Text} {others : List Text} (hne : mark ≠ [])
    (hmark : ∀ c ∈ mark, isWhite c = false) (hlines : t.splitOn '\n' = first :: others) :
    contentLines (mark ++ t) = (mark ++ trimEnd first) :: (others.map trim).filter (· ≠ []) := by
  have hfeed : '\n' ∉ mark := fun h => absurd (hmark '\n' h) (by decide)
  rw [contentLines, splitOn_append hfeed hlines, List.map_cons, trim_mark_append hne hmark, List.filter_cons_of_pos]
  simp [hne]

/-- A documentation comment is indented like the text behind its `/*`, one place further out. -/
lemma exists_reindent_docOpener (t indent : Text) :
    ∃ u, reindent (docOpener ++ t) indent = indent ++ (docOpener ++ u) ∧
      reindent (['*'] ++ t) indent = indent ++ [' '] ++ (['*'] ++ u) := by
  obtain ⟨first, others, hlines⟩ := List.exists_cons_of_ne_nil (List.splitOn_ne_nil '\n' t)
  refine ⟨trimEnd first ++ (((others.map trim).filter (· ≠ [])).map (indentLine indent)).flatMap (['\n'] ++ ·), ?_, ?_⟩
  · rw [reindent, contentLines_mark_append (by decide) (by simp [docOpener, isWhite]) hlines, List.map_cons,
      CodeUnit.intercalate_cons]
    simp [indentLine, docOpener]
  · rw [reindent, contentLines_mark_append (by decide) (by simp [isWhite]) hlines, List.map_cons, CodeUnit.intercalate_cons]
    simp [indentLine, docOpener]

/-- **A single comment stays one** behind its indentation. -/
lemma exists_isSingle_reindent {block : Text} (hindent : IsIndent indent) (h : IsSingle block) :
    ∃ comment, reindent block indent = indent ++ comment ∧ IsSingle comment := by
  obtain ⟨⟨t, rfl⟩, hcloses⟩ := isSingle_iff_endsAtCloser.mp h
  obtain ⟨u, hcomment, hbehind⟩ := exists_reindent_docOpener t indent
  refine ⟨docOpener ++ u, hcomment, isSingle_iff_endsAtCloser.mpr ⟨List.prefix_append docOpener u, ?_⟩⟩
  have hindented : EndsAtCloser (indent ++ [' '] ++ (['*'] ++ u)) := hbehind ▸ endsAtCloser_reindent hindent hcloses
  have hlast : (indent ++ [' ']).getLast? = some ' ' := List.getLast?_concat
  exact ((endsAtCloser_append_iff (by rw [hlast]; decide) (by rw [hlast]; decide)).mp hindented).2

/-- **Indenting is done once and for all.** Whatever the text is, another indentation gives what it
would have given at first: nothing of the first one is left. The lines with content stay in number
and order, each with its star. And a single comment stays one, behind the indentation.

**Proof sketch.** The content of a line in its form tells the form (`indentLine_starred`), and it is
all that is left of the line (`contentLines_reindent`). The text behind `/*` ends with its first
closer, so its last line does and no other holds one, and what is put in front of lines adds none
(`endsAtCloser_reindent`). -/
theorem reindent_normal (block : Text) (hindent : IsIndent indent) :
    (∀ other, reindent (reindent block indent) other = reindent block other) ∧
      contentLines (reindent block indent) = (contentLines block).map starred ∧
      (IsSingle block → ∃ comment, reindent block indent = indent ++ comment ∧ IsSingle comment ∧
        contentLines comment = (contentLines block).map starred) := by
  have hcontents := contentLines_reindent block hindent
  refine ⟨fun other => ?_, hcontents, fun h => ?_⟩
  · have hforms : (indentLine other ∘ starred) = indentLine other := funext (indentLine_starred other)
    rw [reindent, hcontents, List.map_map, hforms, reindent]
  · obtain ⟨comment, hcomment, hsingle⟩ := exists_isSingle_reindent hindent h
    exact ⟨comment, hcomment, hsingle, by rw [← contentLines_indent_append hindent, ← hcomment, hcontents]⟩

/-- A comment with a line that lacks its star, indented twice. -/
theorem reindent_normal_lacking :
    let block := "/**\n\n* Fetches a user. \n   @param id - the id\r\n */".toList
    IsIndent "  ".toList ∧ IsSingle block ∧
      reindent block "  ".toList = "  /**\n   * Fetches a user.\n   * @param id - the id\n   */".toList ∧
      reindent (reindent block "  ".toList) "\t".toList = reindent block "\t".toList ∧
      ∃ comment, reindent block "  ".toList = "  ".toList ++ comment ∧ IsSingle comment ∧
        contentLines comment =
          ["/**".toList, "* Fetches a user.".toList, "* @param id - the id".toList, "*/".toList] := by
  intro block
  have hindent : IsIndent "  ".toList := by simp [IsIndent]
  have hsingle : IsSingle block := by decide
  obtain ⟨hagain, -, hkeeps⟩ := reindent_normal block hindent
  exact ⟨hindent, hsingle, by decide, hagain _, hkeeps hsingle⟩

end Comment

end DocBlocks
