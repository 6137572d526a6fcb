import DocBlocks.Description.Requested
import DocBlocks.Proofs.Comment.Sliced
import DocBlocks.Proofs.Comment.Surrounded
import DocBlocks.Proofs.Description.Contained

/-!
# Lines of the comment of a unit

Each line of a comment is to stand behind the indentation of its place, as the opener or with a
star. A comment that a generator wrote is taken apart into lines before it is indented, so all its
lines do. The block made from what is known about a unit is indented before it is known where its
lines end: a text of the source that it shows may go over several lines, and all but the first of
them stand as they do in the source.

## Main definitions

* `Comment.Carries`: the lines behind an indentation.
* `CodeUnit.continuations`: the lines of a block that are left as they are.
* `Session.answered?`: the comment that a generator wrote.

## Main results

* `Comment.carries_reindent`: the lines of an indented comment.
* `CodeUnit.carries_block_iff`: the lines of a block.
* `CodeUnit.feed_notMem_summarize`: a summary is one line.
* `Session.describe_carries_iff`: when each line of the comment of a unit stands behind the
  indentation.
-/

namespace DocBlocks

open Text Comment

namespace Text

/-! ## Lines -/

/-- A line has no line feed. -/
lemma feed_notMem_of_mem_lines {t line : Text} (h : line ∈ t.splitOn '\n') : '\n' ∉ line := by
  induction t generalizing line with
  | nil =>
    obtain rfl : line = [] := by simpa using h
    exact List.not_mem_nil
  | cons c t ih =>
    rw [List.splitOn_cons_eq_if_modifyHead] at h
    split at h
    · rcases List.mem_cons.mp h with rfl | h
      · exact List.not_mem_nil
      · exact ih h
    · rename_i hc
      obtain ⟨first, others, hlines⟩ := List.exists_cons_of_ne_nil (List.splitOn_ne_nil '\n' t)
      rw [hlines] at h ih
      rcases List.mem_cons.mp h with rfl | h
      · have hfirst := ih List.mem_cons_self
        simp only [List.mem_cons, not_or]
        exact ⟨fun h => hc (beq_iff_eq.mpr h.symm), hfirst⟩
      · exact ih (List.mem_cons_of_mem _ h)

/-- The lines of texts with line feeds in between are those of the texts. -/
lemma splitOn_intercalate {ts : List Text} (hne : ts ≠ []) :
    (['\n'].intercalate ts).splitOn '\n' = ts.flatMap (List.splitOn '\n') := by
  induction ts with
  | nil => exact absurd rfl hne
  | cons t ts ih =>
    cases ts with
    | nil => simp
    | cons s ts =>
      rw [List.intercalate_cons_cons, List.append_assoc, List.singleton_append, List.splitOn_append_cons_self,
        ih (by simp), List.flatMap_cons (x := t)]

/-- The first line of a text starts with what the text starts with up to a line feed. -/
lemma splitOn_append {front t first : Text} {others : List Text} (hfront : '\n' ∉ front)
    (h : t.splitOn '\n' = first :: others) : (front ++ t).splitOn '\n' = (front ++ first) :: others := by
  induction front with
  | nil => exact h
  | cons c front ih =>
    rw [List.mem_cons, not_or] at hfront
    have hc : ¬ (c == '\n') = true := by simpa using Ne.symm hfront.1
    rw [List.cons_append, List.splitOn_cons_eq_if_modifyHead, if_neg hc, ih hfront.2]
    rfl

/-- There is a line feed in a text that goes on behind its first line. -/
lemma splitOn_tail_eq_nil_iff {t : Text} : (t.splitOn '\n').tail = [] ↔ '\n' ∉ t := by
  constructor
  · intro h
    obtain ⟨first, others, hlines⟩ := List.exists_cons_of_ne_nil (List.splitOn_ne_nil '\n' t)
    obtain rfl : others = [] := by simpa [hlines] using h
    have hjoined : List.intercalate ['\n'] (t.splitOn '\n') = t := List.intercalate_splitOn '\n'
    have ht : t = first := by simpa [hlines] using hjoined.symm
    exact ht ▸ feed_notMem_of_mem_lines (hlines ▸ List.mem_cons_self)
  · intro h
    rw [List.splitOn_eq_singleton h]
    rfl

end Text

namespace Comment

/-! ## Lines of an indented comment -/

/-- Whether a line carries an indentation: behind it stands the opener, or a star one place further
in. -/
def Carries (indent line : Text) : Prop := indent ++ docOpener <+: line ∨ indent ++ [' ', '*'] <+: line

instance (indent line : Text) : Decidable (Carries indent line) := inferInstanceAs (Decidable (_ ∨ _))

/-- A line in its form carries its indentation. -/
lemma carries_indentLine (indent line : Text) : Carries indent (indentLine indent line) := by
  rw [indentLine]
  split
  · rename_i hopener
    exact .inl ((List.prefix_append_right_inj indent).mpr (List.isPrefixOf_iff_prefix.mp hopener))
  · right
    split
    · rename_i hstar
      obtain ⟨rest, rfl⟩ := List.isPrefixOf_iff_prefix.mp hstar
      exact ⟨rest, by simp⟩
    · exact ⟨' ' :: line, by simp⟩

/-- A line with content has no line feed, also in its form. -/
lemma feed_notMem_indentLine {indent block line : Text} (hindent : '\n' ∉ indent) (h : line ∈ contentLines block) :
    '\n' ∉ indentLine indent line := by
  have hline : '\n' ∉ line := by
    obtain ⟨raw, hraw, rfl⟩ := List.mem_map.mp (List.mem_of_mem_filter h)
    exact fun hfeed => feed_notMem_of_mem_lines hraw ((trim_isInfix raw).subset hfeed)
  rw [indentLine]
  split
  · simp [hindent, hline]
  · split <;> simp [hindent, hline]

/-- A text that holds more than white space has lines with content. -/
lemma contentLines_ne_nil {block : Text} (h : block.all isWhite = false) : contentLines block ≠ [] := by
  intro hnil
  have hblank : ∀ line ∈ block.splitOn '\n', line.all isWhite := by
    intro line hline
    have hempty := List.filter_eq_nil_iff.mp hnil (trim line) (List.mem_map_of_mem hline)
    exact trim_eq_nil_iff.mp (by simpa using hempty)
  have hblock : block.all isWhite = true := by
    have hjoined : List.intercalate ['\n'] (block.splitOn '\n') = block := List.intercalate_splitOn '\n'
    obtain ⟨first, others, hlines⟩ := List.exists_cons_of_ne_nil (List.splitOn_ne_nil '\n' block)
    rw [hlines, CodeUnit.intercalate_cons] at hjoined
    rw [hlines, List.forall_mem_cons] at hblank
    rw [← hjoined, List.all_append, hblank.1, Bool.true_and, List.all_flatMap, List.all_eq_true]
    intro line hline
    exact (Bool.and_eq_true _ _).mpr ⟨by decide, hblank.2 line hline⟩
  rw [h] at hblock
  cases hblock

/-- The lines of an indented comment are those with content, each in its form. -/
lemma splitOn_reindent {block indent : Text} (hindent : '\n' ∉ indent) (hblock : contentLines block ≠ []) :
    (reindent block indent).splitOn '\n' = (contentLines block).map (indentLine indent) := by
  rw [reindent, List.splitOn_intercalate]
  · exact List.forall_mem_map.mpr fun line hline => feed_notMem_indentLine hindent hline
  · simpa using hblock

/-- **Each line of an indented comment** carries the indentation. -/
lemma carries_reindent {block indent : Text} (hindent : '\n' ∉ indent) (hblock : block.all isWhite = false) :
    ∀ line ∈ (reindent block indent).splitOn '\n', Carries indent line := by
  rw [splitOn_reindent hindent (contentLines_ne_nil hblock)]
  exact List.forall_mem_map.mpr fun line _ => carries_indentLine indent line

end Comment

/-! ## Summaries -/

namespace Summary

/-- Lower case makes no line feed. -/
lemma feed_mem_of_mem_lowerFrom {before t : Text} (h : '\n' ∈ lowerFrom before t) : '\n' ∈ t := by
  induction t generalizing before with
  | nil => exact h
  | cons c t ih =>
    obtain ⟨lower, hlower, hshape⟩ := exists_lowerFrom_cons before c t
    rw [hlower, List.mem_append] at h
    rcases h with h | h
    · rcases hshape with rfl | ⟨-, -, -, hfeed⟩
      · obtain rfl := List.mem_singleton.mp h
        exact List.mem_cons_self
      · exact absurd h hfeed
    · exact List.mem_cons_of_mem _ (ih h)

/-- There is no line feed in a word of a name. -/
lemma feed_notMem_word {name w : Text} (hw : w ∈ words name) : '\n' ∉ w := by
  rw [words_eq_map_segments] at hw
  obtain ⟨part, hpart, rfl⟩ := List.mem_map.mp hw
  intro h
  have hfeed : '\n' ∈ part := feed_mem_of_mem_lowerFrom h
  have hseparators : ¬ part.any isSeparator := by simpa using (List.mem_filter.mp hpart).2
  exact hseparators (List.any_eq_true.mpr ⟨'\n', hfeed, by decide⟩)

/-- Words without line feeds make none when they are put together. -/
lemma feed_notMem_intercalate {ws : List Text} (h : ∀ w ∈ ws, '\n' ∉ w) : '\n' ∉ [' '].intercalate ws := by
  cases ws with
  | nil => decide
  | cons w ws =>
    rw [List.forall_mem_cons] at h
    rw [CodeUnit.intercalate_cons]
    simpa using ⟨h.1, h.2⟩

/-- A capital at the start makes no line feed. -/
lemma feed_notMem_capitalize {t : Text} (h : '\n' ∉ t) : '\n' ∉ capitalize t := by
  cases t with
  | nil => exact h
  | cons c t =>
    rw [List.mem_cons, not_or] at h
    rw [capitalize, List.mem_cons, not_or]
    exact ⟨fun hc => h.1 (eq_of_toUpper_eq (by decide) hc.symm).symm, h.2⟩

/-- What a unit does is said without a line feed. -/
lemma feed_notMem_predicate {first : Text} {rest : List Text} (h : ∀ w ∈ first :: rest, '\n' ∉ w) :
    '\n' ∉ predicate first rest := by
  have hverbs : ∀ x ∈ verbs, '\n' ∉ x.2 := by decide
  have hperforms : '\n' ∉ "performs ".toList := by decide
  rw [List.forall_mem_cons] at h
  have hrest := feed_notMem_intercalate h.2
  cases hlookup : verbs.lookup first with
  | some verb =>
    obtain ⟨front, back, htable, -⟩ := List.lookup_eq_some_iff.mp hlookup
    have hverb : '\n' ∉ verb := hverbs (first, verb) (by rw [htable]; simp)
    cases rest <;> simp [predicate, hlookup, hverb, hrest]
  | none =>
    cases rest
    · simp only [predicate, hlookup, List.mem_append, hperforms, h.1, or_self, not_false_eq_true]
    · simp only [predicate, hlookup, List.mem_append, hperforms, hrest, or_self, not_false_eq_true]

end Summary

namespace CodeUnit

/-- **A summary** is one line, whatever the name of the unit is. -/
lemma feed_notMem_summarize (u : CodeUnit) : '\n' ∉ u.summarize := by
  rw [summarize]
  split
  · exact List.not_mem_nil
  · rename_i first rest hwords
    have hsentence : '\n' ∉ Summary.predicate first rest :=
      Summary.feed_notMem_predicate fun w hw => Summary.feed_notMem_word (hwords ▸ hw)
    have hasync : '\n' ∉ "Asynchronously ".toList := by decide
    dsimp only
    split
    · simp only [List.mem_append, hasync, hsentence, or_self, not_false_eq_true]
    · exact Summary.feed_notMem_capitalize hsentence

/-! ## Lines of a block -/

/-- The lines of a block behind the first one of each text that it is made from. They are shown as
they are in the source. -/
def continuations (u : CodeUnit) : List Text := u.blockLines.flatMap fun line => (line.splitOn '\n').tail

/-- Each line that a block is made from starts with the opener or with a star. -/
lemma exists_mark_prefix (u : CodeUnit) :
    ∀ line ∈ u.blockLines, ∃ mark, (mark = docOpener ∨ mark = [' ', '*']) ∧ mark <+: line := by
  have hstar : ∀ front rest : Text, [' ', '*'] <+: front →
      ∃ mark, (mark = docOpener ∨ mark = [' ', '*']) ∧ mark <+: front ++ rest := fun front rest h =>
    ⟨_, .inr rfl, h.trans (List.prefix_append front rest)⟩
  simp only [blockLines_eq, middleLines, List.forall_mem_append, List.forall_mem_cons, List.not_mem_nil,
    IsEmpty.forall_iff, implies_true, and_true, List.forall_mem_map]
  refine ⟨⟨docOpener, .inl rfl, List.prefix_rfl⟩, ⟨⟨⟨hstar " * ".toList _ (by decide), ?_⟩, ?_⟩, ?_⟩,
    ⟨[' ', '*'], .inr rfl, by decide⟩⟩
  · intro line hline
    obtain rfl := List.mem_singleton.mp (List.mem_ite_nil_right.mp hline).2
    exact ⟨[' ', '*'], .inr rfl, by decide⟩
  · intro p _
    unfold Parameter.line
    simp only [List.append_assoc]
    exact hstar " * @param ".toList _ (by decide)
  · intro line hline
    obtain ⟨t, -, rfl⟩ := Option.map_eq_some_iff.mp (Option.mem_toList.mp hline)
    rw [List.append_assoc]
    exact hstar " * @returns \x7b".toList _ (by decide)

/-- The lines of a line of a block behind its indentation: the first one carries it, and the others
are left as they are. -/
lemma carries_blockLine_iff {u : CodeUnit} {indent line : Text} (hindent : '\n' ∉ indent) (h : line ∈ u.blockLines) :
    (∀ l ∈ (indent ++ line).splitOn '\n', Carries indent l) ↔ ∀ l ∈ (line.splitOn '\n').tail, Carries indent l := by
  obtain ⟨mark, hmark, rest, rfl⟩ := u.exists_mark_prefix line h
  obtain ⟨first, others, hrest⟩ := List.exists_cons_of_ne_nil (List.splitOn_ne_nil '\n' rest)
  have hfeed : '\n' ∉ mark := by rcases hmark with rfl | rfl <;> decide
  have hline := splitOn_append hfeed hrest
  have hfirst : Carries indent (indent ++ (mark ++ first)) := by
    rcases hmark with rfl | rfl
    · exact .inl ⟨first, List.append_assoc ..⟩
    · exact .inr ⟨first, List.append_assoc ..⟩
  rw [splitOn_append hindent hline, hline, List.forall_mem_cons, List.tail_cons]
  exact and_iff_right hfirst

/-- **The lines of a block** carry the indentation exactly if those do that are left as they are. -/
lemma carries_block_iff (u : CodeUnit) {indent : Text} (hindent : '\n' ∉ indent) :
    (∀ line ∈ (u.block indent).splitOn '\n', Carries indent line) ↔ ∀ l ∈ u.continuations, Carries indent l := by
  have hne : u.blockLines.map (indent ++ ·) ≠ [] := by rw [blockLines_eq]; simp
  rw [block, splitOn_intercalate hne, continuations, List.flatMap_map, List.forall_mem_flatMap, List.forall_mem_flatMap]
  exact forall₂_congr fun line hline => carries_blockLine_iff hindent hline

/-- The line about a parameter has a line feed exactly if a text has that it shows. -/
lemma feed_mem_line_iff (p : Parameter) : '\n' ∈ p.line ↔ ∃ t ∈ p.shown, '\n' ∈ t := by
  have hfixed : '\n' ∉ " * @param ".toList ∧ '\n' ∉ " - ".toList := by decide
  have hremark : '\n' ∉ p.remark := by
    rw [Parameter.remark]
    split <;> decide
  obtain ⟨name, type, default⟩ := p
  unfold Parameter.line
  cases type <;> cases default <;>
    simp only [Parameter.shown, List.mem_append, hfixed, hremark] <;> simp [or_left_comm, or_comm]

/-- No line of a block is left as it is exactly if no text that is shown has a line feed. -/
lemma continuations_eq_nil_iff (u : CodeUnit) : u.continuations = [] ↔ ∀ t ∈ u.shown, '\n' ∉ t := by
  have hfixed : '\n' ∉ " * ".toList ∧ '\n' ∉ " * @returns \x7b".toList ∧ '\n' ∉ docOpener ∧ '\n' ∉ " */".toList := by
    decide
  have hasync : ∀ line ∈ if u.isAsync then [" * @async".toList] else [], '\n' ∉ line := by split <;> decide
  have hparameters : (∀ line ∈ u.parameters.map Parameter.line, '\n' ∉ line) ↔
      ∀ t ∈ u.parameters.flatMap Parameter.shown, '\n' ∉ t := by
    rw [List.forall_mem_map, List.forall_mem_flatMap]
    refine forall₂_congr fun p _ => ?_
    rw [feed_mem_line_iff]
    simp only [not_exists, not_and]
  have hresult : (∀ line ∈ (u.returnType.map fun t => " * @returns \x7b".toList ++ t ++ ['\x7d']).toList,
      '\n' ∉ line) ↔ ∀ t ∈ u.returnType.toList, '\n' ∉ t := by
    cases u.returnType with
    | none => simp
    | some t => simp
  rw [continuations, List.flatMap_eq_nil_iff]
  simp only [splitOn_tail_eq_nil_iff, blockLines_eq, middleLines, shown, List.forall_mem_cons, List.forall_mem_append,
    hparameters, hresult]
  simp only [List.mem_append]
  tauto

/-- A block carries every indentation exactly if none of its lines is left as it is. -/
lemma carries_block_forall_iff (u : CodeUnit) :
    (∀ indent, IsIndent indent → ∀ line ∈ (u.block indent).splitOn '\n', Carries indent line) ↔
      ∀ t ∈ u.shown, '\n' ∉ t := by
  rw [← continuations_eq_nil_iff]
  constructor
  · intro h
    by_contra hne
    obtain ⟨l, others, hl⟩ := List.exists_cons_of_ne_nil hne
    -- an indentation that is longer than the line
    have hindent : IsIndent (List.replicate l.length ' ') := fun c hc => .inl (List.eq_of_mem_replicate hc)
    have hcarries := (u.carries_block_iff hindent.no_break).mp (h _ hindent) l (hl ▸ List.mem_cons_self)
    rcases hcarries with hcarries | hcarries
    all_goals
      have hlength := hcarries.length_le
      simp only [List.length_append, List.length_replicate, docOpener, List.length_cons] at hlength
      omega
  · intro h indent hindent
    rw [u.carries_block_iff hindent.no_break, h]
    exact List.forall_mem_nil _

end CodeUnit

/-! ## Comments of units -/

namespace Session

/-- The comment that a generator writes for a unit, if there is one and its answer can be used. -/
def answered? (g : Option Generator) (extension source : Text) (u : CodeUnit) (indent : Text) (s : Session) : Option Text :=
  g.bind fun g => (s.ask g (u.prompt extension source)).1.comment? indent

/-- The comment of a unit is the one that a generator writes, and the block of the unit if there is
none. -/
lemma describe_eq (g : Option Generator) (extension source : Text) (u : CodeUnit) (indent : Text) (s : Session) :
    (s.describe g extension source u indent).1 = (s.answered? g extension source u indent).getD (u.block indent) := by
  cases g <;> rfl

/-- Each line of what a generator wrote carries the indentation. -/
lemma carries_answered {g : Option Generator} {extension source : Text} {u : CodeUnit} {indent comment : Text} {s : Session}
    (hindent : '\n' ∉ indent) (h : s.answered? g extension source u indent = some comment) :
    ∀ line ∈ comment.splitOn '\n', Carries indent line := by
  obtain ⟨g, -, h⟩ := Option.bind_eq_some_iff.mp h
  unfold Reply.comment? at h
  split at h
  · rename_i answer _
    obtain ⟨block, hblock, rfl⟩ := Option.map_eq_some_iff.mp h
    obtain ⟨⟨rest, rfl⟩, -⟩ := (sanitize?_isSingle_iff answer).1 block hblock
    exact carries_reindent hindent rfl
  · cases h
  · cases h

/-- **Each line of the comment of a unit** carries the indentation of its place, as the opener or
with a star one place further in, exactly if a generator wrote the comment or the lines of the block
that are left as they are carry it by themselves. Of what a generator wrote each line is brought
into this form, whatever the answer was. The lines of a block that are left as they are come from
the texts of the source that it shows, the names, types and defaults of the parameters and the
result type: the block carries every indentation exactly if none of these texts goes over several
lines. The summary that is made for a unit never does.

**Proof sketch.** The comment is what a generator wrote, and otherwise the block (`describe_eq`).
The first one is put together from lines in their form (`Comment.carries_reindent`). The second one
is put together from texts behind the indentation; the first line of each is in its form, and the
others are as they were (`CodeUnit.carries_block_iff`). A line that is left as it is lacks any
indentation that is longer than the line. -/
theorem describe_carries_iff (g : Option Generator) (extension source : Text) (u : CodeUnit) (s : Session) {indent : Text}
    (hindent : IsIndent indent) :
    ((∀ line ∈ (s.describe g extension source u indent).1.splitOn '\n', Carries indent line) ↔
        (s.answered? g extension source u indent).isSome ∨ ∀ l ∈ u.continuations, Carries indent l) ∧
      ((∀ other, IsIndent other → ∀ line ∈ (u.block other).splitOn '\n', Carries other line) ↔ ∀ t ∈ u.shown, '\n' ∉ t) ∧
      (u.summary = u.summarize → '\n' ∉ u.opening) := by
  refine ⟨?_, u.carries_block_forall_iff, fun hsummary => ?_⟩
  · rw [describe_eq]
    cases hanswer : s.answered? g extension source u indent with
    | some comment =>
      simp only [Option.getD_some, Option.isSome_some, true_or, iff_true]
      exact carries_answered hindent.no_break hanswer
    | none =>
      simp only [Option.getD_none, Option.isSome_none, Bool.false_eq_true, false_or]
      exact u.carries_block_iff hindent.no_break
  · rw [CodeUnit.opening, hsummary]
    split
    · decide
    · exact u.feed_notMem_summarize

/-- An answer with prose around its comment, which is out of line itself. -/
theorem describe_carries_answer :
    IsIndent ['\t'] ∧
      let u : CodeUnit := ⟨"load".toList, .method, [⟨"a".toList, none, some "[\n1]".toList⟩], none, ⟨0, 0⟩, false, [], []⟩
      let s : Session :=
        { disk := .folder [], script := some [.text "Sure:\n/**\nLoads it.\n\n   *all* of it */ ok".toList] }
      (s.describe (some .script) "js".toList [] u ['\t']).1 = "\t/**\n\t * Loads it.\n\t *all* of it */".toList ∧
        ∀ line ∈ (s.describe (some .script) "js".toList [] u ['\t']).1.splitOn '\n', Carries ['\t'] line := by
  have hindent : IsIndent ['\t'] := by simp [IsIndent]
  exact ⟨hindent, by decide +kernel, (describe_carries_iff _ _ _ _ _ hindent).1.mpr (.inl (by decide +kernel))⟩

/-- The default of a parameter goes over three lines, and only the first of them is indented. -/
theorem describe_carries_default :
    let source := "class A \x7b\n  m(a = \x7b\n    b: 1\n  \x7d) \x7b\x7d\n\x7d\n".toList
    let s : Session := { disk := .folder [] }
    (extract .javaScript source).map (List.map fun u =>
        (s.describe none "js".toList source { u with summary := u.summarize } "  ".toList).1.splitOn '\n') =
      .ok [["  /**".toList, "   * Performs m".toList, "   * @param [a=\x7b".toList, "    b: 1".toList,
        "  \x7d] - TODO: describe.".toList, "   */".toList]] ∧
      IsIndent "  ".toList ∧ ¬ Carries "  ".toList "    b: 1".toList := by
  refine ⟨by decide +kernel, ?_, by decide⟩
  simp [IsIndent]

end Session

end DocBlocks
