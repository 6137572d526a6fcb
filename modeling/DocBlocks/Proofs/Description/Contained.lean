import DocBlocks.Extraction
import DocBlocks.Proofs.Comment.Single
import DocBlocks.Proofs.Comment.Stack
import DocBlocks.Proofs.Description.Closed
import DocBlocks.Proofs.Description.Segmented

/-!
# What ends the block of a unit

The comment made from what is known about a unit shows texts of the source as they are written. It
is a single comment exactly if none of them holds a closer: the marks around them make none at the
seams. The summary holds one only if the name of the unit does.

## Main definitions

* `Comment.Inert`: texts that have no part in a closer, whatever stands around them.
* `Parameter.shown`, `CodeUnit.shown`: the texts that a block shows.

## Main results

* `Summary.closer_isInfix_lowerFrom`: lower case makes no closer.
* `CodeUnit.closer_isInfix_summarize`: a summary holds a closer only if the name does.
* `CodeUnit.showsNoCloser_iff`: the lines of a block hold a closer only where a text does that they
  show.
* `CodeUnit.block_isSingle_iff`: when the block of a unit is a single comment.
-/

namespace DocBlocks

open Text Comment

/-! ## Marks between texts -/

namespace Comment

/-- Whether a text can stand between others without a part in any closer. -/
def Inert (t : Text) : Prop := t ≠ [] ∧ ¬ closer <:+: t ∧ t.head? ≠ some '/' ∧ t.getLast? ≠ some '*'

instance (t : Text) : Decidable (Inert t) := inferInstanceAs (Decidable (_ ∧ _))

section Inert

variable {mark t s : Text}

/-- Such a text adds no closer in front of another one. -/
lemma Inert.in_front_iff (h : Inert mark) : closer <:+: mark ++ s ↔ closer <:+: s := by
  obtain ⟨-, hcloser, -, hlast⟩ := h
  refine ⟨fun h => ?_, fun h => h.trans (List.suffix_append mark s).isInfix⟩
  rw [closer, pair_isInfix_append] at h
  rcases h with h | h | ⟨h, -⟩
  · exact absurd h hcloser
  · exact h
  · exact absurd h hlast

/-- Such a text adds no closer behind another one. -/
lemma Inert.behind_iff (h : Inert mark) : closer <:+: t ++ mark ↔ closer <:+: t := by
  obtain ⟨-, hcloser, hhead, -⟩ := h
  refine ⟨fun h => ?_, fun h => h.trans (List.prefix_append t mark).isInfix⟩
  rw [closer, pair_isInfix_append] at h
  rcases h with h | h | ⟨-, h⟩
  · exact h
  · exact absurd h hcloser
  · exact absurd h hhead

/-- **Between two texts** such a text keeps their ends from making a closer. -/
lemma Inert.between_iff (h : Inert mark) : closer <:+: t ++ (mark ++ s) ↔ closer <:+: t ∨ closer <:+: s := by
  have hhead : (mark ++ s).head? ≠ some '/' := by
    rw [List.head?_append_of_ne_nil _ h.1]
    exact h.2.2.1
  have hseam : ¬(t.getLast? = some '*' ∧ (mark ++ s).head? = some '/') := fun h => hhead h.2
  rw [closer, pair_isInfix_append, ← closer, h.in_front_iff, or_iff_left hseam]

end Inert

end Comment

/-! ## Summaries -/

namespace Summary

/-- The small letter of a character is no part of a closer and ends no line, unless it is the
character itself. -/
lemma lowerOf_cases (c : Char) : lowerOf c = c ∨ lowerOf c ≠ '*' ∧ lowerOf c ≠ '/' ∧ lowerOf c ≠ '\n' := by
  rw [lowerOf]
  split
  · rename_i hascii
    have htable : ∀ n < 128, (Char.ofNat n).toLower = Char.ofNat n ∨
        (Char.ofNat n).toLower ≠ '*' ∧ (Char.ofNat n).toLower ≠ '/' ∧ (Char.ofNat n).toLower ≠ '\n' := by decide +kernel
    simpa only [Char.ofNat_toNat] using htable c.toNat hascii
  · split
    · rename_i r hrow
      right
      have htarget : ∀ r ∈ capitalRows, '/'.toNat < r.target := by decide +kernel
      have hlarge := htarget r (List.mem_of_find?_eq_some hrow)
      -- a number beyond that of the slash is that of another character, or of none
      have hother : ∀ n, '/'.toNat < n → Char.ofNat n ≠ '*' ∧ Char.ofNat n ≠ '/' ∧ Char.ofNat n ≠ '\n' := by
        intro n hn
        by_cases hvalid : n.isValidChar
        · have hchar : Char.ofNat n = Char.ofNatAux n hvalid := dif_pos hvalid
          have hnumber : (Char.ofNat n).toNat = n := congrArg Char.toNat hchar
          refine ⟨?_, ?_, ?_⟩ <;> intro h <;> rw [h] at hnumber <;> revert hn <;> rw [← hnumber] <;> decide
        · have hchar : Char.ofNat n = '\x00' := dif_neg hvalid
          rw [hchar]
          decide
      exact hother _ (by omega)
    · exact .inl rfl

/-- What a character becomes in lower case: it stays as it is, or it becomes characters that are no
part of a closer and end no line. -/
lemma exists_lowerFrom_cons (before : Text) (c : Char) (t : Text) :
    ∃ lower, lowerFrom before (c :: t) = lower ++ lowerFrom (c :: before) t ∧
      (lower = [c] ∨ lower ≠ [] ∧ '*' ∉ lower ∧ '/' ∉ lower ∧ '\n' ∉ lower) := by
  refine ⟨_, rfl, ?_⟩
  split
  · right
    split <;> decide
  · split
    · right
      decide
    · rcases lowerOf_cases c with h | ⟨hstar, hslash, hfeed⟩
      · exact .inl (by rw [h])
      · exact .inr ⟨by simp, by simpa using hstar.symm, by simpa using hslash.symm, by simpa using hfeed.symm⟩

/-- A text in lower case starts with a slash only if the text does. -/
lemma head?_lowerFrom {before t : Text} (h : (lowerFrom before t).head? = some '/') : t.head? = some '/' := by
  cases t with
  | nil => exact h
  | cons c t =>
    obtain ⟨lower, hlower, rfl | ⟨hne, -, hslash, -⟩⟩ := exists_lowerFrom_cons before c t
    · rw [hlower] at h
      exact h
    · rw [hlower, List.head?_append_of_ne_nil _ hne] at h
      exact absurd (List.mem_of_head? h) hslash

/-- **Lower case makes no closer.** -/
lemma closer_isInfix_lowerFrom {before t : Text} (h : closer <:+: lowerFrom before t) : closer <:+: t := by
  induction t generalizing before with
  | nil => exact h
  | cons c t ih =>
    obtain ⟨lower, hlower, hshape⟩ := exists_lowerFrom_cons before c t
    rw [hlower, closer, pair_isInfix_append] at h
    rw [closer, pair_isInfix_cons]
    rcases hshape with rfl | ⟨-, hstar, -⟩
    · rcases h with h | h | ⟨hc, hslash⟩
      · exact absurd h not_pair_isInfix_singleton
      · exact .inr (ih h)
      · exact .inl ⟨by simpa using hc, head?_lowerFrom hslash⟩
    · rcases h with h | h | ⟨h, -⟩
      · exact absurd (h.subset (by decide)) hstar
      · exact .inr (ih h)
      · exact absurd (List.mem_of_getLast? h) hstar

/-- Words with blanks in between hold a closer only if one of them does. -/
lemma closer_isInfix_intercalate {ws : List Text} (h : closer <:+: [' '].intercalate ws) :
    ∃ w ∈ ws, closer <:+: w := by
  have hblank : Inert [' '] := by decide
  cases ws with
  | nil => exact absurd h (by decide)
  | cons w ws =>
    rw [CodeUnit.intercalate_cons] at h
    induction ws generalizing w with
    | nil => exact ⟨w, by simp, by simpa using h⟩
    | cons v ws ih =>
      rw [List.flatMap_cons, List.append_assoc, hblank.between_iff] at h
      rcases h with h | h
      · exact ⟨w, by simp, h⟩
      · obtain ⟨x, hx, hcloser⟩ := ih v h
        exact ⟨x, List.mem_cons_of_mem _ hx, hcloser⟩

/-- What a unit does holds a closer only if one of the words does. -/
lemma closer_isInfix_predicate {first : Text} {rest : List Text} (h : closer <:+: predicate first rest) :
    ∃ w ∈ first :: rest, closer <:+: w := by
  have hverbs : ∀ x ∈ verbs, Inert (x.2 ++ [' ']) ∧ ¬ closer <:+: x.2 := by decide
  have hperforms : Inert "performs ".toList := by decide
  have hrest : ∀ front : Text, Inert front → closer <:+: front ++ [' '].intercalate rest →
      ∃ w ∈ first :: rest, closer <:+: w := by
    intro front hfront hin
    obtain ⟨w, hw, hcloser⟩ := closer_isInfix_intercalate (hfront.in_front_iff.mp hin)
    exact ⟨w, List.mem_cons_of_mem _ hw, hcloser⟩
  cases hlookup : verbs.lookup first with
  | some verb =>
    obtain ⟨front, back, htable, -⟩ := List.lookup_eq_some_iff.mp hlookup
    obtain ⟨hspaced, halone⟩ := hverbs (first, verb) (by rw [htable]; simp)
    cases rest with
    | nil =>
      simp only [predicate, hlookup] at h
      exact absurd h halone
    | cons second rest =>
      simp only [predicate, hlookup] at h
      exact hrest _ hspaced h
  | none =>
    cases rest with
    | nil =>
      simp only [predicate, hlookup] at h
      exact ⟨first, by simp, hperforms.in_front_iff.mp h⟩
    | cons second rest =>
      simp only [predicate, hlookup] at h
      exact hrest _ hperforms h

/-- No character becomes, as a capital, one that is no capital, unless it is that one. -/
lemma eq_of_toUpper_eq {c x : Char} (hx : x.isUpper = false) (h : c.toUpper = x) : c = x := by
  delta Char.toUpper at h
  split at h
  · rename_i hsmall
    have hlow : 97 ≤ c.val.toNat := UInt32.le_iff_toNat_le.mp hsmall.1
    have hhigh : c.val.toNat ≤ 122 := UInt32.le_iff_toNat_le.mp hsmall.2
    have hnumber : x.val.toNat = c.val.toNat - 32 := by
      have hshift : ('A'.val - 'a'.val).toNat = 2 ^ 32 - 32 := by decide
      rw [← h, UInt32.toNat_add]
      omega
    have hcapital : x.isUpper = true := by
      have hA : 'A'.val.toNat = 65 := rfl
      have hZ : 'Z'.val.toNat = 90 := rfl
      exact decide_eq_true ⟨UInt32.le_iff_toNat_le.mpr (by omega), UInt32.le_iff_toNat_le.mpr (by omega)⟩
    rw [hx] at hcapital
    cases hcapital
  · exact h

/-- A capital at the start makes no closer. -/
lemma closer_isInfix_capitalize {t : Text} (h : closer <:+: capitalize t) : closer <:+: t := by
  cases t with
  | nil => exact h
  | cons c t =>
    rw [capitalize, closer, pair_isInfix_cons] at h
    rw [closer, pair_isInfix_cons]
    exact h.imp_left (And.imp_left (eq_of_toUpper_eq (by decide)))

/-- The words of a name hold a closer only if the name does. -/
lemma closer_isInfix_words {name w : Text} (hw : w ∈ words name) (h : closer <:+: w) : closer <:+: name := by
  rw [words_eq_map_segments] at hw
  obtain ⟨part, hpart, rfl⟩ := List.mem_map.mp hw
  have hsplit : part ∈ name.splitBy (joined isSeparator isBoundary) := List.mem_of_mem_filter hpart
  have hname : part <:+: name := by
    have := List.infix_of_mem_flatten hsplit
    rwa [List.flatten_splitBy] at this
  exact (closer_isInfix_lowerFrom h).trans hname

end Summary

namespace CodeUnit

/-- **A summary** holds a closer only if the name of the unit does. -/
lemma closer_isInfix_summarize {u : CodeUnit} (h : closer <:+: u.summarize) : closer <:+: u.name := by
  rw [summarize] at h
  split at h
  · exact absurd h (by decide)
  · rename_i first rest hwords
    have hasync : Inert "Asynchronously ".toList := by decide
    have hsentence : closer <:+: Summary.predicate first rest := by
      split at h
      · exact hasync.in_front_iff.mp h
      · exact Summary.closer_isInfix_capitalize h
    obtain ⟨w, hw, hcloser⟩ := Summary.closer_isInfix_predicate hsentence
    exact Summary.closer_isInfix_words (hwords ▸ hw) hcloser

end CodeUnit

/-! ## Lines -/

/-- The texts of the source that are shown about a parameter. -/
def Parameter.shown (p : Parameter) : List Text := p.name :: (p.type.toList ++ p.default.toList)

/-- **The line about a parameter** holds a closer exactly if a text does that it shows. -/
lemma Parameter.closer_isInfix_line_iff (p : Parameter) : closer <:+: p.line ↔ ∃ t ∈ p.shown, closer <:+: t := by
  have hremark : ¬ closer <:+: p.remark := by
    rw [remark]
    split <;> decide
  have hopen : Inert " * @param ".toList := by decide
  have hbrace : Inert ['\x7b'] := by decide
  have hbrace' : Inert ['\x7d', ' '] := by decide
  have hbracket : Inert ['['] := by decide
  have hequals : Inert ['='] := by decide
  have hbracket' : Inert [']'] := by decide
  have hdash : Inert " - ".toList := by decide
  obtain ⟨name, type, default⟩ := p
  unfold line
  cases type <;> cases default <;>
    simp only [shown, List.append_assoc, List.nil_append, hopen.in_front_iff, hbrace.in_front_iff,
      hbracket.in_front_iff, hbrace'.between_iff, hequals.between_iff, hbracket'.between_iff, hdash.between_iff,
      hdash.in_front_iff, hremark] <;>
    simp [or_left_comm, or_comm]

namespace CodeUnit

/-- The texts that the block of a unit shows: the summary, and what it takes from the source. -/
def shown (u : CodeUnit) : List Text :=
  u.opening :: (u.parameters.flatMap Parameter.shown ++ u.returnType.toList)

/-- **The lines of a block** hold a closer only where a text does that they show. -/
lemma showsNoCloser_iff (u : CodeUnit) : u.ShowsNoCloser ↔ ∀ t ∈ u.shown, ¬ closer <:+: t := by
  have hstar : Inert " * ".toList := by decide
  have hreturns : Inert " * @returns \x7b".toList := by decide
  have hbrace : Inert ['\x7d'] := by decide
  have hfixed : ¬ closer <:+: docOpener ∧ ¬ closer <:+: " * @async".toList := by decide
  have hasync : ∀ line ∈ if u.isAsync then [" * @async".toList] else [], ¬ closer <:+: line := by
    split <;> decide
  have hparameters : (∀ line ∈ u.parameters.map Parameter.line, ¬ closer <:+: line) ↔
      ∀ t ∈ u.parameters.flatMap Parameter.shown, ¬ closer <:+: t := by
    rw [List.forall_mem_map, List.forall_mem_flatMap]
    refine forall₂_congr fun p _ => ?_
    rw [p.closer_isInfix_line_iff]
    simp only [not_exists, not_and]
  have hresult : (∀ line ∈ (u.returnType.map fun t => " * @returns \x7b".toList ++ t ++ ['\x7d']).toList,
      ¬ closer <:+: line) ↔ ∀ t ∈ u.returnType.toList, ¬ closer <:+: t := by
    cases u.returnType with
    | none => simp
    | some t => simp only [Option.map_some, Option.toList_some, List.forall_mem_singleton, List.append_assoc,
        hreturns.in_front_iff, hbrace.behind_iff]
  rw [ShowsNoCloser, blockLines_eq, ← List.cons_append, List.dropLast_concat, middleLines, shown]
  simp only [List.forall_mem_cons, List.forall_mem_append, hparameters, hresult, hstar.in_front_iff]
  tauto

/-- The block of a unit is a single comment behind its indentation exactly if none of its lines
shows a closer. -/
lemma isSingle_block_iff {u : CodeUnit} {indent : Text} (hindent : IsIndent indent) :
    (∃ b, u.block indent = indent ++ b ∧ IsSingle b) ↔ u.ShowsNoCloser := by
  rw [block_eq_inside]
  constructor
  · rintro ⟨b, hblock, hsingle⟩ line hline hcloser
    obtain rfl := List.append_cancel_left hblock
    rw [blockLines_eq, ← List.cons_append, List.dropLast_concat] at hline
    have hinside : ¬ closer <:+: '*' :: (u.inside indent ++ ['*']) := by
      rcases isSingle_iff.mp hsingle with h | ⟨inner, h, hinner⟩
      · have hlength := congrArg List.length h
        simp [docOpener, opener, closer] at hlength
      · obtain rfl : u.inside indent = inner := by simpa using h
        exact hinner
    rcases List.mem_cons.mp hline with rfl | hline
    · exact absurd hcloser (by decide)
    · have hshown : line <:+: u.inside indent := by
        have hmem : ['\n'] ++ indent ++ line ∈ u.middleLines.map (['\n'] ++ indent ++ ·) := List.mem_map_of_mem hline
        have hlines := List.infix_of_mem_flatten hmem
        rw [← List.flatMap_def] at hlines
        exact ((List.suffix_append _ line).isInfix.trans hlines).trans (List.prefix_append _ _).isInfix
      exact hinside ((hcloser.trans hshown).trans ⟨['*'], ['*'], by simp⟩)
  · intro hshown
    have hinside := not_closer_isInfix_inside hshown (star_not_mem_indent hindent)
    exact ⟨_, rfl, isSingle_iff.mpr (.inr ⟨_, rfl, hinside⟩)⟩

/-- **The block of a unit** is its indentation and a single documentation comment exactly if none of
the texts that it shows holds a closer: the summary, the names, types and defaults of the
parameters, and the result type. Nothing of the block itself makes a closer, and neither do the ends
of these texts together with what is around them. The summary that is made for a unit holds a closer
only if the name of the unit does.

**Proof sketch.** A block is its inside between the marks of a documentation comment
(`block_eq_inside`). The inside ends before the first closer exactly if no line holds one, and a
line holds one exactly if a text does that it shows (`Comment.Inert.between_iff`). Lower case makes
no closer of something else (`Summary.closer_isInfix_lowerFrom`), nor do the blanks between
words. -/
theorem block_isSingle_iff (u : CodeUnit) {indent : Text} (hindent : IsIndent indent) :
    ((∃ b, u.block indent = indent ++ b ∧ IsSingle b) ↔ ∀ t ∈ u.shown, ¬ closer <:+: t) ∧
      (u.summary = u.summarize → closer <:+: u.opening → closer <:+: u.name) := by
  refine ⟨by rw [isSingle_block_iff hindent, showsNoCloser_iff], fun hsummary h => ?_⟩
  rw [opening, hsummary] at h
  split at h
  · exact absurd h (by decide)
  · exact closer_isInfix_summarize h

/-- The block of a unit with a parameter whose default holds an opener. -/
theorem block_isSingle_opener :
    IsIndent ['\t'] ∧ ∃ b, IsSingle b ∧
      block ⟨"load".toList, .function, [⟨"glob".toList, some "string".toList, some "'src/*.ts'".toList⟩],
        some "Promise<void>".toList, ⟨0, 0⟩, true, [], "Asynchronously performs load".toList⟩ ['\t'] = ['\t'] ++ b := by
  have hindent : IsIndent ['\t'] := by simp [IsIndent]
  obtain ⟨b, hblock, hsingle⟩ := (block_isSingle_iff ⟨"load".toList, .function,
    [⟨"glob".toList, some "string".toList, some "'src/*.ts'".toList⟩], some "Promise<void>".toList, ⟨0, 0⟩, true, [],
    "Asynchronously performs load".toList⟩ hindent).1.mpr (by decide)
  exact ⟨hindent, b, hsingle, hblock⟩

/-- A default that holds a closer ends the comment, and the source with this comment is refused. -/
theorem block_isSingle_default :
    (extract .javaScript "function f(a = \"*/\") {}\n".toList).map (List.map fun u =>
      CodeUnit.block { u with summary := u.summarize } []) =
        .ok ["/**\n * Performs f\n * @param [a=\"*/\"] - TODO: describe.\n */".toList] ∧
      ¬ (∃ b, "/**\n * Performs f\n * @param [a=\"*/\"] - TODO: describe.\n */".toList = [] ++ b ∧ IsSingle b) ∧
      extract .javaScript
        "/**\n * Performs f\n * @param [a=\"*/\"] - TODO: describe.\n */\nfunction f(a = \"*/\") {}\n".toList =
          .error ⟨3, .javaScript⟩ := by
  refine ⟨by decide +kernel, ?_, by decide +kernel⟩
  rintro ⟨b, hb, hsingle⟩
  obtain rfl : _ = b := hb
  exact absurd hsingle (by decide)

end CodeUnit

end DocBlocks
