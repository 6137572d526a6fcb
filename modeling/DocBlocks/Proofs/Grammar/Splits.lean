import DocBlocks.Grammar.Statement
import DocBlocks.Grammar.Markup
import DocBlocks.Comment.Preceding
import DocBlocks.Proofs.Text.Occurrence

/-!
# Recognisers split their text

A recogniser answers with a lexeme and the rest of the text. Lexeme and rest are always the text
itself, cut in two: no recogniser drops, adds or changes a character. For comments more is known:
one with the mark of a block comment ends with a closer.

## Main definitions

* `Splits`: the recognisers that cut their text in two.
* `ClosesBlock`: the texts that end with a closer if they start with an opener.

## Main results

* `comment?_eq_some`: what the recogniser of comments answers.
* `splits_name?`, `splits_number?`, …: the other recognisers of the grammar.
-/

namespace DocBlocks.Grammar

open Text

/-- The recognisers that only ever cut their text in two. -/
class Splits (r : Text → Option (Text × Text)) : Prop where
  append : ∀ t lexeme rest, r t = some (lexeme, rest) → t = lexeme ++ rest

/-! ## Spellings and runs -/

/-- The longest prefix of characters in a class, and the rest. -/
instance splits_takeSome (p : Char → Bool) : Splits (takeSome p) := by
  refine ⟨fun t lexeme rest h => ?_⟩
  rw [takeSome] at h
  split at h
  · cases h
  · obtain ⟨rfl, rfl⟩ : t.takeWhile p = lexeme ∧ t.dropWhile p = rest := by simpa using h
    exact List.takeWhile_append_dropWhile.symm

/-- A spelling, and the rest. -/
instance splits_spelled (s : Text) : Splits (spelled s) := by
  refine ⟨fun t lexeme rest h => ?_⟩
  rw [spelled, Option.ite_none_right_eq_some, List.isPrefixOf_iff_prefix] at h
  obtain ⟨⟨u, rfl⟩, h⟩ := h
  obtain ⟨rfl, rfl⟩ : s = lexeme ∧ u = rest := by simpa using h
  rfl

instance splits_spelledAlone (s notBefore : Text) : Splits (spelledAlone s notBefore) := by
  refine ⟨fun t lexeme rest h => ?_⟩
  rw [spelledAlone, Option.ite_none_right_eq_some, List.isPrefixOf_iff_prefix] at h
  obtain ⟨⟨⟨u, rfl⟩, -⟩, h⟩ := h
  obtain ⟨rfl, rfl⟩ : s = lexeme ∧ u = rest := by simpa using h
  rfl

/-- No text, whatever comes. -/
instance splits_none : Splits fun _ => none := ⟨by rintro t lexeme rest ⟨⟩⟩

/-! ## Comments -/

/-- What follows a closer. -/
lemma afterCommentEnd?_eq_some {t rest : Text} (h : afterCommentEnd? t = some rest) :
    ∃ inner, t = inner ++ Comment.closer ++ rest := by
  induction t using afterCommentEnd?.induct with
  | case1 t =>
    obtain rfl : t = rest := by simpa [afterCommentEnd?] using h
    exact ⟨[], rfl⟩
  | case2 c t hc ih =>
    rw [afterCommentEnd?] at h
    · obtain ⟨inner, rfl⟩ := ih h
      exact ⟨c :: inner, rfl⟩
    · exact hc
  | case3 => simp [afterCommentEnd?] at h

/-- Whether a text that starts with the mark of a block comment is closed. -/
def ClosesBlock (w : Text) : Prop := Comment.opener <+: w → Comment.closer <:+ w

/-- **A comment**, and the rest. One with the mark of a block comment ends with a closer. -/
lemma comment?_eq_some {t lexeme rest : Text} (h : comment? t = some (lexeme, rest)) :
    t = lexeme ++ rest ∧ ClosesBlock lexeme := by
  rw [comment?.eq_def] at h
  split at h
  · rename_i t
    obtain ⟨rfl, rfl⟩ : '/' :: '/' :: t.takeWhile (fun c => !endsLine c) = lexeme ∧
        t.dropWhile (fun c => !endsLine c) = rest := by simpa using h
    refine ⟨by simp, fun hopen => ?_⟩
    simp [Comment.opener] at hopen
  · rename_i t
    obtain ⟨rest', hrest, he⟩ := Option.map_eq_some_iff.mp h
    obtain ⟨inner, rfl⟩ := afterCommentEnd?_eq_some hrest
    obtain ⟨rfl, rfl⟩ : '/' :: '*' :: (inner ++ Comment.closer ++ rest').take
        ((inner ++ Comment.closer ++ rest').length - rest'.length) = lexeme ∧ rest' = rest := by simpa using he
    have htake : (inner ++ Comment.closer ++ rest').take
        ((inner ++ Comment.closer ++ rest').length - rest'.length) = inner ++ Comment.closer := by
      rw [List.take_left']
      simp
      omega
    rw [htake]
    exact ⟨rfl, fun _ => ⟨'/' :: '*' :: inner, rfl⟩⟩
  · cases h

instance splits_comment? : Splits comment? := ⟨fun _ _ _ h => (comment?_eq_some h).1⟩

instance splits_htmlComment? : Splits htmlComment? := by
  refine ⟨fun t lexeme rest h => ?_⟩
  rw [htmlComment?, Option.ite_none_right_eq_some] at h
  obtain ⟨-, h⟩ := h
  obtain ⟨rfl, rfl⟩ := Prod.mk.inj (Option.some.inj h)
  exact List.takeWhile_append_dropWhile.symm

/-- A comment that web pages put around scripts does not start with the mark of a block comment. -/
lemma closesBlock_of_htmlComment? {t lexeme rest : Text} (h : htmlComment? t = some (lexeme, rest)) :
    ClosesBlock lexeme := by
  intro hopen
  have ht := Splits.append t lexeme rest h
  rw [htmlComment?, Option.ite_none_right_eq_some] at h
  obtain ⟨u, rfl⟩ := hopen
  rw [ht] at h
  simp [Comment.opener] at h

instance splits_hashBang? : Splits hashBang? := by
  refine ⟨fun t lexeme rest h => ?_⟩
  rw [hashBang?.eq_def] at h
  split at h
  · obtain ⟨rfl, rfl⟩ := Prod.mk.inj (Option.some.inj h)
    simp
  · cases h

/-! ## Names -/

instance splits_unicodeEscape? : Splits unicodeEscape? := by
  refine ⟨fun t lexeme rest h => ?_⟩
  rw [unicodeEscape?.eq_def] at h
  split at h
  · split at h
    · rename_i hd
      have hd := Splits.append _ _ _ hd
      obtain ⟨rfl, rfl⟩ := Prod.mk.inj (Option.some.inj h)
      rw [hd]
      simp
    · cases h
  · simp only [Option.ite_none_right_eq_some] at h
    obtain ⟨rfl, rfl⟩ := Prod.mk.inj (Option.some.inj h.2)
    simp
  · cases h

lemma nameParts_append (n : Nat) (t : Text) : t = (nameParts n t).1 ++ (nameParts n t).2 := by
  induction n generalizing t with
  | zero => rfl
  | succ n ih =>
    rw [nameParts]
    split
    · rename_i run rest h
      rw [Splits.append _ _ _ h]
      conv_lhs => rw [ih rest]
      simp
    · split
      · rename_i run rest h
        rw [Splits.append _ _ _ h]
        conv_lhs => rw [ih rest]
        simp
      · rfl

instance splits_name? : Splits name? := by
  refine ⟨fun t lexeme rest h => ?_⟩
  rw [name?.eq_def] at h
  split at h
  · cases h
  · rename_i c u
    rw [Option.ite_none_right_eq_some] at h
    have := nameParts_append (c :: u).length (c :: u)
    rw [Option.some.inj h.2] at this
    exact this

instance splits_privateName? : Splits privateName? := by
  refine ⟨fun t lexeme rest h => ?_⟩
  rw [privateName?.eq_def] at h
  split at h
  · obtain ⟨⟨a, b⟩, hn, he⟩ := Option.map_eq_some_iff.mp h
    obtain ⟨rfl, rfl⟩ := Prod.mk.inj he
    rw [Splits.append _ _ _ hn]
    rfl
  · cases h

instance splits_nameExcept? (words : List String) : Splits (nameExcept? words) := by
  refine ⟨fun t lexeme rest h => ?_⟩
  rw [nameExcept?] at h
  split at h
  · rename_i hn
    split at h
    · cases h
    · obtain ⟨rfl, rfl⟩ := Prod.mk.inj (Option.some.inj h)
      exact Splits.append _ _ _ hn
  · cases h

instance splits_word? (w : Text) : Splits (word? w) := by
  refine ⟨fun t lexeme rest h => ?_⟩
  rw [word?] at h
  split at h
  · rename_i hn
    rw [Option.ite_none_right_eq_some] at h
    obtain ⟨rfl, rfl⟩ := Prod.mk.inj (Option.some.inj h.2)
    exact Splits.append _ _ _ hn
  · cases h

instance splits_hyphenName? : Splits hyphenName? := by
  refine ⟨fun t lexeme rest h => ?_⟩
  rw [hyphenName?] at h
  split at h
  · cases h
  · rename_i c first hfirst
    split at h
    · cases h
    · split at h
      · rename_i u hu
        obtain ⟨rfl, rfl⟩ := Prod.mk.inj (Option.some.inj h)
        have ht := List.takeWhile_append_dropWhile (p := fun c : Char => c.isAlphanum || c = '_' || c = '$') (l := t)
        rw [hfirst, hu] at ht
        simp [← ht]
      · cases h

/-- A word is recognised as it is spelled. -/
lemma lexeme_of_word? {w t lexeme rest : Text} (h : word? w t = some (lexeme, rest)) : lexeme = w := by
  rw [word?] at h
  split at h
  · rw [Option.ite_none_right_eq_some] at h
    obtain ⟨rfl, -⟩ := Prod.mk.inj (Option.some.inj h.2)
    exact h.1
  · cases h

instance splits_staticGet? : Splits staticGet? := by
  refine ⟨fun t lexeme rest h => ?_⟩
  rw [staticGet?] at h
  split at h
  · rename_i static u hstatic
    obtain rfl := lexeme_of_word? hstatic
    rw [Splits.append _ _ _ hstatic]
    split at h
    · rename_i get behind hget
      obtain rfl := lexeme_of_word? hget
      have hu := List.takeWhile_append_dropWhile (p := isAsciiBlank) (l := u)
      rw [Splits.append _ _ _ hget] at hu
      -- the blanks up to the last line break start what follows
      have hbreak : ((behind.takeWhile isAsciiBlank).reverse.dropWhile (· ≠ '\n')).reverse <+: behind := by
        refine List.IsPrefix.trans ?_ (List.takeWhile_prefix isAsciiBlank)
        rw [← List.reverse_suffix, List.reverse_reverse]
        exact List.dropWhile_suffix _
      simp only at h
      split at h
      · cases h
      · obtain ⟨rfl, rfl⟩ := Prod.mk.inj (Option.some.inj h)
        simp only [List.append_assoc, List.prefix_iff_eq_append.mp hbreak, hu]
    · cases h
  · cases h

/-! ## Numbers -/

instance splits_digitGroups (digit : Char → Bool) (n : Nat) : Splits (digitGroups digit n) := by
  induction n with
  | zero => exact splits_none
  | succ n ih =>
    refine ⟨fun t lexeme rest h => ?_⟩
    rw [digitGroups] at h
    split at h
    · rename_i run u hrun
      have hrun := Splits.append _ _ _ hrun
      split at h
      · rename_i more u' hmore
        obtain ⟨rfl, rfl⟩ := Prod.mk.inj (Option.some.inj h)
        rw [hrun, ih.append _ _ _ hmore]
        simp
      · obtain ⟨rfl, rfl⟩ := Prod.mk.inj (Option.some.inj h)
        exact hrun
    · exact Splits.append _ _ _ h

instance splits_digits (digit : Char → Bool) : Splits (digits digit) :=
  ⟨fun t => (splits_digitGroups digit t.length).append t⟩

/-- What is recognised behind a fixed front, and the rest. -/
lemma splits_map {r : Recogniser} [Splits r] (front : Text) {t lexeme rest : Text}
    (h : (r t).map (fun (ds, rest) => (front ++ ds, rest)) = some (lexeme, rest)) : front ++ t = lexeme ++ rest := by
  obtain ⟨⟨a, b⟩, hn, he⟩ := Option.map_eq_some_iff.mp h
  obtain ⟨rfl, rfl⟩ := Prod.mk.inj he
  rw [Splits.append _ _ _ hn, List.append_assoc]

instance splits_exponent? : Splits exponent? := by
  refine ⟨fun t lexeme rest h => ?_⟩
  rw [exponent?.eq_def] at h
  split at h
  · rename_i e t
    rw [Option.ite_none_right_eq_some] at h
    obtain ⟨-, h⟩ := h
    split at h
    · rename_i sign r
      split at h
      · exact splits_map [e, sign] h
      · exact splits_map [e] h
    · cases h
  · cases h

/-- An optional lexeme and the rest. -/
lemma optional_append (r : Recogniser) [Splits r] (t : Text) :
    ∃ lexeme rest, optional r t = (lexeme, rest) ∧ t = lexeme ++ rest := by
  rw [optional]
  cases h : r t with
  | none => exact ⟨[], t, rfl, rfl⟩
  | some found => exact ⟨found.1, found.2, rfl, Splits.append t found.1 found.2 h⟩

instance splits_basedNumber? (mark : List Char) (digit : Char → Bool) : Splits (basedNumber? mark digit) := by
  refine ⟨fun t lexeme rest h => ?_⟩
  rw [basedNumber?.eq_def] at h
  split at h
  · rw [Option.ite_none_right_eq_some] at h
    obtain ⟨-, h⟩ := h
    split at h
    · rename_i hd
      rw [Splits.append _ _ _ hd]
      obtain ⟨rfl, rfl⟩ := Prod.mk.inj (Option.some.inj h)
      simp
    · rename_i hd
      rw [Splits.append _ _ _ hd]
      obtain ⟨rfl, rfl⟩ := Prod.mk.inj (Option.some.inj h)
      simp
    · cases h
  · cases h

instance splits_decimal? : Splits decimal? := by
  refine ⟨fun t lexeme rest h => ?_⟩
  rw [decimal?.eq_def] at h
  split at h
  · rename_i r
    obtain ⟨⟨ds, u⟩, hd, he⟩ := Option.map_eq_some_iff.mp h
    obtain ⟨e, v, hopt, hu⟩ := optional_append exponent? u
    simp only [hopt] at he
    obtain ⟨rfl, rfl⟩ := Prod.mk.inj he
    rw [Splits.append _ _ _ hd, hu]
    simp
  · split at h
    · cases h
    · rename_i ds u hd
      rw [Splits.append _ _ _ hd]
      split at h
      · obtain ⟨rfl, rfl⟩ := Prod.mk.inj (Option.some.inj h)
        simp
      · rename_i r
        split at h
        · obtain ⟨fraction, v, hopt, hr⟩ := optional_append (digits Char.isDigit) r
          obtain ⟨e, w, hopt', hv⟩ := optional_append exponent? v
          simp only [hopt, hopt'] at h
          obtain ⟨rfl, rfl⟩ := Prod.mk.inj (Option.some.inj h)
          rw [hr, hv]
          simp
        · obtain ⟨rfl, rfl⟩ := Prod.mk.inj (Option.some.inj h)
          rfl
      · split at h
        · obtain ⟨e, w, hopt, hu⟩ := optional_append exponent? u
          simp only [hopt] at h
          obtain ⟨rfl, rfl⟩ := Prod.mk.inj (Option.some.inj h)
          rw [hu]
          simp
        · obtain ⟨rfl, rfl⟩ := Prod.mk.inj (Option.some.inj h)
          rfl

instance splits_number? : Splits number? := by
  refine ⟨fun t lexeme rest h => ?_⟩
  rw [number?] at h
  split at h
  · rename_i found hf
    obtain rfl := Option.some.inj h
    exact Splits.append _ _ _ hf
  · split at h
    · rename_i found hf
      obtain rfl := Option.some.inj h
      exact Splits.append _ _ _ hf
    · split at h
      · rename_i found hf
        obtain rfl := Option.some.inj h
        exact Splits.append _ _ _ hf
      · exact Splits.append _ _ _ h

/-! ## Escapes, patterns and text -/

instance splits_escape? : Splits escape? := by
  refine ⟨fun t lexeme rest h => ?_⟩
  rw [escape?.eq_def] at h
  split at h
  · rw [Option.ite_none_right_eq_some] at h
    obtain ⟨rfl, rfl⟩ := Prod.mk.inj (Option.some.inj h.2)
    simp
  · exact Splits.append _ _ _ h
  · rename_i c t _ _
    split at h
    · obtain ⟨rfl, rfl⟩ := Prod.mk.inj (Option.some.inj h)
      have hpre : ((c :: t).take 3).takeWhile (fun c => '0' ≤ c && c ≤ '7') <+: c :: t :=
        (List.takeWhile_prefix _).trans (List.take_prefix 3 (c :: t))
      rw [List.cons_append, List.cons.injEq]
      exact ⟨rfl, by simpa using (List.prefix_iff_eq_append.mp hpre).symm⟩
    · split at h
      · split at h
        · obtain ⟨rfl, rfl⟩ := Prod.mk.inj (Option.some.inj h)
          rfl
        · obtain ⟨rfl, rfl⟩ := Prod.mk.inj (Option.some.inj h)
          rfl
      · obtain ⟨rfl, rfl⟩ := Prod.mk.inj (Option.some.inj h)
        rfl
  · cases h

/-- What follows a pattern is an end of the text, if the bracket still to be closed starts one. -/
lemma behindPattern_suffix {opened : Option Text} {t whole : Text} (ht : t <:+ whole)
    (ho : ∀ u ∈ opened, u <:+ whole) : behindPattern opened t <:+ whole := by
  have here {u : Text} (hu : u <:+ whole) : opened.getD u <:+ whole := by
    cases opened with
    | none => exact hu
    | some v => exact ho v rfl
  have tail {c : Char} {t : Text} (h : c :: t <:+ whole) : t <:+ whole := (List.suffix_cons c t).trans h
  induction opened, t using behindPattern.induct with
  | case1 opened t =>
    rw [behindPattern, if_pos rfl]
    exact here ht
  | case2 opened c t hc ih =>
    rw [behindPattern, if_neg hc]
    exact ih (tail (tail ht)) ho here
  | case3 opened => exact here ht
  | case4 opened t => exact here ht
  | case5 opened t ih =>
    refine ih (tail ht) (fun u hu => ?_) fun _ => here ht
    obtain rfl := Option.mem_some.mp hu
    exact here ht
  | case6 opened t ih => exact ih (tail ht) (fun u hu => by cases hu) id
  | case7 opened t hopen ih =>
    rw [behindPattern, if_pos hopen]
    exact ih (tail ht) ho here
  | case8 opened t hclosed =>
    rw [behindPattern, if_neg hclosed]
    exact ht
  | case9 opened c t h1 h2 h3 h4 h5 h6 ih =>
    rw [behindPattern.eq_7 opened c t h1 h2 h3 h4 h5 h6]
    exact ih (tail ht) ho here
  | case10 opened => exact here ht

instance splits_regexPattern? : Splits regexPattern? := by
  refine ⟨fun t lexeme rest h => ?_⟩
  have hbehind : behindPattern none t <:+ t := behindPattern_suffix (List.suffix_refl t) fun u hu => by cases hu
  obtain ⟨pattern, hpattern⟩ := hbehind
  have hlength : t.length = pattern.length + (behindPattern none t).length := by
    rw [← List.length_append, hpattern]
  have htake : t.take (t.length - (behindPattern none t).length) = pattern := by
    rw [hlength, Nat.add_sub_cancel]
    exact (List.prefix_iff_eq_take.mp ⟨_, hpattern⟩).symm
  rw [regexPattern?, htake] at h
  split at h
  · cases h
  · obtain ⟨rfl, rfl⟩ := Prod.mk.inj (Option.some.inj h)
    exact hpattern.symm

/-- The run of a template and the rest. -/
lemma templateRun_append (t : Text) : t = (templateRun t).1 ++ (templateRun t).2 := by
  induction t using templateRun.induct with
  | case1 => rfl
  | case2 t => rfl
  | case3 t => rfl
  | case4 t => rfl
  | case5 c t h1 h2 h3 run rest hrun ih =>
    rw [templateRun.eq_5 c t h1 h2 h3, hrun]
    rw [hrun] at ih
    exact congrArg (c :: ·) ih

instance splits_templateText? : Splits templateText? := by
  refine ⟨fun t lexeme rest h => ?_⟩
  have ht := templateRun_append t
  rw [templateText?] at h
  split at h
  · cases h
  · rw [Option.some.inj h] at ht
    exact ht

instance splits_characterReference? : Splits characterReference? := by
  refine ⟨fun t lexeme rest h => ?_⟩
  rw [characterReference?.eq_def] at h
  split at h
  · rename_i t
    -- digits behind a front, closed by a semicolon
    have closed : ∀ (p : Char → Bool) (u lead : Text) (most : Nat),
        (match u.dropWhile p with
          | ';' :: r =>
            if (u.takeWhile p).isEmpty ∨ most < (u.takeWhile p).length then none
            else some ('&' :: lead ++ u.takeWhile p ++ [';'], r)
          | _ => none) = some (lexeme, rest) → '&' :: lead ++ u = lexeme ++ rest := by
      intro p u lead most h
      split at h
      · rename_i r hr
        split at h
        · cases h
        · obtain ⟨rfl, rfl⟩ := Prod.mk.inj (Option.some.inj h)
          conv_lhs => rw [← List.takeWhile_append_dropWhile (p := p) (l := u), hr]
          simp
      · cases h
    simp only at h
    split at h
    · split at h
      · exact closed isHexDigit _ ['#', _] 6 h
      · exact closed Char.isDigit _ ['#'] 5 h
    · exact closed Char.isAlpha _ [] 30 h
  · cases h

instance splits_markupText? : Splits markupText? := by
  refine ⟨fun t lexeme rest h => ?_⟩
  rw [markupText?, Option.ite_none_right_eq_some] at h
  obtain ⟨rfl, rfl⟩ := Prod.mk.inj (Option.some.inj h.2)
  exact List.takeWhile_append_dropWhile.symm

/-- The run of an attribute and the rest. -/
lemma attributeRun_append (quote : Char) (t : Text) :
    t = (attributeText?.run quote t).1 ++ (attributeText?.run quote t).2 := by
  induction t using attributeText?.run.induct quote with
  | case1 => rfl
  | case2 c r h =>
    rw [attributeText?.run, if_pos h]
    rfl
  | case3 c r h more rest hrun ih =>
    rw [hrun] at ih
    rw [attributeText?.run, if_neg h, hrun]
    exact congrArg ('&' :: c :: ·) ih
  | case4 => rfl
  | case5 r h1 h2 =>
    rw [attributeText?.run.eq_4 quote quote r h1 h2, if_pos rfl]
    rfl
  | case6 c r h1 h2 h3 more rest hrun ih =>
    rw [hrun] at ih
    rw [attributeText?.run.eq_4 quote c r h1 h2, if_neg h3, hrun]
    exact congrArg (c :: ·) ih

instance splits_attributeText? (quote : Char) : Splits (attributeText? quote) := by
  refine ⟨fun t lexeme rest h => ?_⟩
  have ht := attributeRun_append quote t
  rw [attributeText?] at h
  split at h
  · cases h
  · rw [Option.some.inj h] at ht
    exact ht

end DocBlocks.Grammar
