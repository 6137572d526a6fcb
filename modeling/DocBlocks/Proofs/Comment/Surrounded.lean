import DocBlocks.Proofs.Comment.Single
import DocBlocks.Proofs.Text.Cut

/-!
# Comments in the middle of an answer

A generator may put anything around the comment it was asked for: a Markdown fence with the name of
a language, prose, the code itself, further comments. The first documentation comment of the answer
is kept as it is. Neither the white space at the ends nor a fence reaches into the comment, since it
starts and ends with a slash, and no mark in front of it or behind it makes another one together
with its ends.

## Main definitions

* `Comment.Leads`: the first documentation comment of a text.

## Main results

* `Comment.Leads.stripFence`: white space and fences are cut off around the first comment.
* `Comment.firstDoc?_of_leads`: the first comment is found.
* `Comment.sanitize?_surrounded`: what is kept of an answer with and without a comment.
-/

namespace DocBlocks

namespace Text

/-! ## Cutting off the ends -/

/-- Characters that are dropped at the start of a text are none of what starts with a slash. -/
lemma dropWhile_append_slash {p : Char → Bool} (hp : p '/' = false) {b : Text} (hb : b.head? = some '/') (a : Text) :
    (a ++ b).dropWhile p = a.dropWhile p ++ b := by
  induction a with
  | nil =>
    obtain ⟨t, rfl⟩ := List.head?_eq_some_iff.mp hb
    simp [hp]
  | cons c a ih =>
    rw [List.cons_append, List.dropWhile_cons, List.dropWhile_cons]
    split
    · exact ih
    · rfl

/-- A mark without a slash at the start of a text ends in front of what starts with a slash. -/
lemma exists_of_prefix_append_slash {mark rest a b : Text} (hmark : '/' ∉ mark) (hb : b.head? = some '/')
    (h : mark ++ rest = a ++ b) : ∃ m, a = mark ++ m ∧ rest = m ++ b := by
  rcases List.append_eq_append_iff.mp h with ⟨m, ha, hrest⟩ | ⟨m, rfl, rfl⟩
  · exact ⟨m, ha, hrest⟩
  · cases m with
    | nil => exact ⟨[], by simp, by simp⟩
    | cons c m =>
      obtain rfl : c = '/' := by simpa using hb
      exact absurd (by simp) hmark

/-- A mark without a slash at the end of a text starts behind what ends with a slash. -/
lemma exists_of_suffix_slash_append {mark rest a b : Text} (hmark : '/' ∉ mark) (ha : a.getLast? = some '/')
    (h : rest ++ mark = a ++ b) : ∃ m, b = m ++ mark ∧ rest = a ++ m := by
  rcases List.append_eq_append_iff.mp h with ⟨m, rfl, rfl⟩ | ⟨m, hrest, hb⟩
  · rcases List.eq_nil_or_concat' m with rfl | ⟨m, c, rfl⟩
    · exact ⟨[], by simp, by simp⟩
    · obtain rfl : c = '/' := by simpa [← List.append_assoc] using ha
      exact absurd (by simp) hmark
  · exact ⟨m, hb, hrest⟩

/-- The white space at the end of a text is none of what ends with a slash. -/
lemma trimEnd_slash_append {a : Text} (ha : a.getLast? = some '/') (b : Text) : trimEnd (a ++ b) = a ++ trimEnd b := by
  have hreverse : a.reverse.head? = some '/' := by rwa [List.head?_reverse]
  rw [trimEnd, List.reverse_append, dropWhile_append_slash (by decide) hreverse, List.reverse_append,
    List.reverse_reverse, trimEnd]

/-- A text without the white space at its ends is a part of the text. -/
lemma trim_isInfix (t : Text) : trim t <:+: t := by
  have hend : ∀ u : Text, trimEnd u <+: u := by
    intro u
    obtain ⟨w, hw, -⟩ := trimEnd_eq_iff.mp (rfl : trimEnd u = trimEnd u)
    exact ⟨w, hw.symm⟩
  exact (hend _).isInfix.trans (List.dropWhile_suffix isWhite).isInfix

end Text

namespace Comment

open Text

/-! ## The first comment of a text -/

/-- Whether a comment is the first documentation comment of a text: no mark of one stands in front
of it. -/
def Leads (comment t : Text) : Prop := ∃ front back, t = front ++ (comment ++ back) ∧ ¬ docOpener <:+: front

section Leads

variable {comment t : Text} (hopen : comment.head? = some '/') (hclose : comment.getLast? = some '/')

include hopen in
/-- A comment and what follows it start with a slash. -/
lemma head?_append_slash (back : Text) : (comment ++ back).head? = some '/' := by
  rw [List.head?_append, hopen]
  rfl

include hclose in
/-- A comment and what precedes it end with a slash. -/
lemma getLast?_append_slash (front : Text) : (front ++ comment).getLast? = some '/' := by
  rw [List.getLast?_append, hclose]
  rfl

include hopen in
/-- Characters other than a slash can be dropped at the start. -/
lemma Leads.dropWhile (h : Leads comment t) {p : Char → Bool} (hp : p '/' = false) : Leads comment (t.dropWhile p) := by
  obtain ⟨front, back, rfl, hfront⟩ := h
  refine ⟨front.dropWhile p, back, dropWhile_append_slash hp (head?_append_slash hopen back) front, ?_⟩
  exact fun h => hfront (h.trans (List.dropWhile_suffix p).isInfix)

include hopen in
/-- A mark without a slash can be cut off at the start. -/
lemma Leads.of_prefix {mark rest : Text} (h : Leads comment t) (hmark : '/' ∉ mark)
    (hrest : mark.isPrefixOf? t = some rest) : Leads comment rest := by
  obtain ⟨front, back, rfl, hfront⟩ := h
  obtain ⟨m, rfl, rfl⟩ := exists_of_prefix_append_slash hmark (head?_append_slash hopen back)
    (List.append_eq_of_isPrefixOf?_eq_some hrest)
  exact ⟨m, back, rfl, fun h => hfront (h.trans (List.suffix_append mark m).isInfix)⟩

include hclose in
/-- A mark without a slash can be cut off at the end. -/
lemma Leads.of_suffix {mark rest : Text} (h : Leads comment t) (hmark : '/' ∉ mark)
    (hrest : mark.isSuffixOf? t = some rest) : Leads comment rest := by
  obtain ⟨front, back, rfl, hfront⟩ := h
  have happ := List.append_eq_of_isSuffixOf?_eq_some hrest
  rw [← List.append_assoc] at happ
  obtain ⟨m, -, rfl⟩ := exists_of_suffix_slash_append hmark (getLast?_append_slash hclose front) happ
  exact ⟨front, m, List.append_assoc .., hfront⟩

include hopen hclose in
/-- The white space at the ends can be cut off. -/
lemma Leads.trim (h : Leads comment t) : Leads comment (Text.trim t) := by
  obtain ⟨front, back, hstart, hfront⟩ := h.dropWhile hopen (show isWhite '/' = false by decide)
  rw [Text.trim, trimStart, hstart, ← List.append_assoc, trimEnd_slash_append (getLast?_append_slash hclose front)]
  exact ⟨front, trimEnd back, List.append_assoc .., hfront⟩

include hopen in
/-- The fence that opens an answer can be cut off, with the name of a language and a line feed. -/
lemma Leads.stripOpeningFence (h : Leads comment t) : Leads comment (stripOpeningFence t) := by
  simp only [Comment.stripOpeningFence]
  split
  · rename_i rest hrest
    have hname : Leads comment (rest.dropWhile Char.isAlpha) :=
      (h.of_prefix hopen (by decide) hrest).dropWhile hopen (by decide)
    cases hfeed : ['\n'].isPrefixOf? (rest.dropWhile Char.isAlpha) with
    | none => exact hname
    | some behind => exact hname.of_prefix hopen (show '/' ∉ ['\n'] by decide) hfeed
  · exact h

include hopen hclose in
/-- **White space and fences** around an answer can be cut off. -/
lemma Leads.stripFence (h : Leads comment t) : Leads comment (stripFence t) := by
  have hopened := h.stripOpeningFence hopen
  rw [Comment.stripFence]
  apply Leads.trim hopen hclose
  cases hend : fence.isSuffixOf? (Comment.stripOpeningFence t) with
  | none => exact hopened
  | some rest => exact hopened.of_suffix hclose (by decide) hend

end Leads

/-- In front of a documentation comment no earlier one starts and ends up in it. -/
lemma breakAt?_docOpener {front : Text} (hfront : ¬ docOpener <:+: front) (t : Text) :
    breakAt? docOpener (front ++ (docOpener ++ t)) = some (front, docOpener ++ t) := by
  refine breakAt?_eq_some_iff.mpr ⟨rfl, List.prefix_append _ _, fun x y hxy hy => ?_⟩
  by_contra hlt
  obtain ⟨m, rfl, rfl⟩ : ∃ m, front = x ++ m ∧ y = m ++ (docOpener ++ t) := by
    rcases List.append_eq_append_iff.mp hxy with ⟨m, rfl, -⟩ | ⟨m, rfl, hm⟩
    · simp at hlt
    · exact ⟨m, rfl, hm⟩
  -- the mark would start in the last characters `m` of the text in front
  match m, hlt, hfront, hy with
  | [], hlt, _, _ => simp at hlt
  | [_], _, _, hy => simp [docOpener] at hy
  | [_, _], _, _, hy => simp [docOpener] at hy
  | a :: b :: c :: m, _, hfront, hy =>
    obtain ⟨u, hu⟩ := hy
    obtain ⟨rfl, rfl, rfl⟩ : '/' = a ∧ '*' = b ∧ '*' = c := by
      simp only [docOpener, List.cons_append, List.cons.injEq] at hu
      exact ⟨hu.1, hu.2.1, hu.2.2.1⟩
    exact hfront ⟨x, m, by simp [docOpener]⟩

/-- A comment consists of its marks and a text between them, if it ends with its first closer behind
some of the characters of its opener and has room for both marks. -/
lemma exists_inner {comment : Text} {n : Nat} (hopens : docOpener <+: comment) (hlong : 5 ≤ bytes comment) (hn : n ≤ 3)
    (hclosed : (breakAt? closer (comment.drop n)).map Prod.snd = some closer) :
    ∃ inner, comment = docOpener ++ inner ++ closer ∧ ¬ closer <:+: inner ++ ['*'] := by
  obtain ⟨rest, rfl⟩ := hopens
  have hdrop : (docOpener ++ rest).drop n = docOpener.drop n ++ rest := List.drop_append_of_le_length hn
  obtain ⟨before, hbefore, hfirst⟩ := first_closer_iff.mp hclosed
  rw [hdrop] at hbefore
  -- the closer is no part of the mark that opens the comment
  have hroom : bytes (docOpener.drop n) ≤ bytes before := by
    have hmark : bytes docOpener = 3 := rfl
    have hcloser : bytes closer = 2 := rfl
    have hbytes := congrArg bytes hbefore
    rw [bytes_append] at hlong
    rw [bytes_append, bytes_append] at hbytes
    omega
  obtain ⟨inner, rfl, rfl⟩ := exists_of_bytes_le hbefore hroom
  refine ⟨inner, (List.append_assoc ..).symm, fun h => hfirst (h.trans ?_)⟩
  rw [List.append_assoc]
  exact (List.suffix_append (docOpener.drop n) (inner ++ ['*'])).isInfix

/-- **The first comment is found**: it ends with the first closer behind its opener. -/
lemma firstDoc?_of_leads {inner t : Text} (hinner : ¬ closer <:+: inner ++ ['*'])
    (h : Leads (docOpener ++ inner ++ closer) t) : firstDoc? t = some (docOpener ++ inner ++ closer) := by
  obtain ⟨front, back, rfl, hfront⟩ := h
  have hstart : breakAt? docOpener (front ++ (docOpener ++ inner ++ closer ++ back)) =
      some (front, docOpener ++ (inner ++ '*' :: '/' :: back)) := by
    rw [← breakAt?_docOpener hfront]
    simp [closer]
  have hend : breakAt? closer (inner ++ '*' :: '/' :: back) = some (inner, '*' :: '/' :: back) :=
    breakAt?_pair_iff.mpr hinner
  rw [firstDoc?, hstart]
  simp only [List.drop_left, hend, Option.map_some]

/-! ## Answers without a comment -/

/-- A text without the fence that opens it is a part of the text. -/
lemma stripOpeningFence_isInfix (t : Text) : stripOpeningFence t <:+: t := by
  simp only [stripOpeningFence]
  split
  · rename_i rest hrest
    have hpart : rest.dropWhile Char.isAlpha <:+: t :=
      (List.dropWhile_suffix _).isInfix.trans ⟨fence, [], by simpa using List.append_eq_of_isPrefixOf?_eq_some hrest⟩
    cases hfeed : ['\n'].isPrefixOf? (rest.dropWhile Char.isAlpha) with
    | none => exact hpart
    | some behind =>
      have happ := List.append_eq_of_isPrefixOf?_eq_some hfeed
      exact List.IsInfix.trans ⟨['\n'], [], by simpa using happ⟩ hpart
  · exact List.infix_refl t

/-- A text without the fence around it is a part of the text. -/
lemma stripFence_isInfix (t : Text) : stripFence t <:+: t := by
  have hopened := stripOpeningFence_isInfix t
  rw [stripFence]
  refine (trim_isInfix _).trans ?_
  cases hend : fence.isSuffixOf? (stripOpeningFence t) with
  | none => exact hopened
  | some rest => exact List.IsInfix.trans ⟨[], fence, by simpa using List.append_eq_of_isSuffixOf?_eq_some hend⟩ hopened

/-- In a text without the mark of a documentation comment none is found. -/
lemma firstDoc?_eq_none {t : Text} (h : ¬ docOpener <:+: t) : firstDoc? t = none := by
  rw [firstDoc?, breakAt?_eq_none_iff.mpr h]

/-- **What is kept of an answer** is its first documentation comment, whatever surrounds it: any
text without the mark of a documentation comment in front, so that a fence with the name of a
language may open it, and any text at all behind. The comment is kept character by character. It
ends with its first closer, which is looked for from the second star on (`n = 2`) or from any other
place of its mark, and it is long enough to have this closer behind the mark. Of an answer without
such a mark something is kept exactly if, without its fence and the white space at its ends, it
starts with a star.

**Proof sketch.** White space, fences and the name of a language hold no slash, so cutting them off
leaves the comment where it is, and in front of it only a part of what was there
(`Leads.stripFence`). The search for the first mark then finds the one that opens the comment
(`breakAt?_docOpener`), and the search for the first closer the one that ends it. -/
theorem sanitize?_surrounded :
    (∀ front comment back, ¬ docOpener <:+: front → docOpener <+: comment → 5 ≤ bytes comment →
      ∀ n ≤ 3, (breakAt? closer (comment.drop n)).map Prod.snd = some closer →
        sanitize? (front ++ comment ++ back) = some comment) ∧
    ∀ answer, ¬ docOpener <:+: answer → (sanitize? answer = none ↔ ¬ ['*'] <+: stripFence (trim answer)) := by
  constructor
  · intro front comment back hfront hopens hlong n hn hclosed
    obtain ⟨inner, rfl, hinner⟩ := exists_inner hopens hlong hn hclosed
    have hopen : (docOpener ++ inner ++ closer).head? = some '/' := rfl
    have hclose : (docOpener ++ inner ++ closer).getLast? = some '/' := by simp [closer, List.getLast?_append]
    have hleads : Leads (docOpener ++ inner ++ closer) (front ++ (docOpener ++ inner ++ closer) ++ back) :=
      ⟨front, back, List.append_assoc .., hfront⟩
    have hstripped := (hleads.trim hopen hclose).stripFence hopen hclose
    exact sanitize?_eq_some_iff.mpr (.inl (firstDoc?_of_leads hinner hstripped))
  · intro answer hanswer
    have hnone : firstDoc? (stripFence (trim answer)) = none :=
      firstDoc?_eq_none fun h => hanswer (h.trans ((stripFence_isInfix _).trans (trim_isInfix answer)))
    rw [Option.eq_none_iff_forall_ne_some]
    simp only [ne_eq, sanitize?_eq_some_iff, hnone, reduceCtorEq, true_and, false_or, not_and]
    exact ⟨fun h hstar => h _ hstar rfl, fun h b hstar => absurd hstar h⟩

/-- A fence in front and a second comment behind. -/
theorem sanitize?_surrounded_fence :
    let front := "```ts\nHere it is: /*".toList
    let comment := "/*** Gets it /** now. ***/".toList
    ¬ docOpener <:+: front ∧ docOpener <+: comment ∧ 5 ≤ bytes comment ∧
      (breakAt? closer (comment.drop 2)).map Prod.snd = some closer ∧
      sanitize? (front ++ comment ++ "/ /** b */\n``` ".toList) = some comment := by
  intro front comment
  have hfront : ¬ docOpener <:+: front := by decide
  have hopens : docOpener <+: comment := by decide
  have hlong : 5 ≤ bytes comment := by decide
  have hclosed : (breakAt? closer (comment.drop 2)).map Prod.snd = some closer := by decide
  exact ⟨hfront, hopens, hlong, hclosed,
    sanitize?_surrounded.1 front comment _ hfront hopens hlong 2 (by decide) hclosed⟩

end Comment

end DocBlocks
