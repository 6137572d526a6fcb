import DocBlocks.Comment.Sanitized
import DocBlocks.Proofs.Text.Occurrence

/-!
# Single comments

A text is a single documentation comment if its first closer, looked for behind the opener `/*`,
ends it. Such a text can stand in a source without anything of it being read as code. What is kept
of the answer of a generator always starts and ends like a comment, but it is a single one only if
the marks in the answer stand well: a comment whose opener is at once followed by a slash is closed
by that slash, and an answer without a comment of its own is wrapped together with the closers in
it.

## Main definitions

* `Comment.IsSingle`: the texts that are one documentation comment.
* `Comment.Contained`: the texts of which one comment can be kept.

## Main results

* `Comment.isSingle_iff`: a single comment is an opener, a text without closers, and a closer.
* `Comment.sanitize?_isSingle_iff`: what is kept of an answer is a single comment exactly if the
  answer is contained.
-/

namespace DocBlocks.Comment

/-- A text that is one documentation comment: the first closer behind `/*` is its end. -/
def IsSingle (b : Text) : Prop :=
  docOpener <+: b ∧ (Text.breakAt? closer (b.drop 2)).map Prod.snd = some closer

instance (b : Text) : Decidable (IsSingle b) := inferInstanceAs (Decidable (_ ∧ _))

/-- A text behind `/*` ends with its first closer if there is none in it up to the closer's first
character. -/
lemma first_closer_iff {t : Text} :
    (Text.breakAt? closer t).map Prod.snd = some closer ↔
      ∃ inner, t = inner ++ closer ∧ ¬ closer <:+: inner ++ ['*'] := by
  simp only [Option.map_eq_some_iff, Prod.exists]
  constructor
  · rintro ⟨inner, rest, h, rfl⟩
    have ht := Text.append_of_breakAt? h
    subst ht
    exact ⟨inner, rfl, Text.breakAt?_pair_iff.mp h⟩
  · rintro ⟨inner, rfl, h⟩
    exact ⟨inner, closer, Text.breakAt?_pair_iff.mpr h, rfl⟩

/-- **Single comments** consist of an opener, a text without closers, and a closer; the opener alone
can lend its last star to the closer. -/
lemma isSingle_iff {b : Text} :
    IsSingle b ↔ b = opener ++ closer ∨
      ∃ inner, b = docOpener ++ inner ++ closer ∧ ¬ closer <:+: '*' :: (inner ++ ['*']) := by
  constructor
  · rintro ⟨⟨t, rfl⟩, h⟩
    obtain ⟨inner, ht, hn⟩ := first_closer_iff.mp h
    cases inner with
    | nil =>
      left
      have : '*' :: t = closer := ht
      obtain rfl : t = ['/'] := by simpa [closer] using this
      rfl
    | cons c inner =>
      right
      obtain ⟨rfl, rfl⟩ : '*' = c ∧ t = inner ++ closer := by simpa [docOpener] using ht
      exact ⟨inner, by simp, hn⟩
  · rintro (rfl | ⟨inner, rfl, hn⟩)
    · decide
    · refine ⟨⟨inner ++ closer, by simp⟩, first_closer_iff.mpr ⟨'*' :: inner, by simp [docOpener], hn⟩⟩

/-- A single comment ends with a closer. -/
lemma IsSingle.closes {b : Text} (h : IsSingle b) : closer <:+ b := by
  obtain ⟨inner, ht, -⟩ := first_closer_iff.mp h.2
  exact (ht ▸ List.suffix_append inner closer : closer <:+ b.drop 2).trans (List.drop_suffix 2 b)

/-! ## The first documentation comment of a text -/

/-- What the search for a documentation comment finds: from the first opener to the first closer
behind it. -/
lemma firstDoc?_eq_some {text comment : Text} (h : firstDoc? text = some comment) :
    ∃ inner, comment = docOpener ++ inner ++ closer ∧ ¬ closer <:+: inner ++ ['*'] := by
  simp only [firstDoc?] at h
  split at h
  · rename_i found heq
    obtain ⟨⟨inner, rest⟩, hb, rfl⟩ := Option.map_eq_some_iff.mp h
    obtain ⟨ht, ⟨u, rfl⟩, -⟩ := Text.breakAt?_eq_some_iff.mp hb
    rw [ht] at hb
    exact ⟨inner, rfl, Text.breakAt?_pair_iff.mp hb⟩
  · cases h

/-- A documentation comment found in a text is a single one unless a slash follows its opener. -/
lemma isSingle_of_firstDoc?_iff {text comment : Text} (h : firstDoc? text = some comment) :
    IsSingle comment ↔ comment[3]? ≠ some '/' := by
  obtain ⟨inner, rfl, hn⟩ := firstDoc?_eq_some h
  have hlen : docOpener ++ inner ++ closer ≠ opener ++ closer := by
    intro he
    have := congrArg List.length he
    simp [docOpener, opener, closer] at this
  have hthird : (docOpener ++ inner ++ closer)[3]? = (inner ++ ['*']).head? := by
    cases inner <;> simp [docOpener, closer]
  rw [isSingle_iff, hthird]
  constructor
  · rintro (he | ⟨inner', he, hn'⟩)
    · exact absurd he hlen
    · obtain rfl : inner = inner' := by simpa [docOpener, closer] using he
      intro hslash
      exact hn' (Text.pair_isInfix_cons.mpr (.inl ⟨rfl, hslash⟩))
  · intro hslash
    refine .inr ⟨inner, rfl, ?_⟩
    rw [closer, Text.pair_isInfix_cons]
    rintro (⟨-, h'⟩ | h')
    · exact hslash h'
    · exact hn h'

/-! ## Wrapped answers -/

/-- The comment made of a text that only continues one. -/
def wrapped (text : Text) : Text :=
  docOpener ++ ['\n'] ++ text ++ if closer.isSuffixOf text then [] else '\n' :: closer

/-- A wrapped text ends with a closer. -/
lemma closes_wrapped (text : Text) : closer <:+ wrapped text := by
  rw [wrapped]
  split
  · rename_i h
    obtain ⟨t, rfl⟩ := List.isSuffixOf_iff_suffix.mp h
    exact ⟨docOpener ++ ['\n'] ++ t, by simp⟩
  · exact ⟨docOpener ++ ['\n'] ++ text ++ ['\n'], by simp⟩

/-- A wrapped text is a single comment exactly if the text has no closer in front of its end.

**Proof sketch.** The characters `*` and line feed that are put in front of the text, and the line
feed behind it, make no closer at the seams. So the first closer of the wrapped text is the first
one of the text, if it has one, and the added one otherwise. -/
lemma isSingle_wrapped_iff {text : Text} :
    IsSingle (wrapped text) ↔
      ∀ front rest, Text.breakAt? closer text = some (front, rest) → rest = closer := by
  have hopen : docOpener <+: wrapped text := by simp [wrapped]
  have hdrop : (wrapped text).drop 2 =
      ['*', '\n'] ++ (text ++ if closer.isSuffixOf text then [] else '\n' :: closer) := by
    simp [wrapped, docOpener]
  rw [IsSingle, hdrop, first_closer_iff]
  simp only [hopen, true_and]
  have seam : ∀ t, closer <:+: ['*', '\n'] ++ t ↔ closer <:+: t := by
    intro t
    rw [closer, Text.pair_isInfix_append]
    simp [Text.pair_isInfix_cons]
  constructor
  · rintro ⟨inner, ht, hn⟩ front rest hb
    have hfirst := Text.breakAt?_eq_some_iff.mp hb
    obtain ⟨htext, ⟨u, rfl⟩, -⟩ := hfirst
    -- the closer found in the text is also in the wrapped text, so it is its last part
    by_contra hne
    have hu : u ≠ [] := by
      rintro rfl
      simp at hne
    generalize (if closer.isSuffixOf text then [] else '\n' :: closer) = v at ht
    have hwrapped : ['*', '\n'] ++ front ++ closer ++ (u ++ v) = inner ++ closer := by
      rw [← ht, htext]
      simp
    exact hn (Text.pair_isInfix_of_append_eq hwrapped (List.append_ne_nil_of_left_ne_nil hu v))
  · intro h
    cases hb : Text.breakAt? closer text with
    | none =>
      have hn := Text.breakAt?_eq_none_iff.mp hb
      have hsuf : closer.isSuffixOf text = false := by
        rw [Bool.eq_false_iff, ne_eq, List.isSuffixOf_iff_suffix]
        exact fun hs => hn hs.isInfix
      refine ⟨['*', '\n'] ++ (text ++ ['\n']), by simp [hsuf], ?_⟩
      rw [List.append_assoc, seam, closer, Text.pair_isInfix_append, Text.pair_isInfix_append]
      simp only [Text.pair_isInfix_cons]
      simp only [closer] at hn
      simp [hn]
    | some found =>
      obtain ⟨front, rest⟩ := found
      obtain rfl := h front rest hb
      have htext := Text.append_of_breakAt? hb
      subst htext
      have hsuf : closer.isSuffixOf (front ++ closer) = true := by
        rw [List.isSuffixOf_iff_suffix]
        exact List.suffix_append front closer
      refine ⟨['*', '\n'] ++ front, by simp [hsuf], ?_⟩
      rw [List.append_assoc, seam]
      exact Text.breakAt?_pair_iff.mp hb

/-! ## Answers -/

/-- Whether one comment can be kept of a text: no slash follows at once the opener of its first
documentation comment; or, if it has none and only continues a comment, no closer stands in front of
its end. -/
def Contained (text : Text) : Prop :=
  match firstDoc? text with
  | some comment => comment[3]? ≠ some '/'
  | none => ['*'] <+: text → ∀ front rest, Text.breakAt? closer text = some (front, rest) → rest = closer

/-- The two ways in which an answer is accepted. -/
lemma sanitize?_eq_some_iff {answer b : Text} :
    sanitize? answer = some b ↔
      firstDoc? (stripFence answer.trim) = some b ∨
        (firstDoc? (stripFence answer.trim) = none ∧ ['*'] <+: stripFence answer.trim ∧
          wrapped (stripFence answer.trim) = b) := by
  rw [sanitize?]
  cases firstDoc? (stripFence answer.trim) with
  | some comment => simp
  | none => simp [wrapped, List.isPrefixOf_iff_prefix]

/-- **What is kept of an answer** always starts with `/**` and ends with a closer, and it is a
single comment, so that nothing the generator wrote is read as code, exactly if the answer without
its fence is contained.

**Proof sketch.** A comment found in the answer ends at the first closer behind its opener `/**`;
only a slash right behind the opener makes an earlier one (`isSingle_of_firstDoc?_iff`). A wrapped
answer keeps the closers it has (`isSingle_wrapped_iff`). -/
theorem sanitize?_isSingle_iff (answer : Text) :
    (∀ b, sanitize? answer = some b → docOpener <+: b ∧ closer <:+ b) ∧
      ((∀ b, sanitize? answer = some b → IsSingle b) ↔ Contained (stripFence answer.trim)) := by
  refine ⟨fun b hb => ?_, ?_⟩
  · rcases sanitize?_eq_some_iff.mp hb with h | ⟨-, -, rfl⟩
    · obtain ⟨inner, rfl, -⟩ := firstDoc?_eq_some h
      exact ⟨⟨inner ++ closer, by simp⟩, ⟨docOpener ++ inner, by simp⟩⟩
    · exact ⟨by simp [wrapped], closes_wrapped _⟩
  · simp only [sanitize?_eq_some_iff, Contained]
    cases hd : firstDoc? (stripFence answer.trim) with
    | some comment =>
      simp only [Option.some.injEq, reduceCtorEq, false_and, or_false, forall_eq']
      exact isSingle_of_firstDoc?_iff hd
    | none =>
      simp only [reduceCtorEq, true_and, false_or]
      constructor
      · intro h hstar
        exact isSingle_wrapped_iff.mp (h _ ⟨hstar, rfl⟩)
      · rintro h b ⟨hstar, rfl⟩
        exact isSingle_wrapped_iff.mpr (h hstar)

/-- An answer that continues a comment and closes it in front of its end is kept as a whole, and
what follows its closer is outside of the comment. -/
theorem sanitize?_leaks :
    sanitize? "* ends */ evil()".toList = some "/**\n* ends */ evil()\n*/".toList ∧
      ¬ IsSingle "/**\n* ends */ evil()\n*/".toList := by
  decide

end DocBlocks.Comment
