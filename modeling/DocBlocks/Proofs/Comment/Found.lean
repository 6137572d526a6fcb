import DocBlocks.Comment.Preceding
import DocBlocks.Proofs.Text.Cut
import DocBlocks.Proofs.Text.Occurrence

/-!
# Comments found above a place

The search for comments above a place sees a text and no tokens. What it finds is a text that opens
and closes like a comment, with no closer in front of its end and nothing but the last closer of the
text in front to keep it from opening earlier. Blanks with at most one line feed may follow it.

## Main definitions

* `Comment.latest?`: the comment that ends a text, without the text in front of it.
* `Comment.leavesOpen`: whether an opener that is none of a documentation comment stands behind the
  last closer of a text.
* `Comment.IsDocBlock`: a documentation comment behind indentation.

## Main results

* `Comment.lastComment?_eq_some_iff`, `Comment.above?_eq_some_iff`: what the searches find.
* `Comment.isSome_above?_comment`: when a comment that was put behind a text is found there.
* `Comment.isSome_above?_behind`: what stands in front of a closed comment does not matter for what
  follows it.
-/

namespace DocBlocks.Comment

open Text

/-! ## The comment that ends a text -/

/-- **The comment that ends a text** opens at the first opener behind the closer before its own. -/
lemma lastComment?_eq_some_iff {t front comment : Text} :
    lastComment? t = some (front, comment) ↔
      ∃ e f c, front = e ++ f ∧ comment = c ++ closer ∧ t = front ++ comment ∧
        ¬ closer <:+: f ++ c ∧ (e = [] ∨ closer <:+ e) ∧ breakAt? opener (f ++ c) = some (f, c) := by
  rw [lastComment?]
  constructor
  · intro h
    split at h
    · rename_i body hbody
      obtain ⟨⟨e, tail⟩, hsplit⟩ : ∃ found, splitBehindLast closer body = found := ⟨_, rfl⟩
      rw [hsplit] at h
      obtain ⟨⟨f, c⟩, hb, he⟩ := Option.map_eq_some_iff.mp h
      obtain ⟨rfl, rfl⟩ : e ++ f = front ∧ c ++ closer = comment := by simpa using he
      obtain ⟨rfl, hn, hstart⟩ := (splitBehindLast_eq_iff (by decide)).mp hsplit
      obtain rfl := append_of_breakAt? hb
      have ht := List.isSuffixOf?_eq_some_iff_append_eq.mp hbody
      exact ⟨e, f, c, rfl, rfl, by rw [← ht]; simp, hn, hstart, hb⟩
    · cases h
  · rintro ⟨e, f, c, rfl, rfl, rfl, hn, hstart, hb⟩
    have hbody : closer.isSuffixOf? (e ++ f ++ (c ++ closer)) = some (e ++ (f ++ c)) :=
      List.isSuffixOf?_eq_some_iff_append_eq.mpr (by simp)
    have hsplit : splitBehindLast closer (e ++ (f ++ c)) = (e, f ++ c) :=
      (splitBehindLast_eq_iff (by decide)).mpr ⟨rfl, hn, hstart⟩
    rw [hbody]
    simp only [hsplit, hb, Option.map_some]

/-- A comment that ends a text opens with the mark for it. -/
lemma opener_of_lastComment? {t front comment : Text} (h : lastComment? t = some (front, comment)) :
    opener <+: comment := by
  obtain ⟨e, f, c, -, rfl, -, -, -, hb⟩ := lastComment?_eq_some_iff.mp h
  exact (breakAt?_eq_some_iff.mp hb).2.1.trans (List.prefix_append c closer)

/-- What is found at the end of a text is the text, cut in two. -/
lemma append_of_lastComment? {t front comment : Text} (h : lastComment? t = some (front, comment)) :
    t = front ++ comment := by
  obtain ⟨e, f, c, -, -, ht, -⟩ := lastComment?_eq_some_iff.mp h
  exact ht

/-- Blanks behind a comment that ends a text are all the blanks at the end. -/
lemma trimEnd_of_lastComment? {front comment blanks : Text} (h : lastComment? (front ++ comment) = some (front, comment))
    (hblanks : ∀ c ∈ blanks, isWhite c) : trimEnd (front ++ comment ++ blanks) = front ++ comment := by
  refine trimEnd_eq_iff.mpr ⟨blanks, rfl, hblanks, fun c hc => ?_⟩
  obtain ⟨e, f, c', -, rfl, -⟩ := lastComment?_eq_some_iff.mp h
  obtain rfl : '/' = c := by simpa [closer, List.getLast?_append] using hc
  decide

/-! ## The comment above a place -/

/-- Where the text above a comment ends: in front of the comment's indentation if nothing else
stands on its line. -/
def topOf (front : Text) : Text :=
  if (splitLastLine front).2.all isWhite then (splitLastLine front).1 else front

/-- **The comment above a place**: only blanks with at most one line feed follow it, and it is a
documentation comment. -/
lemma above?_eq_some_iff {before top : Text} :
    above? before = some top ↔
      ∃ front comment blanks, before = front ++ comment ++ blanks ∧ (∀ c ∈ blanks, isWhite c) ∧
        lineBreaks blanks ≤ 1 ∧ lastComment? (front ++ comment) = some (front, comment) ∧ isDoc comment ∧
        top = topOf front := by
  obtain ⟨blanks, hbefore, hblanks, hend⟩ := trimEnd_eq_iff.mp (rfl : trimEnd before = trimEnd before)
  have hdrop : before.drop before.trimEnd.length = blanks := by
    have := congrArg (List.drop before.trimEnd.length) hbefore
    simpa using this
  rw [above?]
  simp only [hdrop]
  constructor
  · intro h
    split at h
    · rename_i hbreaks
      split at h
      · rename_i front comment hlast
        rw [Option.ite_none_right_eq_some] at h
        obtain ⟨hdoc, htop⟩ := h
        have happ := append_of_lastComment? hlast
        refine ⟨front, comment, blanks, happ ▸ hbefore, hblanks, hbreaks, happ ▸ hlast, hdoc, ?_⟩
        exact (Option.some.inj htop).symm
      · cases h
    · cases h
  · rintro ⟨front, comment, blanks', rfl, hblanks', hbreaks, hlast, hdoc, rfl⟩
    have htrim := trimEnd_of_lastComment? hlast hblanks'
    have hsame : blanks = blanks' := by
      rw [htrim] at hbefore
      exact (List.append_cancel_left hbefore).symm
    subst hsame
    rw [htrim, hlast, if_pos hbreaks]
    simp [hdoc, topOf]

/-! ## Comments behind other text -/

/-- The comment that ends a text, without the text in front of it. -/
def latest? (t : Text) : Option Text := (lastComment? t).map Prod.snd

/-- Whether a comment is found above a place depends on the blanks in front of the place and on the
last comment of the text in front of the blanks. -/
lemma isSome_above?_append {text blanks : Text} (htext : ∀ c, text.getLast? = some c → isWhite c = false)
    (hblanks : ∀ c ∈ blanks, isWhite c) :
    (above? (text ++ blanks)).isSome ↔
      lineBreaks blanks ≤ 1 ∧ ∃ comment, latest? text = some comment ∧ isDoc comment := by
  have htrim : trimEnd (text ++ blanks) = text := trimEnd_eq_iff.mpr ⟨blanks, rfl, hblanks, htext⟩
  rw [above?, latest?]
  simp only [htrim, List.drop_left]
  by_cases hbreaks : lineBreaks blanks ≤ 1
  · rw [if_pos hbreaks]
    cases lastComment? text with
    | none => simp
    | some found => by_cases hdoc : isDoc found.2 <;> simp [hdoc, hbreaks]
  · simp [hbreaks]

/-- No comment is found above blanks alone. -/
lemma above?_blanks {t : Text} (h : ∀ c ∈ t, isWhite c) : above? t = none := by
  have hnone : latest? [] = none := rfl
  rw [← Option.not_isSome_iff_eq_none]
  intro hsome
  have hiff : (above? ([] ++ t)).isSome ↔ _ := isSome_above?_append (by simp) h
  obtain ⟨-, comment, hcomment, -⟩ := hiff.mp hsome
  rw [hnone] at hcomment
  cases hcomment

/-- Whether the first opener behind the last closer of a text opens something other than a
documentation comment. -/
def leavesOpen (t : Text) : Bool :=
  match breakAt? opener (splitBehindLast closer t).2 with
  | some (_, rest) => !docOpener.isPrefixOf rest
  | none => false

/-- A text that is empty or ends with a closer and a line feed, so that it has no part in a comment
behind it. -/
def Closes (t : Text) : Prop := t = [] ∨ closer ++ ['\n'] <:+ t

/-- Behind a text that closes a line starts. -/
lemma Closes.endsLine {t : Text} (h : Closes t) : EndsLine t :=
  h.imp_right ((List.suffix_append closer ['\n']).trans ·)

/-- What follows a text that closes is cut behind its last closer as if it stood alone, up to the
line feed in front of it. -/
lemma splitBehindLast_append {p t : Text} (hp : Closes p) :
    ∃ e r, splitBehindLast closer (p ++ t) = (e, r) ∧
      (r = (splitBehindLast closer t).2 ∨ r = '\n' :: (splitBehindLast closer t).2) := by
  obtain ⟨⟨e, r⟩, hsplit⟩ : ∃ found, splitBehindLast closer t = found := ⟨_, rfl⟩
  rw [hsplit]
  obtain ⟨rfl, hn, hstart⟩ := (splitBehindLast_eq_iff (by decide)).mp hsplit
  rcases hp with rfl | ⟨z, rfl⟩
  · exact ⟨e, r, hsplit, .inl rfl⟩
  · rcases hstart with rfl | ⟨y, rfl⟩
    · refine ⟨z ++ closer, '\n' :: r, (splitBehindLast_eq_iff (by decide)).mpr ⟨by simp, ?_, .inr ⟨z, rfl⟩⟩,
        .inr rfl⟩
      rw [pair_isInfix_cons]
      simp [hn]
    · refine ⟨z ++ (closer ++ ['\n']) ++ (y ++ closer), r, (splitBehindLast_eq_iff (by decide)).mpr
        ⟨by simp [closer], hn, .inr ⟨z ++ (closer ++ ['\n']) ++ y, by simp [closer]⟩⟩, .inl rfl⟩

/-- A line feed in front of a text is no part of an opener in it. -/
lemma breakAt?_opener_cons (t : Text) :
    breakAt? opener ('\n' :: t) = (breakAt? opener t).map fun (front, rest) => ('\n' :: front, rest) := by
  simp [breakAt?, opener]

/-- A text that closes has no part in a closer behind it. -/
lemma closer_suffix_append {p t : Text} (hp : Closes p) (ht : t ≠ []) : closer <:+ p ++ t ↔ closer <:+ t := by
  constructor
  · rintro ⟨body, hbody⟩
    rcases List.append_eq_append_iff.mp hbody with ⟨m, rfl, hc⟩ | ⟨m, rfl, hc⟩
    · rcases m with _ | ⟨c, _ | ⟨d, m⟩⟩
      · exact hc ▸ List.suffix_refl _
      · obtain rfl : '*' = c := (List.cons.inj hc).1
        -- the text in front would end with a star
        rcases hp with hnil | ⟨z, hz⟩
        · simp at hnil
        · have : (z ++ closer) ++ ['\n'] = body ++ ['*'] := by simpa using hz
          simpa using (List.append_inj' this rfl).2
      · obtain ⟨-, hc⟩ := List.cons.inj hc
        obtain ⟨-, hc⟩ := List.cons.inj hc
        exact absurd (List.append_eq_nil_iff.mp hc.symm).2 ht
    · exact hc ▸ List.suffix_append m closer
  · exact fun h => h.trans (List.suffix_append p t)

/-- **The last comment of a text** does not depend on a text that closes in front of it. -/
lemma latest?_append {p t : Text} (hp : Closes p) (ht : t ≠ []) : latest? (p ++ t) = latest? t := by
  by_cases hs : closer <:+ t
  · obtain ⟨body, rfl⟩ := hs
    have hwhole : closer.isSuffixOf? (p ++ (body ++ closer)) = some (p ++ body) :=
      List.isSuffixOf?_eq_some_iff_append_eq.mpr (by simp)
    have hown : closer.isSuffixOf? (body ++ closer) = some body :=
      List.isSuffixOf?_eq_some_iff_append_eq.mpr rfl
    obtain ⟨e, r, hsplit, hr⟩ := splitBehindLast_append (t := body) hp
    rw [latest?, latest?, lastComment?, lastComment?, hwhole, hown]
    simp only [hsplit]
    rcases hr with rfl | rfl
    · simp [Option.map_map, Function.comp_def]
    · simp [breakAt?_opener_cons, Option.map_map, Function.comp_def]
  · have hnone : ∀ u : Text, ¬ closer <:+ u → latest? u = none := by
      intro u hu
      have : closer.isSuffixOf? u = none := by
        rw [Option.eq_none_iff_forall_ne_some]
        exact fun body hbody => hu ⟨body, List.isSuffixOf?_eq_some_iff_append_eq.mp hbody⟩
      rw [latest?, lastComment?, this]
      rfl
    rw [hnone t hs, hnone _ (mt (closer_suffix_append hp ht).mp hs)]

/-- What stands in front of a closed comment does not matter for what is found above a place, unless
nothing but blanks lies between. -/
lemma isSome_above?_behind {p t : Text} (hp : Closes p) (ht : ∃ c ∈ t, isWhite c = false) :
    (above? (p ++ t)).isSome ↔ (above? t).isSome := by
  obtain ⟨blanks, happ, hblanks, hend⟩ := trimEnd_eq_iff.mp (rfl : trimEnd t = trimEnd t)
  generalize trimEnd t = text at happ hend
  subst happ
  have hne : text ≠ [] := by
    rintro rfl
    obtain ⟨c, hc, hwhite⟩ := ht
    rw [hblanks c (by simpa using hc)] at hwhite
    cases hwhite
  have hend' : ∀ c, (p ++ text).getLast? = some c → isWhite c = false := by
    intro c hc
    rw [List.getLast?_append_of_ne_nil p hne] at hc
    exact hend c hc
  rw [← List.append_assoc, isSome_above?_append hend' hblanks, isSome_above?_append hend hblanks,
    latest?_append hp hne]

/-! ## Comments put behind other text -/

/-- A search that finds a mark in the first part of a text finds it in the whole. -/
lemma breakAt?_append {mark t a b : Text} (h : breakAt? mark t = some (a, b)) (u : Text) :
    breakAt? mark (t ++ u) = some (a, b ++ u) := by
  obtain ⟨rfl, hb, hmin⟩ := breakAt?_eq_some_iff.mp h
  refine breakAt?_eq_some_iff.mpr ⟨by simp, hb.trans (List.prefix_append b u), fun x y hxy hy => ?_⟩
  by_contra hlt
  -- an earlier occurrence would end in the first part
  obtain ⟨m, rfl, hm⟩ : ∃ m, a = x ++ m ∧ y = m ++ (b ++ u) := by
    rcases List.append_eq_append_iff.mp (by simpa using hxy : a ++ (b ++ u) = x ++ y) with ⟨m, rfl, -⟩ | ⟨m, rfl, hm⟩
    · simp at hlt
    · exact ⟨m, rfl, hm⟩
  subst hm
  have hpre : mark <+: m ++ b := by
    apply List.prefix_of_prefix_length_le hy
    · rw [← List.append_assoc]
      exact List.prefix_append (m ++ b) u
    · have := hb.length_le
      simp
      omega
  exact hlt (hmin x (m ++ b) (by simp) hpre)

/-- The last comment of a text that ends with a closer, taken apart behind the closer before
that. -/
lemma latest?_closed {e tail : Text} (htail : ¬ closer <:+: tail) (he : e = [] ∨ closer <:+ e) :
    latest? (e ++ tail ++ closer) = (breakAt? opener tail).map fun found => found.2 ++ closer := by
  have hbody : closer.isSuffixOf? (e ++ tail ++ closer) = some (e ++ tail) :=
    List.isSuffixOf?_eq_some_iff_append_eq.mpr rfl
  have hsplit : splitBehindLast closer (e ++ tail) = (e, tail) :=
    (splitBehindLast_eq_iff (by decide)).mpr ⟨rfl, htail, he⟩
  rw [latest?, lastComment?, hbody]
  simp [hsplit, Option.map_map, Function.comp_def]

/-- A mark with a star is in no text without one. -/
lemma not_isInfix_of_not_mem {mark t : Text} (hmark : '*' ∈ mark) (ht : '*' ∉ t) : ¬ mark <:+: t :=
  fun h => ht (h.subset hmark)

/-- The mark of a documentation comment is the opener with a star behind it. -/
lemma docOpener_prefix_iff {u : Text} : docOpener <+: opener ++ u ↔ u.head? = some '*' := by
  cases u with
  | nil => simp [docOpener, opener]
  | cons c u => simp [docOpener, opener, eq_comm]

/-- Which comments of more than four characters are documentation comments. -/
lemma isDoc_opener_iff {u : Text} (hu : 2 < u.length) : isDoc (opener ++ u) ↔ u.head? = some '*' := by
  have hlen : opener ++ u ≠ opener ++ closer := by
    intro h
    rw [List.append_cancel_left h] at hu
    simp [closer] at hu
  rw [isDoc, Bool.and_eq_true, List.isPrefixOf_iff_prefix, docOpener_prefix_iff]
  simp [hlen]

/-- A text that is one documentation comment behind indentation. -/
def IsDocBlock (block : Text) : Prop :=
  ∃ indent inner, block = indent ++ (docOpener ++ inner ++ closer) ∧ (∀ c ∈ indent, c = ' ' ∨ c = '\t') ∧
    ¬ closer <:+: '*' :: (inner ++ ['*'])

section Put

variable {b indent inner : Text} (hb : b.getLast? ≠ some '*') (hindent : ∀ c ∈ indent, c = ' ' ∨ c = '\t')
  (hinner : ¬ closer <:+: '*' :: (inner ++ ['*']))

include hindent in
/-- Indentation has no star. -/
lemma star_not_mem_indent : '*' ∉ indent := by
  intro h
  rcases hindent '*' h with h | h <;> cases h

include hindent hinner in
/-- A single comment behind its indentation has no closer in front of its end. -/
lemma not_closer_isInfix_lead : ¬ closer <:+: indent ++ (docOpener ++ inner) := by
  have hstar := star_not_mem_indent hindent
  have hlast : indent.getLast? ≠ some '*' := fun h => hstar (List.mem_of_getLast? h)
  have hrest : ¬ closer <:+: '*' :: inner := fun h => hinner (h.trans ⟨[], ['*'], by simp⟩)
  rw [closer, pair_isInfix_append]
  rintro (h | h | ⟨h, -⟩)
  · exact not_isInfix_of_not_mem (by simp) hstar h
  · rw [docOpener, List.cons_append, List.cons_append, List.singleton_append, pair_isInfix_cons, pair_isInfix_cons] at h
    rcases h with ⟨h, -⟩ | ⟨-, h⟩ | h
    · cases h
    · cases h
    · exact hrest h
  · exact hlast h

include hindent in
/-- A comment behind its indentation starts with no star. -/
lemma head?_lead_ne_star (u : Text) : (indent ++ (docOpener ++ inner) ++ u).head? ≠ some '*' := by
  cases indent with
  | nil => simp [docOpener]
  | cons d indent =>
    intro h
    obtain rfl : d = '*' := by simpa using h
    rcases hindent '*' (by simp) with h | h <;> cases h

include hb hindent hinner in
/-- **The last comment behind a comment that was put in**: it is a documentation comment unless the
text in front leaves something open.

**Proof sketch.** The comment has no closer in front of its end, so the search starts behind the
last closer of the text in front, as it does in that text alone. If it finds an opener there, the
comment found starts with it; the two characters behind an opener at the very end of the text in
front are no star. If it finds none, the next opener is that of the comment that was put in. -/
lemma latest?_put :
    ∃ comment, latest? (b ++ (indent ++ (docOpener ++ inner ++ closer))) = some comment ∧
      (isDoc comment ↔ leavesOpen b = false) := by
  obtain ⟨⟨e, r⟩, hsplit⟩ : ∃ found, splitBehindLast closer b = found := ⟨_, rfl⟩
  obtain ⟨rfl, hr, he⟩ := (splitBehindLast_eq_iff (by decide)).mp hsplit
  have hstar : r.getLast? ≠ some '*' := by
    intro h
    apply hb
    rw [List.getLast?_append, h]
    rfl
  have htail : ¬ closer <:+: r ++ (indent ++ (docOpener ++ inner)) := by
    rw [closer, pair_isInfix_append]
    rintro (h | h | ⟨h, -⟩)
    · exact hr h
    · exact not_closer_isInfix_lead hindent hinner h
    · exact hstar h
  have happ : e ++ r ++ (indent ++ (docOpener ++ inner ++ closer)) =
      e ++ (r ++ (indent ++ (docOpener ++ inner))) ++ closer := by simp
  rw [happ, latest?_closed htail he, leavesOpen, hsplit]
  cases hopen : breakAt? opener r with
  | some found =>
    obtain ⟨f, rest⟩ := found
    obtain ⟨-, ⟨r', rfl⟩, -⟩ := breakAt?_eq_some_iff.mp hopen
    refine ⟨opener ++ (r' ++ (indent ++ (docOpener ++ inner)) ++ closer), by simp [breakAt?_append hopen], ?_⟩
    rw [isDoc_opener_iff (by simp [docOpener]; omega)]
    simp only [Bool.not_eq_false', List.isPrefixOf_iff_prefix, docOpener_prefix_iff]
    cases r' with
    | nil => simpa using head?_lead_ne_star hindent closer
    | cons c r' => simp
  | none =>
    have hnone : ¬ opener <:+: (r ++ indent) ++ ['/'] := by
      rw [List.append_assoc, opener, pair_isInfix_append]
      have hslash : '*' ∉ indent ++ ['/'] := by simpa using star_not_mem_indent hindent
      rintro (h | h | ⟨-, h⟩)
      · exact breakAt?_eq_none_iff.mp hopen h
      · exact not_isInfix_of_not_mem (by simp) hslash h
      · exact hslash (List.mem_of_head? h)
    have hfirst : breakAt? opener (r ++ (indent ++ (docOpener ++ inner))) = some (r ++ indent, docOpener ++ inner) := by
      have := (breakAt?_pair_iff (t := '*' :: inner)).mpr hnone
      simpa [docOpener, opener] using this
    have hdoc : docOpener ++ inner ++ closer = opener ++ ('*' :: inner ++ closer) := rfl
    refine ⟨docOpener ++ inner ++ closer, by simp [hfirst], ?_⟩
    rw [hdoc, isDoc_opener_iff (by simp [closer])]
    simp

include hb hindent hinner in
/-- **A comment that was put in** is found above the place behind it if at most one line feed lies
between, unless the text in front leaves something open. -/
lemma isSome_above?_comment {p blanks : Text} (hp : Closes p) (hblanks : ∀ c ∈ blanks, isWhite c) :
    (above? (p ++ (b ++ (indent ++ (docOpener ++ inner ++ closer))) ++ blanks)).isSome ↔
      lineBreaks blanks ≤ 1 ∧ leavesOpen b = false := by
  obtain ⟨comment, hlatest, hdoc⟩ := latest?_put hb hindent hinner
  rw [isSome_above?_append _ hblanks, latest?_append hp (by simp [docOpener]), hlatest]
  · simp [hdoc]
  · intro c hc
    obtain rfl : '/' = c := by simpa [closer, List.getLast?_append] using hc
    decide

end Put

end DocBlocks.Comment
