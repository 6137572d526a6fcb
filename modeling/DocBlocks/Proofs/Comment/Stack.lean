import DocBlocks.Proofs.Comment.Run

/-!
# Stacks of comments

The comments for one place stand one above the other with the same indentation. A search above the
place finds all of them and nothing else exactly if the text in front of them is settled: it leaves
no comment open, it lends no star to a closer, and the stack starts where a search takes a comment
to start.

A search takes what it finds for comments one by one, each up to its first closer. So if the text
down to the place starts like a stack of as many comments, what is found can differ from the stack
by blanks only.

## Main definitions

* `Comment.stack`: comments with the same indentation, one above the other.
* `Comment.Settled`: the texts behind which a search finds a stack.
* `Comment.EndsAtCloser`: the texts that end with their first closer.
* `Comment.StartsCode`: the texts that start neither with a line feed nor with a stack.

## Main results

* `Comment.above?_put_iff`: where a comment is found that was put behind a text.
* `Comment.aboveRun_stack_iff`: when a search finds a stack.
* `Comment.eq_stack_or_blanks`: what is found where a stack could stand.
-/

namespace DocBlocks.Comment

open Text

/-! ## Texts that end with their first closer -/

/-- Whether a text ends with its first closer. -/
def EndsAtCloser (w : Text) : Prop := ∃ v, w = v ++ closer ∧ ¬ closer <:+: v

/-- A star behind a text is no part of a closer. -/
lemma closer_isInfix_concat_star {v : Text} : closer <:+: v ++ ['*'] ↔ closer <:+: v := by
  rw [closer, pair_isInfix_append]
  simp

/-- A text has one front that ends with its first closer. -/
lemma EndsAtCloser.unique {w w' y y' : Text} (hw : EndsAtCloser w) (hw' : EndsAtCloser w') (h : w ++ y = w' ++ y') :
    w = w' ∧ y = y' := by
  have hfirst : ∀ {v u : Text}, ¬ closer <:+: v → breakAt? closer (v ++ closer ++ u) = some (v, closer ++ u) := by
    intro v u hv
    have hbreak := (breakAt?_pair_iff (t := u)).mpr (mt closer_isInfix_concat_star.mp hv)
    simpa [closer] using hbreak
  obtain ⟨v, rfl, hv⟩ := hw
  obtain ⟨v', rfl, hv'⟩ := hw'
  have hsame := hfirst (u := y) hv
  rw [h, hfirst hv'] at hsame
  obtain ⟨rfl, hrest⟩ : v' = v ∧ closer ++ y' = closer ++ y := by simpa using hsame
  exact ⟨rfl, (List.append_cancel_left hrest).symm⟩

/-- **Aligned texts**: texts that end with their first closer are the same in front of different
rests, as many as there are of them. -/
lemma align_of_append_eq {ps qs : List Text} {y z : Text} (hps : ∀ w ∈ ps, EndsAtCloser w)
    (hqs : ∀ w ∈ qs, EndsAtCloser w) (hle : ps.length ≤ qs.length) (h : ps.flatten ++ y = qs.flatten ++ z) :
    ∃ qs', qs = ps ++ qs' ∧ y = qs'.flatten ++ z := by
  induction ps generalizing qs with
  | nil => exact ⟨qs, rfl, h⟩
  | cons p ps ih =>
    cases qs with
    | nil => simp at hle
    | cons q qs =>
      rw [List.flatten_cons, List.flatten_cons, List.append_assoc, List.append_assoc] at h
      obtain ⟨rfl, hrest⟩ := (hps p (by simp)).unique (hqs q (by simp)) h
      obtain ⟨qs', rfl, hy⟩ := ih (fun w hw => hps w (by simp [hw])) (fun w hw => hqs w (by simp [hw]))
        (by simpa using hle) hrest
      exact ⟨qs', rfl, hy⟩

/-- Blanks in front of a text are no part of a closer. -/
lemma not_closer_isInfix_blanks {m v : Text} (hm : ∀ c ∈ m, isWhite c) (hv : ¬ closer <:+: v) :
    ¬ closer <:+: m ++ v := by
  have hstar : '*' ∉ m := by
    intro h
    have hwhite := hm '*' h
    revert hwhite
    decide
  rw [closer, pair_isInfix_append]
  rintro (h | h | ⟨h, -⟩)
  · exact not_isInfix_of_not_mem (by simp) hstar h
  · exact hv h
  · exact hstar (List.mem_of_getLast? h)

/-- A line feed is white space. -/
lemma white_of_mem_break : ∀ c ∈ ['\n'], isWhite c := by
  intro c hc
  obtain rfl := List.mem_singleton.mp hc
  rfl

/-- **What a search finds**, comment by comment: texts that end with their first closer, at most as
many as are wanted, and blanks with at most one line feed behind them. (The line feed in front
stands in for the blanks when nothing is found.) -/
lemma exists_of_aboveRun (n : Nat) (before : Text) :
    ∃ (l : Text) (ps : List Text) (blanks : Text), before = aboveRun n before ++ l ∧ '\n' :: l = ps.flatten ++ blanks ∧ ps.length ≤ n ∧
      (∀ w ∈ ps, EndsAtCloser w) ∧ (∀ c ∈ blanks, isWhite c) ∧ lineBreaks blanks ≤ 1 := by
  induction n generalizing before with
  | zero => exact ⟨[], [], ['\n'], by simp [aboveRun], rfl, le_rfl, by simp, white_of_mem_break, le_rfl⟩
  | succ n ih =>
    rw [aboveRun]
    cases habove : above? before with
    | none => exact ⟨[], [], ['\n'], by simp, rfl, Nat.zero_le _, by simp, white_of_mem_break, le_rfl⟩
    | some top =>
      obtain ⟨front, comment, blanks, rfl, hblanks, hbreaks, hlast, -, rfl⟩ := above?_eq_some_iff.mp habove
      obtain ⟨indent, hfront, hindent, -, -⟩ := topOf_append front
      obtain ⟨l, ps, blanks', htop, hl, hlen, hps, hblanks', -⟩ := ih (topOf front)
      obtain ⟨e, f, c, -, rfl, -, hn, -⟩ := lastComment?_eq_some_iff.mp hlast
      -- the blanks and the indentation in front of the comment go with it
      have hpiece : EndsAtCloser (blanks' ++ indent ++ (c ++ closer)) := by
        refine ⟨blanks' ++ indent ++ c, by simp, not_closer_isInfix_blanks ?_ ?_⟩
        · intro d hd
          rcases List.mem_append.mp hd with hd | hd
          · exact hblanks' d hd
          · exact hindent d hd
        · exact fun h => hn (h.trans (List.suffix_append f c).isInfix)
      refine ⟨l ++ indent ++ (c ++ closer) ++ blanks, ps ++ [blanks' ++ indent ++ (c ++ closer)], blanks, ?_, ?_, ?_, ?_,
        hblanks, hbreaks⟩
      · have hbefore := congrArg (· ++ indent ++ (c ++ closer) ++ blanks) htop
        simp only [← hfront] at hbefore
        simpa only [List.append_assoc] using hbefore
      · have hshape : '\n' :: (l ++ indent ++ (c ++ closer) ++ blanks) =
            ('\n' :: l) ++ (indent ++ (c ++ closer) ++ blanks) := by simp
        rw [hshape, hl]
        simp
      · simpa using hlen
      · intro w hw
        rcases List.mem_append.mp hw with hw | hw
        · exact hps w hw
        · obtain rfl := List.mem_singleton.mp hw
          exact hpiece

/-! ## Stacks -/

/-- Documentation comments with the same indentation, one above the other, each with a line feed
behind it. -/
def stack (indent : Text) (inners : List Text) : Text :=
  inners.flatMap fun inner => indent ++ (docOpener ++ inner ++ closer) ++ ['\n']

/-- Whether a text can be the inside of a documentation comment of several lines. -/
structure IsInner (inner : Text) : Prop where
  opens : inner.head? = some '\n'
  closes : ¬ closer <:+: '*' :: (inner ++ ['*'])

/-- Whether a text consists of spaces and tabs. -/
def IsIndent (indent : Text) : Prop := ∀ c ∈ indent, c = ' ' ∨ c = '\t'

variable {indent inner : Text} {inners : List Text}

lemma IsInner.exists_cons (h : IsInner inner) : ∃ u, inner = '\n' :: u := by
  have hopens := h.opens
  cases inner with
  | nil => cases hopens
  | cons c u =>
    obtain rfl : c = '\n' := by simpa using hopens
    exact ⟨u, rfl⟩

lemma IsIndent.white (h : IsIndent indent) : ∀ c ∈ indent, isWhite c := by
  intro c hc
  rcases h c hc with rfl | rfl <;> decide

lemma IsIndent.no_break (h : IsIndent indent) : '\n' ∉ indent := by
  intro hc
  rcases h '\n' hc with hc | hc <;> cases hc

/-- A comment of a stack ends with its first closer, also with the line feed in front of it. -/
lemma endsAtCloser_block (hindent : IsIndent indent) (hinner : IsInner inner) :
    EndsAtCloser ('\n' :: (indent ++ (docOpener ++ inner ++ closer))) := by
  refine ⟨'\n' :: (indent ++ (docOpener ++ inner)), by simp, ?_⟩
  rw [closer, pair_isInfix_cons]
  rintro (⟨h, -⟩ | h)
  · cases h
  · exact not_closer_isInfix_lead hindent hinner.closes h

/-- A stack, comment by comment, with a line feed in front. -/
lemma cons_stack_eq (indent : Text) (inners : List Text) :
    '\n' :: stack indent inners =
      (inners.map fun inner => '\n' :: (indent ++ (docOpener ++ inner ++ closer))).flatten ++ ['\n'] := by
  induction inners with
  | nil => rfl
  | cons inner inners ih =>
    have hshape : '\n' :: stack indent (inner :: inners) =
        '\n' :: (indent ++ (docOpener ++ inner ++ closer)) ++ ('\n' :: stack indent inners) := by
      simp [stack]
    rw [hshape, ih, List.map_cons, List.flatten_cons]
    simp only [List.append_assoc]

/-- A stack with one more comment below. -/
lemma stack_concat (indent : Text) (inners : List Text) (inner : Text) :
    stack indent (inners ++ [inner]) =
      stack indent inners ++ (indent ++ (docOpener ++ inner ++ closer)) ++ ['\n'] := by
  simp [stack]

/-! ## Texts in front of a stack -/

/-- Whether a search finds a stack behind a text, and nothing else: the text leaves no comment open
and ends with no star, and the stack starts a line, or it has no indentation and something other
than blanks stands on the line in front of it. -/
structure Settled (indent front : Text) : Prop where
  closed : ¬ opener <:+: (splitBehindLast closer front).2
  star : front.getLast? ≠ some '*'
  start : EndsLine front ∨ indent = [] ∧ ¬ (splitLastLine front).2.all isWhite

/-- A text behind which a line starts has an empty last line. -/
lemma endsLine_iff {t : Text} : EndsLine t ↔ (splitLastLine t).2 = [] := by
  obtain ⟨ht, -, hlines⟩ := splitLastLine_spec t
  constructor
  · intro h
    have hsplit := splitLastLine_of_endsLine [] h
    rw [List.append_nil] at hsplit
    rw [hsplit]
    rfl
  · intro h
    rw [h, List.append_nil] at ht
    rw [ht]
    exact hlines

/-- A text that closes does not decide if a stack is found behind what follows it. -/
lemma settled_append_iff {indent prior m : Text} (hprior : Closes prior) :
    Settled indent (prior ++ m) ↔ Settled indent m := by
  have hclosed : opener <:+: (splitBehindLast closer (prior ++ m)).2 ↔ opener <:+: (splitBehindLast closer m).2 := by
    obtain ⟨e, rest, hsplit, hrest⟩ := splitBehindLast_append (t := m) hprior
    rw [hsplit]
    rcases hrest with rfl | rfl
    · rfl
    · rw [opener, pair_isInfix_cons]
      simp
  have hstar : (prior ++ m).getLast? = some '*' ↔ m.getLast? = some '*' := by
    cases m with
    | cons c m => rw [List.getLast?_append_of_ne_nil _ (List.cons_ne_nil c m)]
    | nil =>
      rw [List.append_nil]
      rcases hprior with rfl | ⟨u, rfl⟩
      · rfl
      · simp
  have hlast : (splitLastLine (prior ++ m)).2 = (splitLastLine m).2 := by
    rw [splitLastLine_of_endsLine m hprior.endsLine]
  constructor
  · rintro ⟨hc, hs, hstart⟩
    rw [endsLine_iff, hlast, ← endsLine_iff] at hstart
    exact ⟨mt hclosed.mpr hc, mt hstar.mpr hs, hstart⟩
  · rintro ⟨hc, hs, hstart⟩
    rw [endsLine_iff, ← hlast, ← endsLine_iff] at hstart
    exact ⟨mt hclosed.mp hc, mt hstar.mp hs, hstart⟩

/-- A comment with its indentation starts where the text in front ends exactly if the line starts
there, or there is no indentation and no line of blanks. -/
lemma topOf_append_iff (hindent : IsIndent indent) {front : Text} :
    topOf (front ++ indent) = front ↔
      EndsLine front ∨ indent = [] ∧ ¬ (splitLastLine front).2.all isWhite := by
  obtain ⟨hfront, -, -⟩ := splitLastLine_spec front
  have hwhite : ((splitLastLine front).2 ++ indent).all isWhite = (splitLastLine front).2.all isWhite := by
    rw [List.all_append, List.all_eq_true.mpr hindent.white, Bool.and_true]
  rw [topOf, splitLastLine_append hindent.no_break, endsLine_iff]
  simp only [hwhite]
  by_cases hall : (splitLastLine front).2.all isWhite
  · have hiff : (splitLastLine front).1 = front ↔ (splitLastLine front).2 = [] := by
      constructor
      · intro h
        rw [h] at hfront
        exact List.append_right_eq_self.mp hfront.symm
      · intro h
        rw [h, List.append_nil] at hfront
        exact hfront.symm
    rw [if_pos hall, hiff]
    simp [hall]
  · have hne : (splitLastLine front).2 ≠ [] := by
      intro h
      rw [h] at hall
      exact hall rfl
    rw [if_neg hall]
    simp [hall, hne]

/-- White space ends where something else stands. -/
lemma eq_of_white_append {m w y z : Text} {a b : Char} (hm : ∀ c ∈ m, isWhite c) (hw : ∀ c ∈ w, isWhite c)
    (ha : isWhite a = false) (hb : isWhite b = false) (h : m ++ a :: y = w ++ b :: z) : m = w ∧ a = b ∧ y = z := by
  induction m generalizing w with
  | nil =>
    cases w with
    | nil => simpa using h
    | cons c w =>
      obtain rfl : a = c := (List.cons.inj h).1
      rw [hw a (by simp)] at ha
      cases ha
  | cons d m ih =>
    cases w with
    | nil =>
      obtain rfl : d = b := (List.cons.inj h).1
      rw [hm d (by simp)] at hb
      cases hb
    | cons c w =>
      obtain ⟨rfl, hrest⟩ := List.cons.inj h
      obtain ⟨rfl, hab, hyz⟩ := ih (fun c hc => hm c (by simp [hc])) (fun c hc => hw c (by simp [hc])) hrest
      exact ⟨rfl, hab, hyz⟩

/-- A comment and the white space behind it end where another comment with white space behind it
does, and only there if both texts are the same. -/
lemma eq_of_append_white {x y m w : Text} (hm : ∀ c ∈ m, isWhite c) (hw : ∀ c ∈ w, isWhite c)
    (h : x ++ closer ++ m = y ++ closer ++ w) : x = y ∧ m = w := by
  have hreverse := congrArg List.reverse h
  have hshape : ∀ u v : Text, (u ++ closer ++ v).reverse = v.reverse ++ '/' :: ('*' :: u.reverse) := by
    intro u v
    simp [closer]
  rw [hshape, hshape] at hreverse
  obtain ⟨hblanks, -, hrest⟩ :=
    eq_of_white_append (by simpa using hm) (by simpa using hw) (by decide) (by decide) hreverse
  exact ⟨by simpa using hrest, by simpa using hblanks⟩

/-- A closer that ends in a text with indentation behind it ends in the text. -/
lemma exists_of_closer_suffix (hindent : IsIndent indent) {front e f : Text} (he : e = [] ∨ closer <:+ e)
    (h : front ++ indent = e ++ f) : ∃ f', front = e ++ f' ∧ f = f' ++ indent := by
  rcases List.append_eq_append_iff.mp h with ⟨m, hem, hm⟩ | ⟨m, hfront, hf⟩
  · rcases List.eq_nil_or_concat' m with rfl | ⟨m, d, rfl⟩
    · exact ⟨[], by simpa using hem.symm, by simpa using hm.symm⟩
    · rcases he with rfl | ⟨v, hv⟩
      · simp at hem
      · have hlast : (v ++ ['*']) ++ ['/'] = (front ++ m) ++ [d] := by
          rw [List.append_assoc front, ← hem, ← hv]
          simp [closer]
        obtain rfl : '/' = d := by simpa using (List.append_inj' hlast rfl).2
        rcases hindent '/' (by rw [hm]; simp) with hslash | hslash <;> cases hslash
  · exact ⟨m, hfront, hf⟩

/-- A comment that was put behind a text makes a closer with it only if it starts right behind a
star. -/
lemma closer_isInfix_put_iff (hindent : IsIndent indent) (hinner : ¬ closer <:+: '*' :: (inner ++ ['*'])) {f : Text} :
    closer <:+: f ++ indent ++ (docOpener ++ inner) ↔ closer <:+: f ∨ f.getLast? = some '*' ∧ indent = [] := by
  rw [List.append_assoc, closer, pair_isInfix_append]
  constructor
  · rintro (h | h | ⟨hlast, hhead⟩)
    · exact .inl h
    · exact absurd h (not_closer_isInfix_lead hindent hinner)
    · right
      refine ⟨hlast, ?_⟩
      cases indent with
      | nil => rfl
      | cons d indent =>
        obtain rfl : d = '/' := by simpa using hhead
        rcases hindent '/' (by simp) with hslash | hslash <;> cases hslash
  · rintro (h | ⟨hlast, rfl⟩)
    · exact .inl h
    · exact .inr (.inr ⟨hlast, rfl⟩)

/-- The first character of a comment that was put behind a text makes no opener with the text. -/
lemma opener_isInfix_slash_iff (hindent : IsIndent indent) {f : Text} :
    opener <:+: f ++ indent ++ ['/'] ↔ opener <:+: f := by
  have hstar : '*' ∉ indent ++ ['/'] := by simpa using star_not_mem_indent hindent
  rw [List.append_assoc, opener, pair_isInfix_append]
  constructor
  · rintro (h | h | ⟨-, h⟩)
    · exact h
    · exact absurd h (not_isInfix_of_not_mem (by simp) hstar)
    · exact absurd (List.mem_of_head? h) hstar
  · exact .inl

/-- A text ends with a star exactly if what is behind its last closer does. -/
lemma getLast?_star_iff {e f : Text} (he : e = [] ∨ closer <:+ e) :
    (e ++ f).getLast? = some '*' ↔ f.getLast? = some '*' := by
  rcases List.eq_nil_or_concat' f with rfl | ⟨f, d, rfl⟩
  · rw [List.append_nil]
    rcases he with rfl | ⟨v, rfl⟩
    · exact Iff.rfl
    · simp [closer]
  · rw [← List.append_assoc, List.getLast?_concat, List.getLast?_concat]

/-- **A comment that was put behind a text** is the last one exactly if the text leaves no comment
open and lends no star to a closer. -/
lemma lastComment?_put_iff (hindent : IsIndent indent) (hinner : ¬ closer <:+: '*' :: (inner ++ ['*']))
    {front : Text} :
    lastComment? (front ++ indent ++ (docOpener ++ inner ++ closer)) =
        some (front ++ indent, docOpener ++ inner ++ closer) ↔
      ¬ opener <:+: (splitBehindLast closer front).2 ∧ (front.getLast? = some '*' → indent ≠ []) := by
  have hdoc : docOpener ++ inner = '/' :: '*' :: '*' :: inner := rfl
  rw [lastComment?_eq_some_iff]
  constructor
  · rintro ⟨e, f, c, hef, hc, -, hn, he, hb⟩
    obtain rfl : docOpener ++ inner = c := List.append_cancel_right hc
    obtain ⟨f, rfl, rfl⟩ := exists_of_closer_suffix hindent he hef
    rw [closer_isInfix_put_iff hindent hinner, not_or] at hn
    have hsplit : splitBehindLast closer (e ++ f) = (e, f) := (splitBehindLast_eq_iff (by decide)).mpr ⟨rfl, hn.1, he⟩
    rw [hsplit]
    rw [hdoc] at hb
    refine ⟨mt (opener_isInfix_slash_iff hindent).mpr (breakAt?_pair_iff.mp hb), fun hstar hnil => ?_⟩
    exact hn.2 ⟨(getLast?_star_iff he).mp hstar, hnil⟩
  · rintro ⟨hopen, hstar⟩
    obtain ⟨⟨e, f⟩, hsplit⟩ : ∃ found, splitBehindLast closer front = found := ⟨_, rfl⟩
    rw [hsplit] at hopen
    obtain ⟨rfl, hnf, he⟩ := (splitBehindLast_eq_iff (by decide)).mp hsplit
    refine ⟨e, f ++ indent, docOpener ++ inner, by simp, rfl, rfl, ?_, he, ?_⟩
    · rw [closer_isInfix_put_iff hindent hinner]
      rintro (h | ⟨h, hnil⟩)
      · exact hnf h
      · exact hstar ((getLast?_star_iff he).mpr h) hnil
    · rw [hdoc]
      exact breakAt?_pair_iff.mpr (mt (opener_isInfix_slash_iff hindent).mp hopen)

/-- **A comment that was put behind a text** is found, with just this text above it, exactly if the
text is settled. -/
lemma above?_put_iff (hindent : IsIndent indent) (hinner : ¬ closer <:+: '*' :: (inner ++ ['*'])) {front : Text} :
    above? (front ++ (indent ++ (docOpener ++ inner ++ closer)) ++ ['\n']) = some front ↔ Settled indent front := by
  have hsettled : Settled indent front ↔ lastComment? (front ++ indent ++ (docOpener ++ inner ++ closer)) =
        some (front ++ indent, docOpener ++ inner ++ closer) ∧ topOf (front ++ indent) = front := by
    rw [lastComment?_put_iff hindent hinner, topOf_append_iff hindent]
    constructor
    · rintro ⟨hclosed, hstar, hstart⟩
      exact ⟨⟨hclosed, fun h => absurd h hstar⟩, hstart⟩
    · rintro ⟨⟨hclosed, hstar⟩, hstart⟩
      refine ⟨hclosed, fun h => ?_, hstart⟩
      rcases hstart with (rfl | ⟨v, rfl⟩) | ⟨rfl, -⟩
      · cases h
      · simp at h
      · exact hstar h rfl
  rw [hsettled, above?_eq_some_iff]
  constructor
  · rintro ⟨front', comment, blanks, htext, hblanks, -, hlast, -, htop⟩
    obtain ⟨indent', hfront', hindent', -, -⟩ := topOf_append front'
    rw [← htop] at hfront'
    obtain ⟨e, f, c, -, rfl, -, -, -, hb⟩ := lastComment?_eq_some_iff.mp hlast
    obtain ⟨-, ⟨c', rfl⟩, -⟩ := breakAt?_eq_some_iff.mp hb
    -- what is found is the comment, with its own indentation
    have hsame : indent ++ '/' :: ('*' :: '*' :: inner ++ closer ++ ['\n']) =
        indent' ++ '/' :: ('*' :: c' ++ closer ++ blanks) := by
      rw [hfront'] at htext
      simpa [docOpener, opener] using htext
    obtain ⟨rfl, -, hrest⟩ := eq_of_white_append hindent.white hindent' (by decide) (by decide) hsame
    obtain ⟨hc', rfl⟩ := eq_of_append_white white_of_mem_break hblanks hrest
    obtain rfl : '*' :: inner = c' := (List.cons.inj hc').2
    rw [hfront'] at hlast htop
    exact ⟨hlast, htop.symm⟩
  · rintro ⟨hlast, htop⟩
    refine ⟨front ++ indent, docOpener ++ inner ++ closer, ['\n'], by simp, white_of_mem_break, le_rfl, hlast, ?_,
      htop.symm⟩
    have hdoc : docOpener ++ inner ++ closer = opener ++ ('*' :: inner ++ closer) := rfl
    rw [hdoc, isDoc_opener_iff (by simp [closer])]
    rfl

/-! ## Found stacks -/

/-- A text that ends with a closer and a line feed is settled. -/
lemma settled_of_closer (indent x : Text) : Settled indent (x ++ closer ++ ['\n']) := by
  have hsplit : splitBehindLast closer (x ++ closer ++ ['\n']) = (x ++ closer, ['\n']) :=
    (splitBehindLast_eq_iff (by decide)).mpr ⟨rfl, not_pair_isInfix_singleton, .inr (List.suffix_append x closer)⟩
  refine ⟨?_, by simp, .inl (.inr (List.suffix_append _ _))⟩
  rw [hsplit]
  exact not_pair_isInfix_singleton

/-- A stack that is not empty settles what is in front of it. -/
lemma settled_append_stack (front : Text) (hne : inners ≠ []) : Settled indent (front ++ stack indent inners) := by
  obtain ⟨is, i, rfl⟩ := (List.eq_nil_or_concat' inners).resolve_left hne
  have hshape : front ++ stack indent (is ++ [i]) =
      (front ++ stack indent is ++ (indent ++ (docOpener ++ i))) ++ closer ++ ['\n'] := by
    rw [stack_concat]
    simp
  rw [hshape]
  exact settled_of_closer indent _

/-- **A stack is found** by a search for as many comments, with just the text in front of it left
above, exactly if that text is settled. -/
lemma aboveRun_stack_iff (hindent : IsIndent indent) (hinners : ∀ inner ∈ inners, IsInner inner) (hne : inners ≠ [])
    {front : Text} :
    aboveRun inners.length (front ++ stack indent inners) = front ↔ Settled indent front := by
  induction inners using List.reverseRecOn with
  | nil => exact absurd rfl hne
  | append_singleton is i ih =>
    have hput := @above?_put_iff indent i hindent (hinners i (by simp)).closes (front ++ stack indent is)
    rw [stack_concat, ← List.append_assoc, ← List.append_assoc, List.length_append, List.length_singleton, aboveRun]
    by_cases his : is = []
    · subst his
      have hnil : front ++ stack indent [] = front := List.append_nil front
      rw [hnil] at hput ⊢
      rw [← hput]
      cases above? (front ++ (indent ++ (docOpener ++ i ++ closer)) ++ ['\n']) with
      | none => simp [docOpener]
      | some top => simp [aboveRun]
    · rw [hput.mpr (settled_append_stack front his)]
      exact ih (fun inner hinner => hinners inner (by simp [hinner])) his

/-- Whether a text starts neither with a line feed nor with a stack. -/
def StartsCode (t : Text) : Prop :=
  t.head? ≠ some '\n' ∧ ∀ indent u, IsIndent indent → t ≠ indent ++ (docOpener ++ '\n' :: u)

/-- In front of a text that starts code no line feed and no part of an indentation of a stack is
missing. -/
lemma StartsCode.not_append {z blanks u : Text} (hz : StartsCode z) (hindent : IsIndent indent)
    (hblanks : ∀ c ∈ blanks, isWhite c) : blanks ++ z ≠ '\n' :: (indent ++ (docOpener ++ '\n' :: u)) := by
  have hshape : '\n' :: (indent ++ (docOpener ++ '\n' :: u)) = ('\n' :: indent) ++ (docOpener ++ '\n' :: u) := rfl
  intro h
  rw [hshape] at h
  rcases List.append_eq_append_iff.mp h with ⟨m, hindents, rfl⟩ | ⟨m, hm, hrest⟩
  · cases blanks with
    | nil =>
      rw [List.nil_append] at hindents
      exact hz.1 (by rw [← hindents]; rfl)
    | cons c blanks =>
      obtain ⟨-, rfl⟩ := List.cons.inj hindents
      exact hz.2 m u (fun c hc => hindent c (by simp [hc])) rfl
  · cases m with
    | nil => exact hz.2 [] u (by simp [IsIndent]) (by simpa using hrest.symm)
    | cons c m =>
      -- the blanks would hold the slash of the opener
      obtain rfl : '/' = c := (List.cons.inj hrest).1
      have hslash := hblanks '/' (by rw [hm]; simp)
      revert hslash
      decide

/-- A text that starts code starts with no stack. -/
lemma StartsCode.ne_stack_append {t u : Text} (ht : StartsCode t) (hindent : IsIndent indent)
    (hinners : ∀ inner ∈ inners, IsInner inner) (hne : inners ≠ []) : t ≠ stack indent inners ++ u := by
  obtain ⟨inner, inners, rfl⟩ := List.exists_cons_of_ne_nil hne
  obtain ⟨inner, rfl⟩ := (hinners inner (by simp)).exists_cons
  intro h
  apply ht.2 indent (inner ++ closer ++ ['\n'] ++ stack indent inners ++ u) hindent
  rw [h]
  simp [stack]

/-- **What is found where a stack could stand** is the stack, or blanks stand between the stack and
the text behind what is found.

**Proof sketch.** The comments found end one by one where those of the stack do
(`align_of_append_eq`), so that the next comment of the stack would start in the text behind
them. -/
lemma eq_stack_or_blanks (hindent : IsIndent indent) (hinners : ∀ inner ∈ inners, IsInner inner) {front l z z' : Text}
    (hrun : aboveRun inners.length (front ++ l) = front) (hz : StartsCode z)
    (h : l ++ z = stack indent inners ++ z') :
    l = stack indent inners ∨
      ∃ x, x ≠ [] ∧ (∀ c ∈ x, isWhite c) ∧ '\n' ∉ x ∧ l = stack indent inners ++ x ∧ z' = x ++ z := by
  obtain ⟨l', ps, blanks, hl', hps, hlen, hends, hblanks, hbreaks⟩ := exists_of_aboveRun inners.length (front ++ l)
  rw [hrun] at hl'
  obtain rfl : l = l' := List.append_cancel_left hl'
  have hwhole : ps.flatten ++ (blanks ++ z) =
      (inners.map fun inner => '\n' :: (indent ++ (docOpener ++ inner ++ closer))).flatten ++ '\n' :: z' := by
    have hcons := congrArg ('\n' :: ·) h
    simp only [← List.cons_append, hps, cons_stack_eq] at hcons
    simpa using hcons
  have hstack : ∀ w ∈ inners.map fun inner => '\n' :: (indent ++ (docOpener ++ inner ++ closer)), EndsAtCloser w := by
    intro w hw
    obtain ⟨inner, hinner, rfl⟩ := List.mem_map.mp hw
    exact endsAtCloser_block hindent (hinners inner hinner)
  obtain ⟨qs, hqs, hrest⟩ := align_of_append_eq hends hstack (by simpa using hlen) hwhole
  cases qs with
  | cons q qs =>
    -- a comment of the stack would start in the text behind what is found
    exfalso
    obtain ⟨inner, hinner, hq⟩ := List.mem_map.mp (show q ∈ inners.map _ by rw [hqs]; simp)
    obtain ⟨inner, rfl⟩ := (hinners inner hinner).exists_cons
    apply hz.not_append hindent hblanks (u := inner ++ closer ++ (qs.flatten ++ '\n' :: z'))
    rw [hrest, List.flatten_cons, ← hq]
    simp
  | nil =>
    cases blanks with
    | nil => exact absurd (by rw [show z = '\n' :: z' from hrest]; rfl) hz.1
    | cons c x =>
      obtain ⟨rfl, hx⟩ := List.cons.inj hrest
      have hl : l = stack indent inners ++ x := by
        have hstacked := cons_stack_eq indent inners
        rw [hqs, List.append_nil] at hstacked
        have hcons : '\n' :: l = '\n' :: (stack indent inners ++ x) := by
          rw [hps, ← List.cons_append, hstacked]
          simp
        exact (List.cons.inj hcons).2
      by_cases hempty : x = []
      · left
        rw [hl, hempty, List.append_nil]
      · right
        refine ⟨x, hempty, fun d hd => hblanks d (by simp [hd]), ?_, hl, hx.symm⟩
        rw [lineBreaks, List.count_cons_self] at hbreaks
        exact List.count_eq_zero.mp (by omega)

end DocBlocks.Comment
