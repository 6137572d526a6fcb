import DocBlocks.Proofs.Annotation.Rewritten
import DocBlocks.Proofs.Comment.Stack
import DocBlocks.Proofs.Description.Closed

/-!
# Texts that stay as they are

A run that overwrites comments makes the text anew at each place where units have their comments:
what a search finds above the place gives way to the comments of the units there. The text stays as
it is exactly if this changes nothing at any place. It cannot happen that the changes at several
places make up for each other: behind a place there is code, and code starts neither with blanks nor
with a comment.

## Main definitions

* `CodeUnit.startsPlain`: the units that start with neither white space nor a slash.
* `Site`, `FallsApart`: a place in front of code, and a source that falls apart there.
* `renewed`: a text whose parts get new pieces for those that they lose.
* `Placed.ownBlock`, `stackAt`: the comments of the units at a place.
* `Stands`: whether these comments stand right above the place, where a search finds them.

## Main results

* `startsCode_of_insertionPoint?`: behind the place of a unit there is code.
* `Site.lost_eq_iff`: when a place keeps its text.
* `renewed_eq_iff`: changes do not make up for each other.
* `exists_rendered_renewed`: what an overwriting run makes of a source.
* `render_overwriting_fixed_iff`: the texts that an overwriting run leaves as they are.
-/

namespace DocBlocks

open Text Comment Splice

/-! ## Code behind a place -/

/-- Whether a unit of a source starts with neither white space nor a slash. -/
def CodeUnit.startsPlain (source : Text) (u : CodeUnit) : Bool :=
  (u.text source).head?.any fun c => !isWhite c && c ≠ '/'

/-- A declaration of a variable has a letter. -/
lemma exists_of_declaresVariable {inWord : Bool} {t : Text} (h : Placement.declaresVariable inWord t) :
    ∃ c ∈ t, c = 'c' ∨ c = 'l' ∨ c = 'v' := by
  induction t generalizing inWord with
  | nil => cases h
  | cons c t ih =>
    rw [Placement.declaresVariable, Bool.or_eq_true, Bool.and_eq_true] at h
    rcases h with ⟨-, h⟩ | h
    · refine ⟨c, by simp, ?_⟩
      rw [Placement.opensDeclaration, List.any_eq_true] at h
      obtain ⟨word, hword, h⟩ := h
      cases hrest : word.isPrefixOf? (c :: t) with
      | none => simp [hrest] at h
      | some rest =>
        have hprefix := List.isPrefixOf?_eq_some_iff_append_eq.mp hrest
        simp only [Placement.declarators, List.mem_cons, List.not_mem_nil, or_false] at hword
        rcases hword with rfl | rfl | rfl
        · exact .inl (List.cons.inj hprefix).1.symm
        · exact .inr (.inl (List.cons.inj hprefix).1.symm)
        · exact .inr (.inr (List.cons.inj hprefix).1.symm)
    · obtain ⟨d, hd, hletter⟩ := ih h
      exact ⟨d, by simp [hd], hletter⟩

/-- Modifiers end with white space. -/
lemma white_of_onlyModifiers {t : Text} (h : Placement.onlyModifiers t) : ∀ c, t.getLast? = some c → isWhite c := by
  intro c hc
  have hsplit := (List.takeWhile_append_dropWhile (p := Placement.isIndent) (l := t)).symm
  rw [Placement.onlyModifiers] at h
  by_cases hrest : t.dropWhile Placement.isIndent = []
  · rw [hrest, List.append_nil] at hsplit
    rw [hsplit] at hc
    have hindent := List.all_eq_true.mp List.all_takeWhile c (List.mem_of_getLast? hc)
    have hspace : c = ' ' ∨ c = '\t' := by simpa [Placement.isIndent] using hindent
    rcases hspace with rfl | rfl <;> decide
  · rw [hsplit, List.getLast?_append_of_ne_nil _ hrest] at hc
    simp only [hrest, decide_false, Bool.false_or, Bool.and_eq_true] at h
    obtain ⟨⟨-, hlast⟩, -⟩ := h
    rw [hc] at hlast
    simpa using hlast

/-- The indentation and the mark of a comment hold none of the letters of a declaration. -/
lemma not_declaresVariable_opens {indent front m : Text} (hindent : IsIndent indent)
    (hm : indent ++ docOpener = front ++ m) : Placement.declaresVariable false front = false := by
  by_contra h
  obtain ⟨c, hc, hletter⟩ := exists_of_declaresVariable (Bool.eq_true_of_not_eq_false h)
  have hmem : c ∈ indent ++ docOpener := by
    rw [hm]
    exact List.mem_append_left m hc
  rcases List.mem_append.mp hmem with hmem | hmem
  · rcases hindent c hmem with rfl | rfl <;> simp at hletter
  · rcases hletter with rfl | rfl | rfl <;> simp [docOpener] at hmem

/-- In the indentation and the mark of a comment, modifiers end in front of white space or a
slash. -/
lemma head_of_onlyModifiers_opens {indent front m : Text} (hindent : IsIndent indent)
    (hm : indent ++ docOpener = front ++ m) (hmodifiers : Placement.onlyModifiers front) :
    ∃ c t, m = c :: t ∧ (isWhite c ∨ c = '/') := by
  rcases List.append_eq_append_iff.mp hm with ⟨a, rfl, hopener⟩ | ⟨a, rfl, rfl⟩
  · rcases List.eq_nil_or_concat' a with rfl | ⟨a, c, rfl⟩
    · exact ⟨'/', ['*', '*'], hopener.symm, .inr rfl⟩
    · -- the front would end with a character of the mark
      exfalso
      have hc : c ∈ docOpener := by
        rw [hopener]
        simp
      have hwhite := white_of_onlyModifiers hmodifiers c (by simp)
      simp only [docOpener, List.mem_cons, List.not_mem_nil, or_false] at hc
      rcases hc with rfl | rfl | rfl <;> revert hwhite <;> decide
  · cases a with
    | nil => exact ⟨'/', ['*', '*'], rfl, .inr rfl⟩
    | cons c a => exact ⟨c, a ++ docOpener, rfl, .inl (hindent.white c (by simp))⟩

/-- What starts with neither white space nor a slash starts code. -/
lemma startsCode_plain {c : Char} {u : Text} (hwhite : isWhite c = false) (hslash : c ≠ '/') : StartsCode (c :: u) := by
  constructor
  · rintro ⟨⟩
    revert hwhite
    decide
  · rintro (_ | ⟨d, indent⟩) v hindent h
    · exact hslash (List.cons.inj h).1
    · obtain rfl : c = d := (List.cons.inj h).1
      rw [hindent.white c (by simp)] at hwhite
      cases hwhite

/-- A line that moves the comment of a unit to its start starts code, together with the unit. -/
lemma startsCode_of_moves {shape : CodeUnit.Shape} {front u : Text} {c : Char} (hmoves : Placement.moves shape front)
    (hline : '\n' ∉ front) (hwhite : isWhite c = false) (hslash : c ≠ '/') : StartsCode (front ++ c :: u) := by
  constructor
  · intro h
    cases front with
    | nil => exact (startsCode_plain hwhite hslash).1 h
    | cons d front =>
      obtain rfl : d = '\n' := by simpa using h
      exact hline (by simp)
  · intro indent v hindent h
    -- the front ends in the indentation or in the mark of the comment, in front of the line feed
    obtain ⟨m, hm, hrest⟩ : ∃ m, indent ++ docOpener = front ++ m ∧ c :: u = m ++ '\n' :: v := by
      rw [← List.append_assoc] at h
      rcases List.append_eq_append_iff.mp h with ⟨m, hm, hrest⟩ | ⟨m, hm, hrest⟩
      · exact ⟨m, hm, hrest⟩
      · cases m with
        | nil => exact ⟨[], by simpa using hm.symm, by simpa using hrest.symm⟩
        | cons d m =>
          obtain rfl : '\n' = d := (List.cons.inj hrest).1
          exact absurd (by rw [hm]; simp) hline
    cases shape with
    | arrow =>
      rw [Placement.moves, not_declaresVariable_opens hindent hm] at hmoves
      cases hmoves
    | function | method =>
      obtain ⟨d, t, rfl, hd⟩ := head_of_onlyModifiers_opens hindent hm hmoves
      obtain rfl : c = d := (List.cons.inj hrest).1
      rcases hd with hd | hd
      · rw [hd] at hwhite
        cases hwhite
      · exact hslash hd

/-- Whether something other than white space and slashes stands at a place of a source. -/
def PlainAt (source : Text) (n : Nat) : Prop :=
  ∃ front c t, source = front ++ c :: t ∧ bytes front = n ∧ isWhite c = false ∧ c ≠ '/'

lemma plainAt_of_startsPlain {source : Text} {u : CodeUnit} (h : u.startsPlain source) : PlainAt source u.span.start := by
  rw [CodeUnit.startsPlain, CodeUnit.text] at h
  cases hslice : source.slice? u.span.start u.span.stop with
  | none => simp [hslice] at h
  | some m =>
    obtain ⟨front, back, rfl, hstart, -⟩ := slice?_eq_some_iff.mp hslice
    rw [hslice, Option.getD_some] at h
    cases m with
    | nil => cases h
    | cons c m =>
      simp only [List.head?_cons, Option.any_some, Bool.and_eq_true, Bool.not_eq_true', decide_eq_true_eq] at h
      exact ⟨front, c, m ++ back, rfl, hstart, h.1, h.2⟩

/-- **Behind the place of a unit** there is code. The place starts a line, or the unit starts
there. -/
lemma startsCode_of_insertionPoint? {source : Text} {u : CodeUnit} {p : Nat} (hplain : PlainAt source u.span.start)
    (h : insertionPoint? source u.shape u.span.start = some p) :
    ∃ before back, source = before ++ back ∧ bytes before = p ∧ StartsCode back ∧
      (EndsLine before ∨ ∃ c t, back = c :: t ∧ isWhite c = false ∧ c ≠ '/') := by
  obtain ⟨front, c, t, rfl, hstart, hwhite, hslash⟩ := hplain
  obtain ⟨hfront, hline, hlines⟩ := splitLastLine_spec front
  rw [← hstart, insertionPoint?_append, Option.some.injEq] at h
  by_cases hmoves : Placement.moves u.shape (splitLastLine front).2
  · rw [if_pos hmoves] at h
    refine ⟨(splitLastLine front).1, (splitLastLine front).2 ++ c :: t, ?_, h, ?_, .inl hlines⟩
    · rw [← List.append_assoc, ← hfront]
    · exact startsCode_of_moves hmoves hline hwhite hslash
  · rw [if_neg hmoves] at h
    exact ⟨front, c :: t, rfl, h, startsCode_plain hwhite hslash, .inr ⟨c, t, rfl, hwhite, hslash⟩⟩

/-! ## What overwriting changes at a place -/

/-- Whether comments with the same indentation go to a place in front of code, where the text from a
top on gives way to them. The top is that of what a search for as many comments finds above the
place. -/
structure Site (source : Text) (top : Nat → Nat) (indent : Nat → Text) (inners : Nat → List Text) (p : Nat) : Prop where
  isIndent : IsIndent (indent p)
  isInner : ∀ inner ∈ inners p, IsInner inner
  inners_ne : inners p ≠ []
  top_le : top p ≤ p
  top_eq : ∀ before back, source = before ++ back → bytes before = p →
    top p = bytes (aboveRun (inners p).length before)
  code : ∀ before back, source = before ++ back → bytes before = p → StartsCode back
  plain : ∀ before back, source = before ++ back → bytes before = p →
    EndsLine before ∨ ∃ c t, back = c :: t ∧ isWhite c = false ∧ c ≠ '/'

/-- Whether a source falls, at a place, into the text in front of its part, the part, and the text
behind. The part starts with the source or with code. -/
structure FallsApart (source : Text) (top : Nat → Nat) (p : Nat) (front kept lost back : Text) : Prop where
  source_eq : source = front ++ (kept ++ (lost ++ back))
  bytes_kept : bytes (front ++ kept) = max (bytes front) (top p)
  bytes_lost : bytes (front ++ (kept ++ lost)) = p
  code : front = [] ∨ StartsCode (kept ++ (lost ++ back))

/-- Whether the comments for a place stand right above it, where a search finds them. -/
def StandsAt (source : Text) (indent : Nat → Text) (inners : Nat → List Text) (p : Nat) : Prop :=
  ∃ front back, source = front ++ stack (indent p) (inners p) ++ back ∧
    bytes (front ++ stack (indent p) (inners p)) = p ∧ Settled (indent p) front

section Site

variable {source : Text} {top : Nat → Nat} {indent : Nat → Text} {inners : Nat → List Text} {p : Nat}
  {front kept lost back : Text}

/-- Where the text behind what is kept starts with the comments for a place, a search above the
place finds all that is lost. -/
lemma Site.aboveRun_eq {u : Text} (hsite : Site source top indent inners p)
    (hapart : FallsApart source top p front kept lost back)
    (h : stack (indent p) (inners p) ++ u = lost ++ back) :
    aboveRun (inners p).length (front ++ kept ++ lost) = front ++ kept := by
  have hsplit : source = (front ++ kept ++ lost) ++ back := by
    rw [hapart.source_eq]
    simp
  have htop := hsite.top_eq _ _ hsplit (by rw [List.append_assoc]; exact hapart.bytes_lost)
  obtain ⟨m, hm⟩ := (blank_or_mem_blocksAbove (inners p).length (front ++ kept ++ lost)).1
  have hle : bytes front ≤ top p := by
    by_contra hlt
    have hkept : bytes kept = 0 := by
      have := hapart.bytes_kept
      rw [bytes_append] at this
      omega
    obtain rfl := bytes_eq_zero_iff.mp hkept
    rcases hapart.code with rfl | hcode
    · exact hlt (Nat.zero_le _)
    · exact hcode.ne_stack_append hsite.isIndent hsite.isInner hsite.inners_ne h.symm
  refine (append_inj_of_bytes hm ?_).1
  rw [hapart.bytes_kept, max_eq_right hle, htop]

/-- **A place keeps its text** exactly if its comments stand right above it, behind the place
before. -/
lemma Site.lost_eq_iff (hsite : Site source top indent inners p)
    (hapart : FallsApart source top p front kept lost back) :
    lost = stack (indent p) (inners p) ↔
      StandsAt source indent inners p ∧ bytes front + bytes (stack (indent p) (inners p)) ≤ p := by
  have hbytes := hapart.bytes_lost
  simp only [bytes_append] at hbytes
  constructor
  · rintro rfl
    have hrun := hsite.aboveRun_eq hapart rfl
    refine ⟨⟨front ++ kept, back, ?_, ?_, ?_⟩, by omega⟩
    · rw [hapart.source_eq]
      simp
    · simp only [bytes_append]
      omega
    · exact (aboveRun_stack_iff hsite.isIndent hsite.isInner hsite.inners_ne).mp hrun
  · rintro ⟨⟨front', back', hsource, hp, hsettled⟩, hle⟩
    have hrun := (aboveRun_stack_iff hsite.isIndent hsite.isInner hsite.inners_ne).mpr hsettled
    have htop := hsite.top_eq _ _ hsource hp
    rw [hrun] at htop
    rw [bytes_append] at hp
    have hkept := hapart.bytes_kept
    rw [htop, max_eq_right (by omega), bytes_append] at hkept
    have hsame : (front ++ kept) ++ (lost ++ back) = front' ++ (stack (indent p) (inners p) ++ back') := by
      rw [← List.append_assoc front', ← hsource, hapart.source_eq, List.append_assoc]
    obtain ⟨-, hrest⟩ := append_inj_of_bytes hsame (by rw [bytes_append, hkept])
    exact (append_inj_of_bytes hrest (by omega)).1

/-- **A change at a place** is not made up for by what follows: if the text from what is lost on
stays the same, then what is lost was the comments for the place. -/
lemma Site.eq_of_append_eq {u : Text} (hsite : Site source top indent inners p)
    (hapart : FallsApart source top p front kept lost back)
    (hblanks : ∀ x c t, x ≠ [] → (∀ d ∈ x, isWhite d) → back = c :: t → isWhite c = false → c ≠ '/' → u ≠ x ++ back)
    (h : stack (indent p) (inners p) ++ u = lost ++ back) : lost = stack (indent p) (inners p) ∧ u = back := by
  have hrun := hsite.aboveRun_eq hapart h
  have hsplit : source = (front ++ kept ++ lost) ++ back := by
    rw [hapart.source_eq]
    simp
  have hbytes : bytes (front ++ kept ++ lost) = p := by
    rw [List.append_assoc]
    exact hapart.bytes_lost
  rcases eq_stack_or_blanks hsite.isIndent hsite.isInner hrun (hsite.code _ _ hsplit hbytes) h.symm with
    rfl | ⟨x, hx, hwhite, hline, rfl, hu⟩
  · exact ⟨rfl, List.append_cancel_left h⟩
  · exfalso
    rcases hsite.plain _ _ hsplit hbytes with hends | ⟨c, t, hc, hplain, hslash⟩
    · -- the line of the place has the blanks
      rw [← List.append_assoc, endsLine_iff, splitLastLine_append hline] at hends
      exact hx (List.append_eq_nil_iff.mp hends).2
    · exact hblanks x c t hx hwhite hc hplain hslash hu

end Site

/-! ## What overwriting changes -/

/-- A text whose parts get new pieces for those that they lose. -/
def renewed (added : Nat → Text) (parts : List Part) (places : List Nat) (rest : Text) : Text :=
  (List.zipWith (fun x p => x.kept ++ added p) parts places).flatten ++ rest

@[simp]
lemma renewed_nil (added : Nat → Text) (rest : Text) : renewed added [] [] rest = rest := rfl

@[simp]
lemma renewed_cons (added : Nat → Text) (x : Part) (parts : List Part) (p : Nat) (places : List Nat) (rest : Text) :
    renewed added (x :: parts) (p :: places) rest = x.kept ++ (added p ++ renewed added parts places rest) := by
  simp [renewed]

section Sites

variable {source : Text} {top : Nat → Nat} {indent : Nat → Text} {inners : Nat → List Text} {places : List Nat}
  {parts : List Part} {rest : Text}

/-- A text that starts plainly gets no blanks in front: the first place keeps what is in front of
it, or gets a comment with its indentation. -/
lemma renewed_ne_blanks {last : Nat} {x t : Text} {c : Char}
    (hsites : ∀ p ∈ places, Site source top indent inners p)
    (hparts : cutOut? last (clearedFrom top last places) (c :: t) = some (parts, rest)) (hx : x ≠ [])
    (hwhite : ∀ d ∈ x, isWhite d) (hplain : isWhite c = false) (hslash : c ≠ '/') :
    renewed (fun p => stack (indent p) (inners p)) parts places rest ≠ x ++ c :: t := by
  intro h
  cases places with
  | nil =>
    obtain ⟨rfl, rfl⟩ : [] = parts ∧ c :: t = rest := by simpa [cutOut?, clearedFrom] using hparts
    rw [renewed_nil] at h
    exact hx (List.append_left_eq_self.mp h.symm)
  | cons p places =>
    obtain ⟨kept, lost, back, parts, htext, -, -, rfl, -⟩ := exists_of_cutOut?_cons hparts
    have hsite := hsites p (by simp)
    obtain ⟨inner, inners', hinners⟩ := List.exists_cons_of_ne_nil hsite.inners_ne
    rw [renewed_cons] at h
    cases kept with
    | nil =>
      have hopens : indent p ++ '/' :: (['*', '*'] ++ inner ++ closer ++ ['\n'] ++ (stack (indent p) inners' ++
          renewed (fun p => stack (indent p) (inners p)) parts places rest)) = x ++ c :: t := by
        rw [← h, hinners]
        simp [stack, docOpener]
      exact hslash (eq_of_white_append hsite.isIndent.white hwhite (by decide) hplain hopens).2.1.symm
    | cons d kept =>
      obtain rfl : c = d := (List.cons.inj htext).1
      cases x with
      | nil => exact hx rfl
      | cons e x =>
        obtain rfl : c = e := (List.cons.inj h).1
        rw [hwhite c (by simp)] at hplain
        cases hplain

/-- What holds at ascending places, each with room behind the place before, holds at the first place
and at those behind it. -/
lemma forall_cons_room_iff {P : Nat → Prop} {size : Nat → Nat} {last p : Nat} (hle : last ≤ p)
    (hp : ∀ q ∈ places, p < q) :
    (P p ∧ last + size p ≤ p) ∧ (∀ q ∈ places, P q ∧ p + size q ≤ q ∧ ∀ q' ∈ places, q' < q → q' + size q ≤ q) ↔
      ∀ q ∈ p :: places, P q ∧ last + size q ≤ q ∧ ∀ q' ∈ p :: places, q' < q → q' + size q ≤ q := by
  constructor
  · rintro ⟨⟨hfirst, hroom⟩, hothers⟩ q hq
    rcases List.mem_cons.mp hq with rfl | hq
    · refine ⟨hfirst, hroom, fun q' hq' hlt => ?_⟩
      rcases List.mem_cons.mp hq' with rfl | hq'
      · exact absurd hlt (Nat.lt_irrefl _)
      · exact absurd hlt (Nat.lt_asymm (hp q' hq'))
    · obtain ⟨hholds, hroom, hbetween⟩ := hothers q hq
      refine ⟨hholds, by omega, fun q' hq' hlt => ?_⟩
      rcases List.mem_cons.mp hq' with rfl | hq'
      · exact hroom
      · exact hbetween q' hq' hlt
  · intro hall
    obtain ⟨hfirst, hroom, -⟩ := hall p (by simp)
    refine ⟨⟨hfirst, hroom⟩, fun q hq => ?_⟩
    obtain ⟨hholds, -, hbetween⟩ := hall q (by simp [hq])
    exact ⟨hholds, hbetween p (by simp) (hp q hq), fun q' hq' => hbetween q' (by simp [hq'])⟩

/-- **Changes do not make up for each other**: a text stays the same exactly if at each place the
comments for it stand right above it, behind the place before.

**Proof sketch.** Induction on the places. The text behind a place starts code, so that it starts
with no part of the comments for the place (`Site.eq_of_append_eq`). -/
lemma renewed_eq_iff (front back : Text) (hsource : source = front ++ back) (hplaces : places.Pairwise (· < ·))
    (hfront : ∀ p ∈ places, bytes front ≤ p) (hsites : ∀ p ∈ places, Site source top indent inners p)
    (hcode : front = [] ∨ StartsCode back)
    (hparts : cutOut? (bytes front) (clearedFrom top (bytes front) places) back = some (parts, rest)) :
    renewed (fun p => stack (indent p) (inners p)) parts places rest = back ↔
      ∀ p ∈ places, StandsAt source indent inners p ∧ bytes front + bytes (stack (indent p) (inners p)) ≤ p ∧
        ∀ q ∈ places, q < p → q + bytes (stack (indent p) (inners p)) ≤ p := by
  induction places generalizing front back parts with
  | nil =>
    obtain ⟨rfl, rfl⟩ : [] = parts ∧ back = rest := by simpa [cutOut?, clearedFrom] using hparts
    simp
  | cons p places ih =>
    obtain ⟨hp, hrest⟩ := List.pairwise_cons.mp hplaces
    have hle := hfront p (by simp)
    have hsite := hsites p (by simp)
    have htop := hsite.top_le
    obtain ⟨kept, lost, back', parts, rfl, hkept, hlost, rfl, hbelow⟩ := exists_of_cutOut?_cons hparts
    simp only at hkept hlost
    have hnext : bytes (front ++ (kept ++ lost)) = p := by
      simp only [bytes_append]
      omega
    have hapart : FallsApart source top p front kept lost back' :=
      ⟨hsource, by rw [bytes_append]; omega, hnext, hcode⟩
    have hsource' : source = (front ++ (kept ++ lost)) ++ back' := by
      rw [hsource]
      simp
    have hbehind := ih (front ++ (kept ++ lost)) back' hsource' hrest (fun q hq => by rw [hnext]; exact (hp q hq).le)
      (fun q hq => hsites q (by simp [hq])) (.inr (hsite.code _ _ hsource' hnext)) (by rwa [hnext])
    rw [hnext] at hbehind
    -- the text stays the same if it does at the first place and behind it
    have hstep : renewed (fun p => stack (indent p) (inners p)) (⟨kept, lost⟩ :: parts) (p :: places) rest =
          kept ++ (lost ++ back') ↔
        lost = stack (indent p) (inners p) ∧
          renewed (fun p => stack (indent p) (inners p)) parts places rest = back' := by
      rw [renewed_cons, List.append_cancel_left_eq]
      constructor
      · refine hsite.eq_of_append_eq hapart fun x c t hx hwhite hback hplain hslash => ?_
        subst hback
        exact renewed_ne_blanks (fun q hq => hsites q (by simp [hq])) hbelow hx hwhite hplain hslash
      · rintro ⟨rfl, hsame⟩
        rw [hsame]
    rw [hstep, hsite.lost_eq_iff hapart, hbehind]
    exact @forall_cons_room_iff places (StandsAt source indent inners)
      (fun q => bytes (stack (indent q) (inners q))) _ _ hle hp

end Sites

/-! ## The comments of the units at a place -/

/-- The comment of a unit in its place, made from what is known about the unit, with a line feed. -/
def Placed.ownBlock (q : Placed) : Text := CodeUnit.block { q.unit with summary := q.unit.summarize } q.indent ++ ['\n']

/-- The comments for a place, one above the other, in the order of the units there. -/
def stackAt (placed : List Placed) (p : Nat) : Text := (placed.filter (·.point = p)).flatMap Placed.ownBlock

/-- Whether the comments for the place of a unit stand right above it, where a search finds them,
with no other place inside. -/
structure Stands (source : Text) (placed : List Placed) (q : Placed) : Prop where
  above : ∃ front back, source = front ++ stackAt placed q.point ++ back ∧
    bytes (front ++ stackAt placed q.point) = q.point ∧ Settled q.indent front
  alone : ∀ q' ∈ placed, q'.point < q.point → q'.point + bytes (stackAt placed q.point) ≤ q.point

/-- The indentation of a place. -/
def indentAt (source : Text) (p : Nat) : Text := (indentationAt? source p).getD []

/-- The insides of the comments for a place. -/
def insidesAt (placed : List Placed) (p : Nat) : List Text :=
  (placed.filter (·.point = p)).map fun q => CodeUnit.inside { q.unit with summary := q.unit.summarize } q.indent

section Own

variable {source : Text} {units : List CodeUnit} {placed : List Placed}

/-- The indentation of a unit is that of its place. -/
lemma indent_eq_indentAt (hplaced : units.map (Placed.of? source) = placed.map some) {q : Placed} (hq : q ∈ placed) :
    q.indent = indentAt source q.point := by
  obtain ⟨u, -, hu⟩ := exists_mem_of_mapM (mapM_eq_some_iff.mpr hplaced) hq
  rw [indentAt, (Placed.of?_eq_some_iff.mp hu).2.2]
  rfl

/-- The comments for a place are a stack. -/
lemma stackAt_eq (hplaced : units.map (Placed.of? source) = placed.map some) (p : Nat) :
    stackAt placed p = stack (indentAt source p) (insidesAt placed p) := by
  rw [stackAt, stack, insidesAt, List.flatMap_map]
  refine List.flatMap_congr fun q hq => ?_
  obtain ⟨hmem, hp⟩ := List.mem_filter.mp hq
  obtain rfl : q.point = p := by simpa using hp
  rw [Placed.ownBlock, CodeUnit.block_eq_inside, indent_eq_indentAt hplaced hmem]

/-- The edits of a run without a generator put the comments for each place in. -/
lemma addedAt_editsOf {targets : List Target} (htargets : targets.map Target.toPlaced = placed) (p : Nat) :
    addedAt (editsOf targets) p = stackAt placed p := by
  rw [← htargets, stackAt, addedAt, editsOf, List.filter_map, List.filter_map, List.flatMap_map, List.flatMap_map]
  rfl

/-- The top of what stands above a place is that of what a search finds. -/
lemma topAt_append {points : List Nat} {before back : Text} (hcount : 0 < points.count (bytes before)) :
    topAt (before ++ back) points (bytes before) = bytes (aboveRun (points.count (bytes before)) before) := by
  obtain ⟨n, hn⟩ := Nat.exists_eq_add_of_le' hcount
  rw [topAt, standing?, precedingRun?, splitAt?_append, hn, aboveRun, Nat.add_sub_cancel]
  simp only
  cases above? before with
  | none => rfl
  | some top => rfl

/-- **The places of units** are sites for their comments, if these show no closers and the units
start plainly. -/
lemma site_of_placed (hplaced : units.map (Placed.of? source) = placed.map some)
    (hshown : ∀ u ∈ units, CodeUnit.ShowsNoCloser { u with summary := u.summarize })
    (hplain : ∀ u ∈ units, PlainAt source u.span.start) {q : Placed} (hq : q ∈ placed) :
    Site source (topAt source (placed.map Placed.point)) (indentAt source) (insidesAt placed) q.point := by
  have hunit : ∀ q ∈ placed, q.unit ∈ units ∧ insertionPoint? source q.unit.shape q.unit.span.start = some q.point ∧
      IsIndent q.indent := by
    intro q hq
    obtain ⟨u, hu, hof⟩ := exists_mem_of_mapM (mapM_eq_some_iff.mpr hplaced) hq
    obtain ⟨rfl, hpoint, hindent⟩ := Placed.of?_eq_some_iff.mp hof
    exact ⟨hu, hpoint, isIndent_of_indentationAt? hindent⟩
  obtain ⟨hu, hpoint, hindent⟩ := hunit q hq
  obtain ⟨before, back, hsource, hbefore, hcode, hends⟩ := startsCode_of_insertionPoint? (hplain _ hu) hpoint
  have hsplit : ∀ before' back', source = before' ++ back' → bytes before' = q.point →
      before' = before ∧ back' = back := by
    intro before' back' hsource' hbefore'
    exact append_inj_of_bytes (hsource'.symm.trans hsource) (hbefore'.trans hbefore.symm)
  have hmem : q ∈ placed.filter (·.point = q.point) := List.mem_filter.mpr ⟨hq, by simp⟩
  have hcount : (placed.map Placed.point).count q.point = (insidesAt placed q.point).length := by
    rw [insidesAt, List.length_map, List.count_eq_length_filter, List.filter_map, List.length_map]
    rfl
  have hne : insidesAt placed q.point ≠ [] := by
    rw [insidesAt, ne_eq, List.map_eq_nil_iff]
    exact List.ne_nil_of_mem hmem
  refine ⟨?_, ?_, hne, topAt_le _ _, ?_, ?_, ?_⟩
  · rw [← indent_eq_indentAt hplaced hq]
    exact hindent
  · intro inner hinner
    obtain ⟨q', hq', rfl⟩ := List.mem_map.mp hinner
    obtain ⟨hu', -, hindent'⟩ := hunit q' (List.mem_of_mem_filter hq')
    exact ⟨CodeUnit.head?_inside _ _, CodeUnit.not_closer_isInfix_inside (hshown _ hu') (star_not_mem_indent hindent')⟩
  · intro before' back' hsource' hbefore'
    rw [← hcount, ← hbefore', hsource']
    apply topAt_append
    rw [hbefore', hcount]
    exact List.length_pos_of_ne_nil hne
  · intro before' back' hsource' hbefore'
    rw [(hsplit before' back' hsource' hbefore').2]
    exact hcode
  · intro before' back' hsource' hbefore'
    rw [(hsplit before' back' hsource' hbefore').1, (hsplit before' back' hsource' hbefore').2]
    exact hends

end Own

/-! ## Texts that stay the same -/

section Renewed

variable {source : Text} {units : List CodeUnit} {placed : List Placed} {places : List Nat} {parts : List Part}
  {rest : Text}

/-- What an overwriting run without a generator makes of an accepted source with units. -/
lemma exists_rendered_renewed {s : Session} {path : Text} {d : Dialect} (hpath : Path.dialect? path = some d)
    (hread : Disk.read s.disk path = .ok source) (hunits : extract d source = .ok units) (hne : units ≠ [])
    (hplaced : units.map (Placed.of? source) = placed.map some) :
    ∃ (r : Rendered) (places : List Nat) (parts : List Part) (rest : Text),
      (s.render none true path).1 = .ok (.rendered r) ∧ places.Pairwise (· < ·) ∧
      (∀ p, p ∈ places ↔ ∃ q ∈ placed, q.point = p) ∧
      cutOut? 0 (clearedFrom (topAt source (placed.map Placed.point)) 0 places) source = some (parts, rest) ∧
      r.text = renewed (stackAt placed) parts places rest := by
  obtain ⟨targets, hamong⟩ : ∃ targets, targetsAmong source true (placed.map Placed.point) [] placed = targets :=
    ⟨_, rfl⟩
  have hchosen := map_targetsAmong_overwriting source (placed.map Placed.point) [] placed
  rw [hamong] at hchosen
  have hsome : targets ≠ [] := by
    rintro rfl
    obtain rfl : placed = [] := hchosen.symm
    exact hne (List.map_eq_nil_iff.mp hplaced)
  obtain ⟨r, places, parts, rest, hr, -, hascend, hmem, hparts, htext⟩ :=
    exists_rendered_parts (g := none) hpath hread hunits hplaced hamong hsome
  rw [Session.editsFor_none, funext (addedAt_editsOf hchosen)] at htext
  refine ⟨r, places, parts, rest, hr, hascend, fun p => ?_, hparts, htext⟩
  rw [hmem, isTargeted, Bool.true_or, List.mem_map]
  simp

/-- A source is made again exactly if above each place the comments for it stand already. -/
lemma renewed_stackAt_eq_iff (hplaced : units.map (Placed.of? source) = placed.map some)
    (hshown : ∀ u ∈ units, CodeUnit.ShowsNoCloser { u with summary := u.summarize })
    (hplain : ∀ u ∈ units, PlainAt source u.span.start) (hascend : places.Pairwise (· < ·))
    (hplaces : ∀ p, p ∈ places ↔ ∃ q ∈ placed, q.point = p)
    (hparts : cutOut? 0 (clearedFrom (topAt source (placed.map Placed.point)) 0 places) source = some (parts, rest)) :
    renewed (stackAt placed) parts places rest = source ↔ ∀ q ∈ placed, Stands source placed q := by
  have hstack : (fun p => stack (indentAt source p) (insidesAt placed p)) = stackAt placed :=
    funext fun p => (stackAt_eq hplaced p).symm
  have hfixed := renewed_eq_iff [] source (show source = [] ++ source from rfl) hascend (fun _ _ => Nat.zero_le _)
    (fun p hp => by
      obtain ⟨q, hq, rfl⟩ := (hplaces p).mp hp
      exact site_of_placed hplaced hshown hplain hq)
    (.inl rfl) hparts
  rw [hstack] at hfixed
  rw [hfixed]
  simp only [StandsAt, ← stackAt_eq hplaced]
  constructor
  · intro hall q hq
    obtain ⟨habove, -, halone⟩ := hall q.point ((hplaces _).mpr ⟨q, hq, rfl⟩)
    rw [← indent_eq_indentAt hplaced hq] at habove
    exact ⟨habove, fun q' hq' hlt => halone _ ((hplaces _).mpr ⟨q', hq', rfl⟩) hlt⟩
  · intro hall p hp
    obtain ⟨q, hq, rfl⟩ := (hplaces p).mp hp
    obtain ⟨habove, halone⟩ := hall q hq
    rw [← indent_eq_indentAt hplaced hq]
    refine ⟨habove, ?_, fun p' hp' hlt => ?_⟩
    · obtain ⟨front, back, -, hbytes, -⟩ := habove
      rw [bytes_append] at hbytes
      simp only [bytes, Nat.zero_add]
      omega
    · obtain ⟨q', hq', rfl⟩ := (hplaces p').mp hp'
      exact halone q' hq' hlt

end Renewed

/-- **Texts that stay the same.** A run that overwrites comments with those made from what is known
about the units renders a new text for every accepted source with units. The text is the source
again exactly if above the place of each unit the comments of the units there stand already: one for
each of them in their order, right above the place, with no other place inside, and behind a text
that a search takes for no part of them. So a second run leaves the text of a first one as it is
exactly if that text is such a source.

**Proof sketch.** The source falls into a part for each place (`exists_rendered_renewed`), and what
each part loses is what a search finds above the place (`site_of_placed`). Changes at several places
do not make up for each other (`renewed_eq_iff`). -/
theorem render_overwriting_fixed_iff {s : Session} {path source : Text} {d : Dialect} {units : List CodeUnit}
    {placed : List Placed} (hpath : Path.dialect? path = some d) (hread : Disk.read s.disk path = .ok source)
    (hunits : extract d source = .ok units) (hne : units ≠ [])
    (hplaced : units.map (Placed.of? source) = placed.map some)
    (hshown : ∀ u ∈ units, CodeUnit.ShowsNoCloser { u with summary := u.summarize })
    (hplain : ∀ u ∈ units, u.startsPlain source) :
    ∃ r, (s.render none true path).1 = .ok (.rendered r) ∧
      (r.text = source ↔ ∀ q ∈ placed, Stands source placed q) := by
  obtain ⟨r, places, parts, rest, hr, hascend, hplaces, hparts, htext⟩ :=
    exists_rendered_renewed hpath hread hunits hne hplaced
  refine ⟨r, hr, ?_⟩
  rw [htext]
  exact renewed_stackAt_eq_iff hplaced hshown (fun u hu => plainAt_of_startsPlain (hplain u hu)) hascend hplaces hparts

/-- Two arrow functions share a line and the two comments above it, which stay as they are. -/
theorem render_overwriting_fixed_shared :
    ∃ r, ((Session.withFile "a.js".toList
          "/**\n * Performs f\n */\n/**\n * Performs g\n */\nconst f=()=>1,g=()=>2".toList).render none true
        "a.js".toList).1 = .ok (.rendered r) ∧
      r.text = "/**\n * Performs f\n */\n/**\n * Performs g\n */\nconst f=()=>1,g=()=>2".toList := by
  obtain ⟨r, hr, hfixed⟩ := @render_overwriting_fixed_iff
    (Session.withFile "a.js".toList
      "/**\n * Performs f\n */\n/**\n * Performs g\n */\nconst f=()=>1,g=()=>2".toList) "a.js".toList
    "/**\n * Performs f\n */\n/**\n * Performs g\n */\nconst f=()=>1,g=()=>2".toList .javaScript
    [⟨"f".toList, .arrow, [], none, ⟨52, 57⟩, false, [], []⟩, ⟨"g".toList, .arrow, [], none, ⟨60, 65⟩, false, [], []⟩]
    [⟨⟨"f".toList, .arrow, [], none, ⟨52, 57⟩, false, [], []⟩, 44, []⟩,
      ⟨⟨"g".toList, .arrow, [], none, ⟨60, 65⟩, false, [], []⟩, 44, []⟩]
    (by decide +kernel) rfl (by decide +kernel) (by simp) (by decide +kernel) (by decide +kernel) (by decide +kernel)
  refine ⟨r, hr, hfixed.mpr fun q hq => ?_⟩
  -- both units have the same place, and nothing stands in front of the comments
  have hsettled : Settled [] [] := ⟨by decide, by decide, .inl (.inl rfl)⟩
  rcases List.mem_cons.mp hq with rfl | hq
  · exact ⟨⟨[], "const f=()=>1,g=()=>2".toList, by decide +kernel, by decide +kernel, hsettled⟩, by decide⟩
  · obtain rfl := List.mem_singleton.mp hq
    exact ⟨⟨[], "const f=()=>1,g=()=>2".toList, by decide +kernel, by decide +kernel, hsettled⟩, by decide⟩

/-- A function declaration gets its comment in the middle of a line, whose start has the comment of
an arrow function behind the declaration. That breaks the line in two, so that a second run takes
the start of the second line for the place of both comments, and puts a second comment for the arrow
function there. -/
theorem render_overwriting_adds :
    ((Session.withFile "a.js".toList "0;function f(){}const g=()=>1".toList).render none true "a.js".toList).1 =
        .ok (.rendered ⟨"a.js".toList, "0;function f(){}const g=()=>1".toList,
          "/**\n * Performs g\n */\n0;/**\n * Performs f\n */\nfunction f(){}const g=()=>1".toList,
          ["Add comment for g at line 1".toList, "Add comment for f at line 1".toList]⟩) ∧
      ((Session.withFile "a.js".toList
          "/**\n * Performs g\n */\n0;/**\n * Performs f\n */\nfunction f(){}const g=()=>1".toList).render none true
          "a.js".toList).1 =
        .ok (.rendered ⟨"a.js".toList,
          "/**\n * Performs g\n */\n0;/**\n * Performs f\n */\nfunction f(){}const g=()=>1".toList,
          ("/**\n * Performs g\n */\n0;/**\n * Performs f\n */\n/**\n * Performs g\n */\n" ++
            "function f(){}const g=()=>1").toList,
          ["Replace comment for f at line 7".toList, "Add comment for g at line 7".toList]⟩) := by
  decide +kernel

end DocBlocks
