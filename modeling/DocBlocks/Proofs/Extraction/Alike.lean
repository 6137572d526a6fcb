import DocBlocks.Proofs.Extraction.Accepted
import DocBlocks.Proofs.Extraction.Shown
import DocBlocks.Proofs.Splice.Insert
import Mathlib.Data.List.Forall2

/-!
# Trees that are alike

A parser reads a text with comments put into it as it reads the text without them: the tree has the
same nodes, and where a node starts and stops has moved with the text.

## Main definitions

* `Extraction.alike`: whether a tree of a text is the tree of another text, with comments put in.
-/

namespace DocBlocks.Extraction

open Syntax Text

/-! ## Likeness -/

/-- Whether a node in a role is one of those whose texts a unit shows. -/
def opensHead (r : Option Role) : Bool :=
  r = some .name || r = some .parameters || r = some .parameter || r = some .returnType

/-- Whether a node may come and go with the comments of a text: a comment, or the empty token that
stands for the end of a statement. In front of the name of a rest parameter a comment counts, since
the first part tells the name. -/
def extra (rest : Bool) (t : Tree) : Bool :=
  t.parts.isEmpty && t.role.isNone && !t.missing && (t.isToken "" || (t.hasKind .comment && !rest))

/-- Whether the texts of two nodes, each in its source, agree if they are names. -/
def spelledAlike (source source' : Text) (t u : Tree) : Bool :=
  !(t.hasKind .identifier || t.hasKind .propertyIdentifier) || textOf source t = textOf source' u

/-- The kinds of the nodes of units. -/
def unitKinds : List Kind := [.functionDeclaration, .generatorFunctionDeclaration, .methodDefinition, .arrowFunction]

/-- Whether the node of a unit starts where its start has moved with its source. -/
def startsAlike (edits : List Edit) (t u : Tree) : Bool :=
  !unitKinds.any (t.hasKind ·) || u.start = Splice.moved edits t.start

/-- Whether a node has moved with its source. -/
def moves (edits : List Edit) (t u : Tree) : Bool :=
  u.start = Splice.moved edits t.start && u.stop = Splice.movedEnd edits t.stop

mutual

/-- Whether a tree of `source'` is a tree of `source`, with what edits put in: nodes are labelled
alike, names are spelled alike, and the starts of units and the nodes whose texts a unit shows have
moved with the source. `head` tells that the tree is below such a node. -/
def alike (source source' : Text) (edits : List Edit) (head : Bool) : Tree → Tree → Bool
  | .mk l r m s e ps, u =>
    let t := Tree.mk l r m s e ps
    let head := head || opensHead r
    l = u.label && r = u.role && m = u.missing && spelledAlike source source' t u && startsAlike edits t u &&
      (!head || moves edits t u) && alikeAmong source source' edits head (l = .node .restPattern) ps u.parts

/-- Whether two lists of trees are alike but for what comes and goes. -/
def alikeAmong (source source' : Text) (edits : List Edit) (head rest : Bool) : List Tree → List Tree → Bool
  | [], us => us.all (extra rest)
  | t :: ts, us =>
    if extra rest t then alikeAmong source source' edits head rest ts us
    else
      match us.dropWhile (extra rest) with
      | [] => false
      | u :: us => alike source source' edits head t u && alikeAmong source source' edits head rest ts us

end

/-- The parts of a node, without those that come and go. -/
def kept (t : Tree) : List Tree := t.parts.filter fun p => !extra (t.label = .node .restPattern) p

section Relation

variable {source source' : Text} {edits : List Edit} {head rest : Bool}

/-- Lists of trees are alike if, without what comes and goes, they are so one by one. -/
lemma alikeAmong_iff (ts us : List Tree) :
    alikeAmong source source' edits head rest ts us ↔
      List.Forall₂ (fun t u => alike source source' edits head t u) (ts.filter (!extra rest ·)) (us.filter (!extra rest ·)) := by
  induction ts generalizing us with
  | nil => simp [alikeAmong, List.filter_eq_nil_iff]
  | cons t ts ih =>
    rw [alikeAmong]
    by_cases ht : extra rest t
    · rw [if_pos ht, List.filter_cons_of_neg (by simp [ht]), ih]
    · have hus : us.filter (!extra rest ·) = (us.dropWhile (extra rest)).filter (!extra rest ·) := by
        conv_lhs => rw [← List.takeWhile_append_dropWhile (p := extra rest) (l := us), List.filter_append]
        rw [List.filter_eq_nil_iff.mpr, List.nil_append]
        intro u hu
        simp [List.all_eq_true.mp List.all_takeWhile u hu]
      rw [if_neg ht, List.filter_cons_of_pos (by simp [ht]), hus]
      have hfirst := List.head?_dropWhile_not (extra rest) us
      split
      · rename_i hnil
        simp [hnil]
      · rename_i u us' hcons
        rw [hcons] at hfirst ⊢
        rw [List.filter_cons_of_pos (by simpa using hfirst), List.forall₂_cons, ← ih, Bool.and_eq_true]

/-- What it is for two nodes to be alike: but for what comes and goes, their parts are so one by
one. -/
structure Agree (source source' : Text) (edits : List Edit) (head : Bool) (t u : Tree) : Prop where
  label : t.label = u.label
  role : t.role = u.role
  missing : t.missing = u.missing
  spelled : spelledAlike source source' t u
  starts : startsAlike edits t u
  moved : head || opensHead t.role → moves edits t u
  parts : List.Forall₂ (fun p q => alike source source' edits (head || opensHead t.role) p q) (kept t) (kept u)

variable {t u : Tree}

lemma alike_iff_agree : alike source source' edits head t u ↔ Agree source source' edits head t u := by
  obtain ⟨l, r, m, s, e, ps⟩ := t
  rw [alike]
  simp only [Bool.and_eq_true, decide_eq_true_eq, Bool.or_eq_true, Bool.not_eq_true', alikeAmong_iff, and_assoc]
  constructor
  · rintro ⟨hl, hr, hm, hspelled, hstarts, hmoved, hparts⟩
    rw [hl] at hparts
    refine ⟨hl, hr, hm, hspelled, hstarts, fun hhead => hmoved.resolve_left (ne_false_of_eq_true hhead), ?_⟩
    rw [kept, kept, Tree.label, hl]
    exact hparts
  · rintro ⟨hl, hr, hm, hspelled, hstarts, hmoved, hparts⟩
    obtain rfl : l = u.label := hl
    refine ⟨rfl, hr, hm, hspelled, hstarts, ?_, hparts⟩
    rw [or_iff_not_imp_left, Bool.not_eq_false]
    exact hmoved

lemma agree_of_alike (h : alike source source' edits head t u) : Agree source source' edits head t u :=
  alike_iff_agree.mp h

/-- **Induction over trees that are alike**: what holds of two nodes if it holds of their parts, one
by one and without what comes and goes, holds of all. -/
lemma alike_induct {P : Bool → Tree → Tree → Prop}
    (node : ∀ head t u, Agree source source' edits head t u →
      List.Forall₂ (fun p q => Agree source source' edits (head || opensHead t.role) p q ∧
        P (head || opensHead t.role) p q) (kept t) (kept u) → P head t u)
    (t : Tree) : ∀ head u, alike source source' edits head t u → P head t u := by
  induction t using Tree.induct with
  | node t ih =>
    intro head u h
    have hagree := agree_of_alike h
    refine node head t u hagree ?_
    refine ((List.forall₂_and_left _ _).mpr ⟨fun p hp => ih p (List.mem_of_mem_filter hp), hagree.parts⟩).imp ?_
    rintro p q ⟨hp, hpq⟩
    exact ⟨agree_of_alike hpq, hp _ q hpq⟩

/-! ## What is read from a tree -/

variable (h : Agree source source' edits head t u)

include h in
lemma Agree.kind? : t.kind? = u.kind? := by rw [Tree.kind?, Tree.kind?, h.label]

include h in
lemma Agree.named : t.named = u.named := by rw [Tree.named, Tree.named, h.kind?]

include h in
lemma Agree.hasKind (k : Kind) : t.hasKind k = u.hasKind k := by rw [Tree.hasKind, Tree.hasKind, h.label]

include h in
lemma Agree.isToken (spelling : String) : t.isToken spelling = u.isToken spelling := by
  rw [Tree.isToken, Tree.isToken, h.label]

include h in
/-- Names are spelled alike. -/
lemma Agree.textOf_eq (hname : t.hasKind .identifier ∨ t.hasKind .propertyIdentifier) :
    textOf source t = textOf source' u := by
  have hspelled := h.spelled
  rcases hname with hname | hname <;> simpa [spelledAlike, hname] using hspelled

/-- What is told from the label of each part is the same for the parts of nodes that are alike. -/
lemma rel_find? {R : Tree → Tree → Prop} {ts us : List Tree} {p : Tree → Bool} (hp : ∀ t u, R t u → p t = p u)
    (h : List.Forall₂ R ts us) : Option.Rel R (ts.find? p) (us.find? p) := by
  induction h with
  | nil => exact .none
  | @cons t u ts us htu _ ih =>
    rw [List.find?_cons, List.find?_cons, ← hp t u htu]
    cases p t with
    | true => exact .some htu
    | false => exact ih

/-- What comes and goes has no parts, and is a comment or no named node. -/
lemma shape_of_extra (ht : extra rest t) : t.parts = [] ∧ (t.label = .node .comment ∨ t.label = .token "") := by
  simp only [extra, Bool.and_eq_true, Bool.or_eq_true, Bool.not_eq_true', List.isEmpty_iff, Tree.isToken, Tree.hasKind,
    decide_eq_true_eq] at ht
  exact ⟨ht.1.1.1, ht.2.symm.imp And.left id⟩

/-- What has a role does not come and go. -/
lemma extra_of_role {r : Role} (hr : t.role = some r) : extra rest t = false := by simp [extra, hr]

lemma part?_eq (t : Tree) (r : Role) : t.part? r = (kept t).find? fun p => p.role = some r := by
  rw [Tree.part?, kept, List.find?_filter]
  congr 1
  funext p
  by_cases hr : p.role = some r
  · simp [hr, extra_of_role hr]
  · simp [hr]

/-- What relates the parts of two nodes one by one relates the parts in a role. -/
lemma rel_part? {R : Tree → Tree → Prop} (hR : ∀ p q, R p q → p.role = q.role)
    (hparts : List.Forall₂ R (kept t) (kept u)) (r : Role) : Option.Rel R (t.part? r) (u.part? r) := by
  rw [part?_eq, part?_eq]
  exact rel_find? (fun p q hpq => by rw [hR p q hpq]) hparts

lemma rel_cases {R : Tree → Tree → Prop} : ∀ {x y : Option Tree}, Option.Rel R x y →
    x = none ∧ y = none ∨ ∃ p q, x = some p ∧ y = some q ∧ R p q
  | _, _, .none => .inl ⟨rfl, rfl⟩
  | _, _, .some hpq => .inr ⟨_, _, rfl, rfl, hpq⟩

include h in
/-- The parts in a role are alike. -/
lemma Agree.part?_cases (r : Role) :
    t.part? r = none ∧ u.part? r = none ∨
      ∃ p q, t.part? r = some p ∧ u.part? r = some q ∧ alike source source' edits (head || opensHead t.role) p q :=
  rel_cases (rel_part? (fun _ _ hpq => (agree_of_alike hpq).role) h.parts r)

/-- What comes and goes is a comment if it is named. -/
lemma not_named_of_extra (ht : extra rest t) (hrest : rest ∨ t.hasKind .comment = false) : t.named = false := by
  simp only [extra, Bool.and_eq_true, Bool.or_eq_true, Bool.not_eq_true', Tree.isToken, decide_eq_true_eq] at ht
  rcases ht.2 with hlabel | ⟨hcomment, hno⟩
  · rw [Tree.named, Tree.kind?, hlabel]
    rfl
  · rcases hrest with hrest | hrest
    · exact absurd hno (ne_false_of_eq_true hrest)
    · exact absurd hcomment (by simp [hrest])

/-- The named parts of a node but for comments do not come and go. -/
lemma namedParts_eq (t : Tree) :
    t.namedParts.filter (!·.hasKind .comment) = (kept t).filter fun p => p.named && !p.hasKind .comment := by
  rw [Tree.namedParts, kept, List.filter_filter, List.filter_filter]
  refine List.filter_congr fun p _ => ?_
  cases hcomment : p.hasKind .comment with
  | true => simp
  | false =>
    cases hextra : extra (t.label = .node .restPattern) p with
    | true => simp [not_named_of_extra hextra (.inr hcomment)]
    | false => simp

/-- The first named part of a rest pattern does not come and go. -/
lemma head?_namedParts_eq (hrest : t.label = .node .restPattern) : t.namedParts.head? = (kept t).find? Tree.named := by
  rw [Tree.namedParts, List.head?_filter, kept, List.find?_filter]
  congr 1
  funext p
  cases hextra : extra (t.label = .node .restPattern) p with
  | true => simp [not_named_of_extra hextra (.inl (by simpa using hrest))]
  | false => simp

/-! ## Errors -/

/-- What comes and goes is sound. -/
lemma hasError_of_extra (ht : extra rest t) : t.hasError = false := by
  obtain ⟨hparts, hlabel⟩ := shape_of_extra ht
  have hmissing : t.missing = false := by
    simp only [extra, Bool.and_eq_true, Bool.not_eq_true'] at ht
    exact ht.1.2
  rw [Tree.hasError_eq, hparts, Tree.faulty, Tree.hasKind, hmissing]
  rcases hlabel with hlabel | hlabel <;> simp [hlabel]

/-- What is told of some part is told without what comes and goes, if that does not have it. -/
lemma any_kept {p : Tree → Bool} (hp : ∀ {rest t}, extra rest t → p t = false) (t : Tree) :
    (kept t).any p = t.parts.any p := by
  rw [kept, List.any_filter]
  congr 1
  funext q
  cases hq : extra (t.label = .node .restPattern) q with
  | true => simp [hp hq]
  | false => simp

lemma any_eq {p q : Tree → Bool} {ts us : List Tree} (h : List.Forall₂ (fun t u => p t = q u) ts us) :
    ts.any p = us.any q := by
  induction h with
  | nil => rfl
  | cons htu _ ih => rw [List.any_cons, List.any_cons, htu, ih]

/-- **Trees that are alike** are sound together. -/
lemma hasError_eq_of_alike (halike : alike source source' edits head t u) : t.hasError = u.hasError := by
  refine alike_induct (P := fun _ t u => t.hasError = u.hasError) (fun head t u h hparts => ?_) t head u halike
  rw [Tree.hasError_eq, Tree.hasError_eq, ← any_kept hasError_of_extra, ← any_kept hasError_of_extra, Tree.faulty, Tree.faulty,
    h.hasKind, h.missing, any_eq (hparts.imp fun p q hpq => hpq.2)]

/-! ## Calls -/

include h in
/-- The name of what is called. -/
lemma Agree.calleeName?_eq : calleeName? source t = calleeName? source' u := by
  rw [calleeName?, calleeName?, ← h.hasKind, ← h.hasKind]
  split
  · rename_i hname
    rw [h.textOf_eq (.inl hname)]
  · split
    · refine congrArg some (congrArg₂ _ ?_ (congrArg _ ?_))
      · obtain ⟨hp, hq⟩ | ⟨p, q, hp, hq, hpq⟩ := h.part?_cases .object
        · rw [hp, hq]
        · have hpq := agree_of_alike hpq
          rw [hp, hq]
          simp only [← hpq.hasKind]
          split
          · exact hpq.textOf_eq (.inl ‹_›)
          · rfl
      · obtain ⟨hp, hq⟩ | ⟨p, q, hp, hq, hpq⟩ := h.part?_cases .property
        · rw [hp, hq]
        · have hpq := agree_of_alike hpq
          rw [hp, hq]
          simp only [← hpq.hasKind]
          split
          · exact hpq.textOf_eq (.inr ‹_›)
          · rfl
    · rfl

include h in
lemma Agree.calledBy?_eq : calledBy? source t = calledBy? source' u := by
  rw [calledBy?, calledBy?, ← h.hasKind]
  split
  · obtain ⟨hp, hq⟩ | ⟨p, q, hp, hq, hpq⟩ := h.part?_cases .callee
    · rw [hp, hq]
      rfl
    · rw [hp, hq]
      exact (agree_of_alike hpq).calleeName?_eq
  · rfl

/-- The names called in a part of a node, added to those already found. -/
def calledAt (source : Text) (found : List Text) (t : Tree) : List Text :=
  if t.named then calledIn source found t else found

lemma calledAmong_eq (found : List Text) (ts : List Tree) :
    calledAmong source found ts = ts.foldl (calledAt source) found := by
  induction ts generalizing found with
  | nil => rw [calledAmong, List.foldl_nil]
  | cons t ts ih => rw [calledAmong, List.foldl_cons, ih, calledAt]

/-- Nothing is called in what comes and goes. -/
lemma calledAt_of_extra (found : List Text) (ht : extra rest t) : calledAt source found t = found := by
  obtain ⟨l, r, m, s, e, ps⟩ := t
  obtain ⟨hparts, hlabel⟩ := shape_of_extra ht
  obtain rfl : ps = [] := hparts
  rw [calledAt]
  split
  · rw [calledIn, calledAmong, calledBy?]
    rcases hlabel with hlabel | hlabel <;> obtain rfl : l = _ := hlabel <;> rfl
  · rfl

lemma calledIn_eq (found : List Text) (t : Tree) :
    calledIn source found t =
      (kept t).foldl (calledAt source) (((calledBy? source t).map (addName found)).getD found) := by
  obtain ⟨l, r, m, s, e, ps⟩ := t
  rw [calledIn, calledAmong_eq, kept, List.foldl_filter]
  congr 1
  funext found p
  split
  · rfl
  · rename_i hp
    exact calledAt_of_extra found (of_not_not fun hn => hp (by simpa using hn))

/-- **Trees that are alike** call the same names. -/
lemma calledIn_eq_of_alike (halike : alike source source' edits head t u) (found : List Text) :
    calledIn source found t = calledIn source' found u := by
  refine alike_induct (P := fun _ t u => ∀ found, calledIn source found t = calledIn source' found u)
    (fun head t u h hparts found => ?_) t head u halike found
  rw [calledIn_eq, calledIn_eq, h.calledBy?_eq]
  generalize ((calledBy? source' u).map (addName found)).getD found = found
  generalize kept t = ts, kept u = us at hparts
  induction hparts generalizing found with
  | nil => rfl
  | cons hpq _ ih =>
    rw [List.foldl_cons, List.foldl_cons, calledAt, calledAt, hpq.1.named, hpq.2, ih]

end Relation

end DocBlocks.Extraction
