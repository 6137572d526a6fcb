import DocBlocks.Placement
import DocBlocks.Proofs.Extraction.Carried
import DocBlocks.Proofs.Grammar.Comments

/-!
# Comments between tokens

The grammars have comments as extras: they may stand between any two tokens, and a parser passes
over them. What a comment changes when it is put in somewhere is then told by the place. It may lie
inside a token, or inside a text such as a template. Or it may end a statement: with a comment its
line breaks come in, and one of them may take the place of a semicolon. A comment that starts a line
adds no line break in front of a token that had none, but the search for the end of a statement
looks at the text itself, and how it treats comments depends on what stands around them.

`PassesComments` is what is asked of a grammar, at the places of which `takesComment` tells, from
the tree and the source, that none of these things happens. For single tokens, and for statements
that start with a keyword, the grammar of `Grammar.parse` is proved to do so (`Grammar.TakesLead`).

## Main definitions

* `Extraction.takesComment`: whether a comment put in at a place stands between two tokens, and ends
  no statement.
* `Extraction.PassesComments`: the grammars that pass over comments at such places.
* `Extraction.readBehind`: a small one of them.

## Main results

* `Extraction.passesComments_readBehind`: that it is one.
-/

namespace DocBlocks

open Syntax Text Splice

namespace Extraction

/-! ## Where comments may be put in -/

/-- The nodes that are texts: what stands between their parts belongs to them. The dots of a rest
pattern and its name are read as one. -/
def textKinds : List Kind :=
  [.string, .regex, .templateString, .templateLiteralType, .jsxElement, .jsxOpeningElement, .jsxClosingElement,
    .jsxSelfClosingElement, .jsxAttribute, .jsxNamespaceName, .restPattern]

/-- Whether a place lies inside the range of a node. -/
def covers (n : Nat) (t : Tree) : Bool := t.start < n && n < t.stop

/-- Whether a place lies inside a token, or inside a text and in none of its parts. -/
def isInside (t : Tree) (n : Nat) : Bool :=
  t.preorder.any fun x => covers n x && !x.parts.any (covers n) && (x.parts.isEmpty || textKinds.any (x.hasKind ·))

/-- Whether a regular expression in front of a place starts with a star. Its slash and star open a
comment once a closer follows. -/
def isBehindStar (source : Text) (t : Tree) (n : Nat) : Bool :=
  t.preorder.any fun x => x.hasKind .regexPattern && x.stop ≤ n && (textOf source x).head? = some '*'

/-- Where the last token in front of a place stops. -/
def tokenStop (t : Tree) (n : Nat) : Nat :=
  lastBefore ((t.preorder.filter fun x => x.parts.isEmpty && x.start < x.stop && !x.isComment).map Tree.stop) (n + 1)

/-- Whether it does not depend on the comments in front of a place if a statement ends there: none
ends behind the last token, or a line break follows that token before any comment does. -/
def isSettled (source : Text) (t : Tree) (n : Nat) : Bool :=
  (source.splitAt? (tokenStop t n)).any (fun (before, _) => before.getLast?.all [';', '{', '(', '[', ','].contains) ||
    (source.slice? (tokenStop t n) n).any fun gap => (gap.takeWhile (· ≠ '/')).contains '\n'

/-- Whether the token behind a place goes on with no statement that a line break might end, in
whichever dialect and behind whatever token. A number sign may be the one that opens a script. -/
def opensAfresh (source : Text) (n : Nat) : Bool :=
  (source.splitAt? n).any fun (_, behind) =>
    let next := Grammar.upcoming { rest := behind, offset := n }
    next.head? ≠ some '#' && [Dialect.javaScript, .tsx].all fun d =>
      [true, false].all fun operand => [true, false].all fun signature => Grammar.breaksBefore d operand signature next

/-- Whether a line starts at a place. -/
def startsLine (source : Text) (n : Nat) : Bool :=
  (source.splitAt? n).any fun (before, _) => (splitLastLine before).2.isEmpty

/-- Whether a unit starts at a place. -/
def startsUnit (t : Tree) (n : Nat) : Bool := (foundIn t).any (·.node.start = n)

/-- Whether the last character in front of a place, but for white space, is one behind which no line
break counts in front of a unit. -/
def isBehindMark (source : Text) (n : Nat) : Bool :=
  (source.splitAt? n).any fun (before, _) =>
    (trimEnd before).getLast?.all ['{', '}', ';', ',', '(', ')', '=', ':'].contains

/-- Whether a comment put in at a place stands between two tokens and ends no statement. The place
starts a line or a unit. -/
def takesComment (source : Text) (t : Tree) (n : Nat) : Bool :=
  !isInside t n && !isBehindStar source t n &&
    (startsLine source n && isSettled source t n && opensAfresh source n || startsUnit t n && isBehindMark source n)

/-- **What a grammar promises of comments**: where a sound text takes comments, it is read with them
as without. The tree is the same but for the comments, the ends of statements that are not written,
and where the nodes stand. -/
def PassesComments (read : Text → Tree) : Prop :=
  ∀ source edits s, (read source).hasError = false →
    (∀ e ∈ edits, e.replaceFrom = e.point ∧ IsBlock e.block ∧ takesComment source (read source) e.point) →
    splice? source edits = some s → alike source s.text edits false (read source) (read s.text)

section Places

variable {source : Text} {t : Tree} {n : Nat}

lemma startsLine_iff : startsLine source n ↔ ∃ before behind, source = before ++ behind ∧ bytes before = n ∧ EndsLine before := by
  simp only [startsLine, Option.any_eq_true, Prod.exists, splitAt?_eq_some_iff, List.isEmpty_iff]
  refine exists₂_congr fun before behind => ?_
  rw [and_assoc]
  refine and_congr_right fun _ => and_congr_right fun _ => ⟨fun h => ?_, fun h => ?_⟩
  · have hspec := splitLastLine_spec before
    rw [h, List.append_nil] at hspec
    exact hspec.1 ▸ hspec.2.2
  · rw [← List.append_nil before, splitLastLine_of_endsLine [] h]
    rfl

/-- A place that takes comments starts a line, or it starts a unit and the source can be cut
there. -/
lemma takesComment_cases (h : takesComment source t n) : startsLine source n ∨ startsUnit t n ∧ IsCut source n := by
  simp only [takesComment, Bool.and_eq_true, Bool.or_eq_true] at h
  rcases h.2 with ⟨⟨hline, -⟩, -⟩ | ⟨hunit, hmark⟩
  · exact .inl hline
  · obtain ⟨x, hx, -⟩ := (Option.any_eq_true _ _).mp hmark
    exact .inr ⟨hunit, Option.isSome_iff_exists.mpr ⟨x, hx⟩⟩

/-- The source can be cut where it takes comments. -/
lemma isCut_of_takesComment (h : takesComment source t n) : IsCut source n := by
  rcases takesComment_cases h with h | ⟨-, h⟩
  · obtain ⟨before, behind, hsource, hn, -⟩ := startsLine_iff.mp h
    exact isCut_iff.mpr ⟨before, behind, hsource, hn⟩
  · exact h

end Places

/-! ## A grammar that passes over comments -/

mutual

/-- A tree, moved behind a text of some length. -/
def shift (n : Nat) : Tree → Tree
  | .mk l r m s e ps => .mk l r m (n + s) (n + e) (shiftAll n ps)

/-- Trees, moved behind a text of some length. -/
def shiftAll (n : Nat) : List Tree → List Tree
  | [] => []
  | t :: ts => shift n t :: shiftAll n ts

end

/-- A text without the white space at its end, taken for a comment. -/
def commentIn (lead : Text) : List Tree :=
  if trimEnd lead = [] then [] else [.leaf (.node .comment) 0 (bytes (trimEnd lead))]

/-- Reads a declaration behind what is taken for a comment, and refuses everything else. `part` is
the tree of the declaration. -/
def readBehind (declaration : Text) (part : Tree) (source : Text) : Tree :=
  match declaration.isSuffixOf? source with
  | some lead =>
    .mk (.node .program) none false 0 (bytes source) (commentIn lead ++ [shift (bytes lead) part])
  | none => .leaf (.node .error) 0 (bytes source)

section Shift

lemma shiftAll_eq (n : Nat) (ts : List Tree) : shiftAll n ts = ts.map (shift n) := by
  induction ts with
  | nil => rfl
  | cons t ts ih => rw [shiftAll, ih, List.map_cons]

variable (n : Nat) (t : Tree)

@[simp] lemma label_shift : (shift n t).label = t.label := by cases t; rfl

@[simp] lemma role_shift : (shift n t).role = t.role := by cases t; rfl

@[simp] lemma missing_shift : (shift n t).missing = t.missing := by cases t; rfl

@[simp] lemma start_shift : (shift n t).start = n + t.start := by cases t; rfl

@[simp] lemma stop_shift : (shift n t).stop = n + t.stop := by cases t; rfl

@[simp] lemma parts_shift : (shift n t).parts = t.parts.map (shift n) := by
  cases t
  exact shiftAll_eq ..

@[simp] lemma hasKind_shift (k : Kind) : (shift n t).hasKind k = t.hasKind k := by simp [Tree.hasKind]

@[simp] lemma extra_shift (rest : Bool) : extra rest (shift n t) = extra rest t := by
  simp [extra, Tree.isToken]

/-- The text of a moved tree. -/
lemma textOf_shift (a b : Text) : textOf (a ++ b) (shift (bytes a) t) = textOf b t := by
  have hslice : ∀ i j, (a ++ b).slice? (bytes a + i) (bytes a + j) = b.slice? i j := by
    intro i j
    rw [slice?, slice?, splitAt?_append_add, Nat.add_sub_add_left]
    by_cases h : i ≤ j
    · rw [if_pos h, if_pos (Nat.add_le_add_left h _)]
      cases b.splitAt? i <;> rfl
    · rw [if_neg h, if_neg (by omega)]
  rw [textOf, textOf, start_shift, stop_shift, hslice]

/-- A moved tree is on cuts as it was. -/
lemma onCuts_shift {a b : Text} {t : Tree} : t.OnCuts b → (shift (bytes a) t).OnCuts (a ++ b) := by
  have hcut : ∀ {n}, IsCut b n → IsCut (a ++ b) (bytes a + n) := fun {n} hn => by
    rwa [IsCut, splitAt?_append_add, Option.isSome_map]
  induction t using Tree.induct with
  | node t ih =>
    intro ht
    rw [Tree.onCuts_iff, start_shift, stop_shift, parts_shift, List.forall_mem_map]
    exact ⟨ht.ends.imp hcut hcut, fun p hp => ih p hp (ht.parts p hp)⟩

end Shift

section Alike

variable {edits : List Edit} {a a' b : Text}

/-- Edits up to a place move what stands behind it by all they put in. -/
lemma moved_add (h : ∀ e ∈ edits, e.point ≤ bytes a) (i : Nat) : moved edits (bytes a + i) = moved edits (bytes a) + i := by
  have hall : ∀ x, bytes a ≤ x → addedBy edits (·.point ≤ x) = edits.flatMap added := fun x hx => by
    rw [addedBy, List.filter_eq_self.mpr fun e he => decide_eq_true ((h e he).trans hx)]
  rw [moved, moved, hall _ (Nat.le_add_right _ _), hall _ le_rfl]
  omega

lemma movedEnd_add (h : ∀ e ∈ edits, e.point ≤ bytes a) {i : Nat} (hi : 0 < i) :
    movedEnd edits (bytes a + i) = moved edits (bytes a) + i := by
  have hboth : addedBy edits (·.point < bytes a + i) = addedBy edits (·.point ≤ bytes a) :=
    congrArg (·.flatMap added) (List.filter_congr fun e he => by
      have := h e he
      exact decide_eq_decide.mpr (by omega))
  rw [movedEnd, moved, hboth]
  omega

/-- **A tree behind two texts** is alike, if the second one is what edits make of the first.

**Proof sketch.** Induction on the tree. What comes and goes stays so wherever it is moved, so the
parts that count are those of the tree, one by one. -/
lemma alike_shift (h : ∀ e ∈ edits, e.point ≤ bytes a) (ha : bytes a' = moved edits (bytes a)) (t : Tree) :
    (∀ x ∈ t.preorder, 0 < x.stop) → ∀ head,
      alike (a ++ b) (a' ++ b) edits head (shift (bytes a) t) (shift (bytes a') t) := by
  induction t using Tree.induct with
  | node t ih =>
    intro hstop head
    rw [Tree.preorder_eq, List.forall_mem_cons, List.forall_mem_flatMap] at hstop
    have hmoves : moves edits (shift (bytes a) t) (shift (bytes a') t) := by
      simp [moves, ha, moved_add h, movedEnd_add h hstop.1]
    have hkept : ∀ n, kept (shift n t) = (kept t).map (shift n) := fun n => by
      simp only [kept, label_shift, parts_shift, List.filter_map, Function.comp_def, extra_shift]
    have hstarts : startsAlike edits (shift (bytes a) t) (shift (bytes a') t) := by
      simp [startsAlike, ha, moved_add h]
    refine alike_iff_agree.mpr
      ⟨by simp, by simp, by simp, by simp [spelledAlike, textOf_shift], hstarts, fun _ => hmoves, ?_⟩
    rw [hkept, hkept, List.forall₂_map_left_iff, List.forall₂_map_right_iff]
    refine List.forall₂_same.mpr fun p hp => ?_
    have hp := List.mem_of_mem_filter hp
    exact ih p hp (hstop.2 p hp) _

end Alike

section Behind

variable {declaration : Text} {part : Tree} {source lead : Text}

/-- What the small grammar makes of a declaration behind another text. -/
lemma readBehind_append (declaration : Text) (part : Tree) (lead : Text) :
    readBehind declaration part (lead ++ declaration) =
      .mk (.node .program) none false 0 (bytes (lead ++ declaration))
        (commentIn lead ++ [shift (bytes lead) part]) := by
  have hlead : declaration.isSuffixOf? (lead ++ declaration) = some lead := List.isSuffixOf?_eq_some_iff_append_eq.mpr rfl
  rw [readBehind, hlead]

/-- A comment comes and goes. -/
lemma extra_of_mem_commentIn {t : Tree} (ht : t ∈ commentIn lead) : extra false t := by
  rw [commentIn] at ht
  split at ht
  · cases ht
  · obtain rfl := List.mem_singleton.mp ht
    rfl

lemma exists_append_of_readBehind (h : (readBehind declaration part source).hasError = false) :
    ∃ lead, source = lead ++ declaration := by
  rw [readBehind] at h
  split at h
  · rename_i lead hlead
    exact ⟨lead, (List.isSuffixOf?_eq_some_iff_append_eq.mp hlead).symm⟩
  · cases h

/-- The tree of a function on one line. -/
structure IsFunction (declaration : Text) (part : Tree) : Prop where
  kind : part.kind? = some .functionDeclaration
  start : part.start = 0
  stops : ∀ x ∈ part.preorder, 0 < x.stop
  cuts : part.OnCuts declaration
  oneLine : '\n' ∉ declaration

variable (h : IsFunction declaration part)

include h in
/-- The function is the only unit. -/
lemma start_of_foundIn_readBehind :
    ∀ x ∈ foundIn (readBehind declaration part (lead ++ declaration)), x.node.start = bytes lead := by
  have hkind : (shift (bytes lead) part).kind? = some .functionDeclaration := by
    rw [Tree.kind?, label_shift, ← Tree.kind?, h.kind]
  have hpart : ∀ parent, foundAt parent (shift (bytes lead) part) =
      [⟨.function, (shift (bytes lead) part).part? .name, shift (bytes lead) part⟩] := by
    intro parent
    rw [foundAt, found?, Tree.named, hkind]
    rfl
  intro x hx
  rw [readBehind_append, foundIn_eq, Tree.parts, List.flatMap_append,
    List.flatMap_eq_nil_iff.mpr fun t ht => foundAt_of_extra _ (extra_of_mem_commentIn ht), List.nil_append,
    List.flatMap_singleton, hpart] at hx
  obtain rfl := List.mem_singleton.mp hx
  rw [start_shift, h.start, Nat.add_zero]

include h in
/-- The function is what stays when comments come and go. -/
lemma kept_readBehind (lead : Text) :
    kept (readBehind declaration part (lead ++ declaration)) = [shift (bytes lead) part] := by
  have hpart : extra false part = false := by simp [extra, Tree.isToken, Tree.hasKind, label_of_kind? h.kind]
  have hroot : (decide (Label.node .program = .node .restPattern)) = false := rfl
  rw [readBehind_append, kept, Tree.parts, Tree.label, hroot, List.filter_append,
    List.filter_eq_nil_iff.mpr fun t ht => by simp [extra_of_mem_commentIn ht], List.nil_append, List.filter_singleton,
    extra_shift, hpart]
  rfl

include h in
/-- No comment is taken inside the function. -/
lemma le_of_takesComment {n : Nat}
    (hn : takesComment (lead ++ declaration) (readBehind declaration part (lead ++ declaration)) n) : n ≤ bytes lead := by
  rcases takesComment_cases hn with hline | ⟨hunit, -⟩
  · obtain ⟨before, behind, hsource, rfl, hends⟩ := startsLine_iff.mp hline
    by_contra hlt
    obtain ⟨m, rfl, hm⟩ := exists_of_bytes_le hsource (by omega)
    have hne : m ≠ [] := by
      rintro rfl
      simp at hlt
    rcases hends with hnil | ⟨front, hfront⟩
    · exact hne (List.append_eq_nil_iff.mp hnil).2
    · refine h.oneLine (hm ▸ List.mem_append_left _ ?_)
      have hlast : (lead ++ m).getLast? = some '\n' := by rw [← hfront, List.getLast?_concat]
      rw [List.getLast?_append_of_ne_nil _ hne] at hlast
      exact List.mem_of_getLast? hlast
  · obtain ⟨x, hx, hstart⟩ := List.any_eq_true.mp hunit
    rw [← of_decide_eq_true hstart, start_of_foundIn_readBehind h x hx]

include h in
/-- **The small grammar passes over comments.** -/
lemma passesComments_readBehind : PassesComments (readBehind declaration part) := by
  intro source edits s hsound hedits hs
  obtain ⟨lead, rfl⟩ := exists_append_of_readBehind hsound
  have hle : ∀ e ∈ edits, e.point ≤ bytes lead := fun e he => le_of_takesComment h (hedits e he).2.2
  have hlong := bytes_grown rfl fun e he => isCut_of_takesComment (hedits e he).2.2
  have htext : s.text = grown edits lead ++ declaration := by
    rw [text_of_inserts (fun e he => (hedits e he).1) hs]
    exact grown_append_plain fun e he => .inl (hle e he)
  rw [htext, readBehind_append, readBehind_append, alike_iff_agree]
  refine ⟨rfl, rfl, rfl, rfl, rfl, nofun, ?_⟩
  rw [← readBehind_append, ← readBehind_append, kept_readBehind h, kept_readBehind h]
  exact .cons (alike_shift hle hlong part h.stops _) .nil

include h in
/-- The nodes of its trees start and stop between characters. -/
lemma onCuts_readBehind (hsound : (readBehind declaration part source).hasError = false) :
    (readBehind declaration part source).OnCuts source := by
  obtain ⟨lead, rfl⟩ := exists_append_of_readBehind hsound
  have hend : ∀ a b : Text, IsCut (a ++ b) (bytes a) := fun a b => isCut_iff.mpr ⟨a, b, rfl, rfl⟩
  have hstart : ∀ t : Text, IsCut t 0 := fun t => isCut_iff.mpr ⟨[], t, rfl, rfl⟩
  rw [readBehind_append, Tree.onCuts_iff]
  have hstop := hend (lead ++ declaration) []
  rw [List.append_nil] at hstop
  refine ⟨⟨hstart _, hstop⟩, fun p hp => ?_⟩
  rcases List.mem_append.mp hp with hp | hp
  · rw [commentIn] at hp
    split at hp
    · cases hp
    · obtain rfl := List.mem_singleton.mp hp
      obtain ⟨blanks, hlead, -⟩ := trimEnd_eq_iff.mp (rfl : trimEnd lead = trimEnd lead)
      refine Tree.onCuts_iff.mpr ⟨⟨hstart _, ?_⟩, nofun⟩
      have hcut := hend (trimEnd lead) (blanks ++ declaration)
      rwa [← List.append_assoc, ← hlead] at hcut
  · obtain rfl := List.mem_singleton.mp hp
    exact onCuts_shift h.cuts

end Behind

end Extraction

end DocBlocks
