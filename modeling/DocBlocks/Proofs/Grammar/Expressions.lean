import DocBlocks.Proofs.Grammar.Types
import DocBlocks.Grammar.Expression

/-!
# Expressions keep to their source

Parentheses are read in a form that covers expressions and parameters, and both readings of it lie
wherever the form does. So rules that go on with either of them extend the form. Markup and the
operators of expressions keep to the source as well.

## Main definitions

* `MaybeRelaid`: what may be read in place of a forest.

## Main results

* `maybeRelaid_asParameters?`, `maybeRelaid_asParenthesized?`: the two readings of what stands in
  parentheses.
* `keeps_expression`, `keeps_markup`: expressions.
-/

namespace DocBlocks.Grammar

open Syntax Syntax.Tree

/-- What may be read in place of a forest, so that it lies where the forest does. -/
class MaybeRelaid (source : Text) (forest : List Tree) (found : Option (List Tree)) : Prop where
  relaid : ∀ forest', found = some forest' → Relaid source forest forest'

variable {source : Text} {d : Dialect} {g : Rules} {place : Place}

/-! ## Parentheses and arrows -/

instance keeps_coveredPart [Answers source g] : Keeps source (coveredPart d g) := by
  dsimp only [coveredPart]
  infer_instance

instance keeps_covered [Answers source g] : Keeps source (covered d g) := by
  unfold covered
  infer_instance

/-- A part that is read as the pattern of a typed parameter. -/
lemma recasts_asTypedPattern? {t t' : Tree} (h : t.Fits source) (he : asTypedPattern? t = some t') :
    Recasts source t t' := by
  rw [asTypedPattern?] at he
  split at he
  · exact Option.some.inj he ▸ recasts_self h
  · exact rereads_asTarget?.recasts h he

/-- Trees that are each read as one at the same place. -/
lemma forall₂_recasts_of_mapM {change : Tree → Option Tree} {ts us : List Tree} (h : ∀ t ∈ ts, t.Fits source)
    (hchange : ∀ t t', t.Fits source → change t = some t' → Recasts source t t') (he : ts.mapM change = some us) :
    List.Forall₂ (Recasts source) ts us :=
  ((List.forall₂_and_left ..).mpr ⟨h, forall₂_of_mapM he⟩).imp fun t t' ⟨ht, ht'⟩ => hchange t t' ht ht'

/-- The parts of a parameter node whose pattern is read as one. -/
lemma recasts_patternPart? (t t' : Tree) (h : t.Fits source) (he : patternPart? t = some t') : Recasts source t t' := by
  rw [patternPart?] at he
  split at he
  · exact recasts_asTypedPattern? h he
  · exact Option.some.inj he ▸ recasts_self h

/-- A part that is read as a parameter of the untyped dialect. -/
lemma recasts_asPlainParameter? {t t' : Tree} (h : t.Fits source) (he : asPlainParameter? t = some t') :
    Recasts source t t' := by
  rw [asPlainParameter?] at he
  split at he
  · exact Option.some.inj he ▸ recasts_self h
  · exact recasts_asPattern? h (Option.filter_eq_some_iff.mp he).1

/-- A part that is read as a parameter of a typed dialect. -/
lemma recasts_asTypedParameter? {t t' : Tree} (h : t.Fits source) (he : asTypedParameter? t = some t') :
    Recasts source t t' := by
  rw [asTypedParameter?.eq_def] at he
  split at he
  · obtain ⟨ps', hps', rfl⟩ := Option.map_eq_some_iff.mp he
    exact recasts_under h trivial (forall₂_recasts_of_mapM h.parts recasts_patternPart? hps')
  · obtain ⟨ps', hps', rfl⟩ := Option.map_eq_some_iff.mp he
    exact recasts_under h trivial (forall₂_recasts_of_mapM h.parts recasts_patternPart? hps')
  · obtain ⟨-, -, rfl⟩ := Option.map_eq_some_iff.mp he
    refine recasts_under h trivial (List.forall₂_map_right_iff.mpr (List.forall₂_same.mpr fun p hp => ?_))
    have hpart := h.parts p hp
    split
    · exact recasts_withRole hpart _
    · split
      · exact recasts_withRole hpart _
      · exact recasts_self hpart
  · obtain ⟨p, hp, rfl⟩ := Option.map_eq_some_iff.mp he
    have hrole := recasts_withRole (recasts_asTypedPattern? h hp).fits .pattern
    have hpattern : List.Forall₂ (Recasts source) [p] [p.withRole .pattern] := .cons hrole .nil
    have hpart : Laid source t.start t.stop [p.withRole .pattern] :=
      ((Laid.single h).recast (.cons (recasts_asTypedPattern? h hp) .nil)).recast hpattern
    exact ⟨fits_node trivial h.stands.start h.stands.stop hpart, rfl, rfl⟩

instance maybeRelaid_asParameters? {forest : List Tree} : MaybeRelaid source forest (asParameters? d forest) := by
  refine ⟨fun params he => ⟨fun {start stop} hlaid => ?_⟩⟩
  obtain ⟨parts, hparts, rfl⟩ := Option.map_eq_some_iff.mp he
  refine (hlaid.recast (forall₂_recasts_of_mapM hlaid.fits (fun t t' ht hpart => ?_) hparts)).wrap trivial
  split at hpart
  · exact Option.some.inj hpart ▸ recasts_self ht
  · split at hpart
    · exact recasts_asTypedParameter? ht hpart
    · exact recasts_asPlainParameter? ht hpart

/-- Trees with others between the first and the last one. -/
lemma exists_last_of_inner_ne_nil {opening : Tree} {rest : List Tree} (h : inner (opening :: rest) ≠ []) :
    ∃ last, rest = inner (opening :: rest) ++ [last] ∧ (opening :: rest).drop ((opening :: rest).length - 1) = [last] := by
  rcases List.eq_nil_or_concat' rest with rfl | ⟨front, last, rfl⟩
  · exact absurd rfl h
  · exact ⟨last, by simp [inner], by simp⟩

/-- Trees whose inner ones are replaced by others that lie where those do. -/
lemma Laid.replaceInner {opening : Tree} {rest others : List Tree} {start stop : Nat}
    (h : Laid source start stop (opening :: rest)) (hne : inner (opening :: rest) ≠ [])
    (hothers : Relaid source (inner (opening :: rest)) others) :
    Laid source start stop (opening :: others ++ (opening :: rest).drop ((opening :: rest).length - 1)) := by
  obtain ⟨last, hrest, hlast⟩ := exists_last_of_inner_ne_nil hne
  obtain ⟨hopening, hfits, hbehind⟩ := h
  rw [hrest] at hbehind
  obtain ⟨mid, hinner, hend⟩ := laid_append_iff.mp hbehind
  rw [hlast]
  exact ⟨hopening, hfits, (hothers.laid hinner).append hend⟩

/-- The parts of what is no comment, in its place. -/
lemma relaid_flatMap_parts (forest : List Tree) :
    Relaid source forest (forest.flatMap fun p => if p.isComment then [p] else p.parts) := by
  refine ⟨fun hlaid => hlaid.flatMap fun p hp => ?_⟩
  split
  · exact Laid.single (hlaid.fits p hp)
  · exact laid_parts (hlaid.fits p hp)

instance relaid_wrapBetween {k : Kind} [hk : Holds (Plain (.node k))] {forest : List Tree} :
    Relaid source forest (wrapBetween k forest) := by
  refine ⟨fun {start stop} hlaid => ?_⟩
  have hsplit : forest = (forest.reverse.dropWhile Tree.isComment).reverse ++
      (forest.reverse.takeWhile Tree.isComment).reverse := by
    rw [← List.reverse_append, List.takeWhile_append_dropWhile, List.reverse_reverse]
  rw [hsplit, laid_append_iff] at hlaid
  obtain ⟨mid, hfront, hbehind⟩ := hlaid
  exact (hfront.wrap hk.holds).append hbehind

instance maybeRelaid_asParenthesized? {forest : List Tree} : MaybeRelaid source forest (asParenthesized? forest) := by
  refine ⟨fun answer he => ⟨fun {start stop} hlaid => ?_⟩⟩
  rw [← List.takeWhile_append_dropWhile (p := Tree.isComment) (l := forest), laid_append_iff] at hlaid
  obtain ⟨mid, hlead, hbody⟩ := hlaid
  simp only [asParenthesized?] at he
  generalize forest.takeWhile Tree.isComment = lead at *
  generalize forest.dropWhile Tree.isComment = body at *
  have hnode {ts : List Tree} (h : Laid source mid stop ts) :
      Laid source start stop (lead ++ wrap .parenthesizedExpression ts) := hlead.append (h.wrap trivial)
  have hinner {ts : List Tree} (h : (inner body).filter (fun t => !t.isComment) = ts) (hts : ts ≠ []) :
      inner body ≠ [] := by
    rintro hnil
    rw [hnil] at h
    exact hts h.symm
  split at he
  · rename_i t opening rest hparts
    split at he
    · obtain rfl := Option.some.inj he
      exact hnode hbody
    · split at he
      · obtain rfl := Option.some.inj he
        exact hnode (hbody.replaceInner (hinner hparts (by simp)) (relaid_flatMap_parts _))
      · cases he
  · rename_i opening rest hparts
    split at he
    · obtain rfl := Option.some.inj he
      exact hnode (hbody.replaceInner (hinner hparts (by simp)) inferInstance)
    · cases he
  · cases he

instance extends_given {forest : List Tree} {found : Option (List Tree)} {f : List Tree → Rule}
    [h : MaybeRelaid source forest found] [hf : ∀ other, Extends source other (f other)] :
    Extends source forest (given found f) := by
  unfold given
  split
  · rename_i other
    have := h.relaid other rfl
    exact (hf other).of_relaid
  · infer_instance

/-- The same behind further trees, which stay as they are. -/
instance (priority := low) extends_given_behind {lead forest : List Tree} {found : Option (List Tree)}
    {f : List Tree → Rule} [h : MaybeRelaid source forest found] [hf : ∀ other, Extends source (lead ++ other) (f other)] :
    Extends source (lead ++ forest) (given found f) := by
  unfold given
  split
  · rename_i other
    have := h.relaid other rfl
    exact (hf other).of_relaid
  · infer_instance

instance keeps_blockOr {block literal : Rule} [hb : Keeps source block] [hl : Keeps source literal] :
    Keeps source (blockOr block literal) := by
  refine ⟨fun {c _} hc hle => ?_⟩
  have hblock := hb.sound hc hle
  have hliteral := hl.sound hc hle
  rw [blockOr]
  split
  · exact hl.sound (hc.congr rfl rfl) hle
  · rename_i forest next hn
    rw [hn] at hblock
    split
    · split
      · rename_i forest' next' hn'
        rw [hn'] at hliteral
        split
        · exact hliteral
        · exact hblock
      · exact hblock
    · exact hblock

instance extends_arrowTail [Answers source g] {left headTrees : List Tree} [Relaid source left headTrees] :
    Extends source left (arrowTail g place headTrees) := by
  dsimp only [arrowTail]
  infer_instance

instance extends_arrowRest [Answers source g] {left headTrees : List Tree} [Relaid source left headTrees] :
    Extends source left (arrowRest d g place headTrees) := by
  unfold arrowRest
  infer_instance

instance extends_genericArrow [Answers source g] {lead : List Tree} : Extends source lead (genericArrow d g place lead) := by
  unfold genericArrow
  infer_instance

instance extends_namedArrow [Answers source g] {lead : List Tree} : Extends source lead (namedArrow d g place lead) := by
  unfold namedArrow
  infer_instance

instance extends_listArrow [Answers source g] {lead : List Tree} : Extends source lead (listArrow d g place lead) := by
  unfold listArrow
  infer_instance

instance keeps_parenthesis [Answers source g] : Keeps source (parenthesis d g place) := by
  unfold parenthesis
  infer_instance

/-! ## Markup -/

instance keeps_characterReference : Keeps source characterReference := by
  unfold characterReference
  infer_instance

instance keeps_markupExpression [Answers source g] : Keeps source (markupExpression g) := by
  unfold markupExpression
  infer_instance

instance keeps_markupName {k : Kind} [Holds (Plain (.node k))] : Keeps source (markupName k) := by
  unfold markupName
  infer_instance

instance extends_elementNameGrow {left : List Tree} : Extends source left (elementNameGrow left) := by
  unfold elementNameGrow
  infer_instance

instance keeps_elementName : Keeps source elementName := by
  unfold elementName
  infer_instance

instance keeps_attributeString {quote : Char} : Keeps source (attributeString quote) := by
  dsimp only [attributeString]
  infer_instance

instance keeps_markupAttribute [Answers source g] : Keeps source (markupAttribute g) := by
  unfold markupAttribute
  infer_instance

instance keeps_tagStart [Answers source g] : Keeps source (tagStart d g) := by
  unfold tagStart
  infer_instance

instance keeps_child [Answers source g] : Keeps source (child g) := by
  unfold child
  infer_instance

instance keeps_closingTag : Keeps source closingTag := by
  unfold closingTag
  infer_instance

instance keeps_markup [Answers source g] : Keeps source (markup d g) := by
  unfold markup
  infer_instance

/-! ## Expressions -/

instance keeps_prefixed [Answers source g] {k : Kind} {level : Nat} {operator : Rule} [Holds (Plain (.node k))]
    [Keeps source operator] : Keeps source (prefixed g place k level operator) := by
  unfold prefixed
  infer_instance

instance keeps_construction [Answers source g] : Keeps source (construction d g place) := by
  dsimp only [construction]
  infer_instance

instance keeps_importOperand : Keeps source importOperand := by
  unfold importOperand
  infer_instance

instance keeps_yielding [Answers source g] : Keeps source (yielding d g place) := by
  dsimp only [yielding]
  infer_instance

instance keeps_asyncOperand [Answers source g] : Keeps source (asyncOperand d g place) := by
  dsimp only [asyncOperand]
  infer_instance

instance keeps_nameOperand [Answers source g] : Keeps source (nameOperand d g place) := by
  unfold nameOperand
  infer_instance

instance keeps_wordOperand [Answers source g] {w : Text} : Keeps source (wordOperand d g place w) := by
  dsimp only [wordOperand]
  infer_instance

instance keeps_angleOperand [Answers source g] : Keeps source (angleOperand d g place) := by
  unfold angleOperand
  infer_instance

/-- An answer that a condition decides. -/
lemma sound_ite {b : Prop} [Decidable b] {start : Nat} {answer other : Reply} (h : Sound source start answer)
    (h' : Sound source start other) : Sound source start (if b then answer else other) := by
  split
  · exact h
  · exact h'

instance keeps_operand [Answers source g] : Keeps source (operand d g place) := by
  refine ⟨fun {c _} hc hle => ?_⟩
  dsimp only [operand]
  split
  · exact Extends.sound hc hle
  · split
    · exact Extends.sound hc hle
    · repeat' apply sound_ite
      all_goals exact Extends.sound hc hle

instance keeps_property : Keeps source property := by
  unfold property
  infer_instance

instance keeps_index [Answers source g] : Keeps source (index g) := by
  unfold index
  infer_instance

instance extends_optionalGrow [Answers source g] {left : List Tree} :
    Extends source left (optionalGrow d g place left) := by
  dsimp only [optionalGrow]
  infer_instance

instance extends_typeArgumentsGrow [Answers source g] {left : List Tree} :
    Extends source left (typeArgumentsGrow g place left) := by
  have applied (forest : List Tree) : Extends source forest fun c =>
      if comes "(" c then node .callExpression (after forest (g .arguments)) c
      else if place.heritage || startsOperand (upcoming c) then refuse c
      else .accepted (wrap .instantiationExpression forest) c := by
    refine ⟨fun {c _} hc hforest => ?_⟩
    split
    · exact Extends.sound hc hforest
    · split
      · trivial
      · exact ⟨hc, hforest.wrap trivial⟩
  unfold typeArgumentsGrow
  infer_instance

instance extends_binaryGrow [Answers source g] {left : List Tree} {s : String} {operator : Rule}
    [Keeps source operator] : Extends source left (binaryGrow g place left s operator) := by
  unfold binaryGrow
  split
  · infer_instance
  · infer_instance

instance extends_conditionalGrow [Answers source g] {left : List Tree} :
    Extends source left (conditionalGrow d g place left) := by
  dsimp only [conditionalGrow]
  infer_instance

instance extends_assignmentGrow [Answers source g] {left : List Tree} :
    Extends source left (assignmentGrow g place left) := by
  dsimp only [assignmentGrow]
  infer_instance

instance extends_wordGrow [Answers source g] {left : List Tree} {w : Text} :
    Extends source left (wordGrow d g place left w) := by
  unfold wordGrow
  infer_instance

instance extends_punctuatorGrow [Answers source g] {left : List Tree} {s : String} {t : Text} :
    Extends source left (punctuatorGrow d g place left s t) := by
  unfold punctuatorGrow
  infer_instance

instance extends_grow [Answers source g] {left : List Tree} :
    Extends source left (grow d g place left) := by
  refine ⟨fun {c _} hc hleft => ?_⟩
  dsimp only [grow]
  repeat' split
  all_goals exact Extends.sound hc hleft

instance keeps_expression [Answers source g] : Keeps source (expression d g place) := by
  unfold expression
  infer_instance

instance keeps_expressions [Answers source g] : Keeps source (expressions g place) := by
  unfold expressions
  infer_instance

end DocBlocks.Grammar
