import DocBlocks.Proofs.Grammar.Fits
import DocBlocks.Proofs.PartialMap
import DocBlocks.Grammar.Class

/-!
# Types, functions and classes keep to their source

Each production of the grammar keeps to the source it reads, whatever rules answer the goals it asks
for, as long as these do so too. This is so for tokens and literals, for patterns, and for the
types, functions and classes made up of them. What has been read as an expression and turns out to
be a pattern stays at its place.

## Main definitions

* `Answers`: the rules for goals that keep to a source.

## Main results

* `recasts_asPattern?`: what is read as a pattern.
* `keeps_typeExpression`, `keeps_signature`, `keeps_classBody`, …: the productions.
-/

namespace DocBlocks.Grammar

open Syntax Syntax.Tree

/-- Whether a goal builds no node of a kind of comments. -/
@[reducible] def Goal.Plain : Goal → Prop
  | .objectType kind => Tree.Plain (.node kind)
  | _ => True

/-- The rules for goals that keep to a source. -/
class Answers (source : Text) (g : Rules) : Prop where
  keeps : ∀ goal, Holds goal.Plain → Keeps source (g goal)

variable {source : Text} {d : Dialect} {g : Rules} {place : Place} {breaks : Bool}

instance (priority := low) keeps_goal [h : Answers source g] {goal : Goal} [hgoal : Holds goal.Plain] :
    Keeps source (g goal) :=
  h.keeps goal hgoal

/-! ## Tokens and the ends of statements -/

instance keeps_token {s : String} : Keeps source (token s) := by
  unfold token
  infer_instance

instance keeps_tokenAlone {s notBefore : String} : Keeps source (tokenAlone s notBefore) := by
  unfold tokenAlone
  infer_instance

instance keeps_immediate {s : String} : Keeps source (immediate s) := by
  unfold immediate
  infer_instance

instance keeps_word {w : String} : Keeps source (word w) := by
  unfold word
  infer_instance

instance keeps_leafOf {k : Kind} {r : Recogniser} [Splits r] [Holds (Plain (.node k))] :
    Keeps source (leafOf k r) := by
  unfold leafOf
  infer_instance

instance keeps_identifier : Keeps source identifier := by
  unfold identifier
  infer_instance

instance keeps_operandIdentifier : Keeps source (operandIdentifier d) := by
  unfold operandIdentifier
  infer_instance

instance keeps_comma : Keeps source comma := by
  unfold comma
  infer_instance

instance keeps_between {opening closing : String} {p : Rule} [Keeps source p] :
    Keeps source (between opening p closing) := by
  unfold between
  infer_instance

instance extends_refuseNext {left : List Tree} : Extends source left refuseNext := ⟨fun _ _ => trivial⟩

instance keeps_impliedEnd {operand signature : Bool} {n : Nat} : Keeps source (impliedEnd d operand signature n) := by
  induction n with
  | zero => exact extends_refuse
  | succ n ih =>
    refine ⟨fun {c _} hc hle => ?_⟩
    simp only [impliedEnd]
    split
    · have hleaf : (leaf (.token "") c.offset c.offset).Fits source := fits_node trivial hc.isCut hc.isCut le_rfl
      exact ⟨hc.congr rfl rfl, hle, hleaf, le_rfl⟩
    · exact Extends.sound hc hle

instance keeps_lineEnd {operand signature : Bool} : Keeps source (lineEnd d operand signature) :=
  ⟨fun hc hle => keeps_impliedEnd.sound hc hle⟩

instance keeps_endOfStatement {operand : Bool} : Keeps source (endOfStatement d operand) := by
  unfold endOfStatement
  infer_instance

/-! ## Literals -/

instance keeps_stringPiece {quote : Char} : Keeps source (stringPiece quote) := by
  refine ⟨fun {c _} hc hle => ?_⟩
  rw [stringPiece]
  split
  · exact Extends.sound hc hle
  · split
    · exact Extends.sound hc hle
    · exact Extends.sound hc hle

instance keeps_quoted {quote : Char} : Keeps source (quoted quote) := by
  dsimp only [quoted]
  infer_instance

instance keeps_stringLiteral : Keeps source stringLiteral := by
  unfold stringLiteral
  infer_instance

instance keeps_templateWith {k slotKind : Kind} {slot : Rule} [Holds (Plain (.node k))] [Holds (Plain (.node slotKind))] [Keeps source slot] :
    Keeps source (templateWith k slotKind slot) := by
  unfold templateWith
  infer_instance

instance keeps_template [Answers source g] : Keeps source (template g) := by
  unfold template
  infer_instance

instance keeps_regex : Keeps source regex := by
  unfold regex
  infer_instance

instance keeps_number : Keeps source number := by
  unfold number
  infer_instance

instance keeps_sparse {p : Rule} [Keeps source p] : Keeps source (sparse p) := by
  unfold sparse
  infer_instance

instance keeps_spread [Answers source g] : Keeps source (spread g) := by
  unfold spread
  infer_instance

instance keeps_arguments [Answers source g] : Keeps source (arguments g) := by
  unfold arguments
  infer_instance

instance keeps_array [Answers source g] : Keeps source (array g) := by
  unfold array
  infer_instance

instance keeps_propertyName [Answers source g] : Keeps source (propertyName g) := by
  unfold propertyName
  infer_instance

instance keeps_objectMember [Answers source g] : Keeps source (objectMember g) := by
  unfold objectMember
  infer_instance

instance keeps_object [Answers source g] : Keeps source (object g) := by
  unfold object
  infer_instance

/-! ## Patterns -/

mutual

/-- **What is read as a pattern** stands where it did. -/
lemma recasts_asPattern? : ∀ {t t' : Tree}, t.Fits source → asPattern? t = some t' → Recasts source t t'
  | .mk (.token s) r m i j ps, t', h, he => by
    obtain rfl : Tree.mk (.token s) r m i j ps = t' := by simpa [asPattern?] using he
    exact recasts_self h
  | .mk (.node k) r m i j ps, t', h, he => by
    have under (k' : Kind) (hk' : Plain (.node k'))
        (hunder : (allAsPattern? ps).map (fun ps' => Tree.mk (.node k') r m i j ps') = some t') :
        Recasts source (.mk (.node k) r m i j ps) t' := by
      obtain ⟨ps', hps', rfl⟩ := Option.map_eq_some_iff.mp hunder
      exact recasts_under h hk' (recasts_allAsPattern? h.parts hps')
    have same (hsame : some (Tree.mk (.node k) r m i j ps) = some t') : Recasts source (.mk (.node k) r m i j ps) t' :=
      Option.some.inj hsame ▸ recasts_self h
    have hparts := forall₂_recasts_self h.parts
    rw [asPattern?.eq_def] at he
    simp only at he
    split at he
    · exact same he
    · split at he
      iterate 10 exact same he
      · obtain rfl := Option.some.inj he
        exact recasts_under h trivial hparts
      iterate 4 exact under _ trivial he
      · split at he
        · cases he
        · obtain rfl := Option.some.inj he
          exact recasts_under h trivial hparts
      · cases he

/-- What is read as parts of a pattern. -/
lemma recasts_allAsPattern? : ∀ {ts ts' : List Tree}, (∀ t ∈ ts, t.Fits source) → allAsPattern? ts = some ts' →
    List.Forall₂ (Recasts source) ts ts'
  | [], ts', h, he => by
    obtain rfl : ts' = [] := by simpa [allAsPattern?, eq_comm] using he
    exact .nil
  | t :: ts, ts', h, he => by
    obtain ⟨ht, hts⟩ := List.forall_mem_cons.mp h
    rw [allAsPattern?] at he
    split at he
    · rename_i t' us' ht' hus'
      obtain rfl := Option.some.inj he
      exact .cons (recasts_asPattern? ht ht') (recasts_allAsPattern? hts hus')
    · cases he

end

instance rereads_filter {change : Tree → Option Tree} {p : Tree → Bool} [h : Rereads source change] :
    Rereads source fun t => (change t).filter p :=
  ⟨fun ht he => h.recasts ht (Option.filter_eq_some_iff.mp he).1⟩

instance rereads_asTarget? : Rereads source asTarget? :=
  ⟨fun h he => recasts_asPattern? h (Option.filter_eq_some_iff.mp he).1⟩

instance keeps_target [Answers source g] : Keeps source (target g) := by
  unfold target
  infer_instance

instance keeps_restTarget [Answers source g] : Keeps source (restTarget g) := by
  unfold restTarget
  infer_instance

instance keeps_pattern [Answers source g] : Keeps source (pattern g) := by
  unfold pattern
  infer_instance

instance keeps_destructuring [Answers source g] : Keeps source (destructuring g) := by
  unfold destructuring
  infer_instance

instance keeps_binding [Answers source g] : Keeps source (binding g) := by
  unfold binding
  infer_instance

/-! ## Types -/

instance keeps_modifier {w : String} : Keeps source (modifier d breaks w) := by
  unfold modifier
  infer_instance

instance keeps_accessibility : Keeps source (accessibility d breaks) := by
  unfold accessibility
  infer_instance

instance keeps_accessor : Keeps source (accessor d breaks) := by
  unfold accessor
  infer_instance

instance keeps_typeAscription [Answers source g] : Keeps source (typeAscription g breaks) := by
  unfold typeAscription
  infer_instance

instance keeps_typePredicate [Answers source g] : Keeps source (typePredicate d g breaks) := by
  unfold typePredicate
  infer_instance

instance keeps_assertion [Answers source g] : Keeps source (assertion d g breaks) := by
  unfold assertion
  infer_instance

instance keeps_resultAscription [Answers source g] : Keeps source (resultAscription d g breaks) := by
  unfold resultAscription
  infer_instance

instance keeps_typeArguments [Answers source g] : Keeps source (typeArguments g) := by
  unfold typeArguments
  infer_instance

instance keeps_typeParameters [Answers source g] : Keeps source (typeParameters g) := by
  unfold typeParameters
  infer_instance

instance keeps_functionType [Answers source g] : Keeps source (functionType d g breaks) := by
  unfold functionType
  infer_instance

instance keeps_constructorType [Answers source g] : Keeps source (constructorType g breaks) := by
  unfold constructorType
  infer_instance

instance keeps_tupleMember [Answers source g] : Keeps source (tupleMember g) := by
  unfold tupleMember
  infer_instance

instance extends_queryGrow [Answers source g] {left : List Tree} : Extends source left (queryGrow g left) := by
  unfold queryGrow
  infer_instance

instance keeps_typeQuery [Answers source g] : Keeps source (typeQuery g) := by
  unfold typeQuery
  infer_instance

instance keeps_importType [Answers source g] : Keeps source (importType g) := by
  unfold importType
  infer_instance

instance keeps_namedType [Answers source g] : Keeps source (namedType g) := by
  unfold namedType
  infer_instance

instance keeps_wordType [Answers source g] : Keeps source (wordType g breaks) := by
  unfold wordType
  infer_instance

instance keeps_typeOperand [Answers source g] : Keeps source (typeOperand d g breaks) := by
  refine ⟨fun {c _} hc hle => ?_⟩
  dsimp only [typeOperand]
  repeat' split
  all_goals exact Extends.sound hc hle

instance extends_typeGrow [Answers source g] {level : Nat} {left : List Tree} :
    Extends source left (typeGrow d g breaks level left) := by
  refine ⟨fun {c _} hc hleft => ?_⟩
  dsimp only [typeGrow]
  repeat' split
  all_goals exact Extends.sound hc hleft

instance keeps_typeExpression [Answers source g] {level : Nat} : Keeps source (typeExpression d g breaks level) := by
  unfold typeExpression
  infer_instance

instance keeps_mappedClause [Answers source g] : Keeps source (mappedClause g) := by
  unfold mappedClause
  infer_instance

instance keeps_indexSignature [Answers source g] : Keeps source (indexSignature g) := by
  unfold indexSignature
  infer_instance

instance keeps_typedPropertyName [Answers source g] : Keeps source (typedPropertyName g) := by
  unfold typedPropertyName
  infer_instance

instance keeps_memberModifiers : Keeps source (memberModifiers d breaks) := by
  unfold memberModifiers
  infer_instance

instance keeps_methodHead [Answers source g] {property : Rule} [Keeps source property] :
    Keeps source (methodHead d g breaks property) := by
  unfold methodHead
  infer_instance

instance keeps_objectTypeMember [Answers source g] : Keeps source (objectTypeMember d g) := by
  unfold objectTypeMember
  infer_instance

instance keeps_objectType [Answers source g] {kind : Kind} [Holds (Plain (.node kind))] :
    Keeps source (objectType d g kind) := by
  dsimp only [objectType]
  infer_instance

/-! ## Functions -/

instance keeps_initializer [Answers source g] : Keeps source (initializer g place) := by
  unfold initializer
  infer_instance

instance keeps_plainParameter [Answers source g] : Keeps source (plainParameter g) := by
  unfold plainParameter
  infer_instance

instance keeps_parameterTail [Answers source g] : Keeps source (parameterTail g) := by
  unfold parameterTail
  infer_instance

instance keeps_typedParameter [Answers source g] : Keeps source (typedParameter d g) := by
  unfold typedParameter
  infer_instance

instance keeps_parameters [Answers source g] : Keeps source (parameters d g) := by
  dsimp only [parameters]
  infer_instance

instance keeps_signature [Answers source g] : Keeps source (signature d g breaks) := by
  unfold signature
  infer_instance

instance keeps_functionExpression [Answers source g] : Keeps source (functionExpression g) := by
  dsimp only [functionExpression]
  infer_instance

instance keeps_method [Answers source g] {inClass : Bool} : Keeps source (method d g inClass) := by
  dsimp only [method]
  infer_instance

/-! ## Classes -/

instance extends_decoratorGrow {left : List Tree} : Extends source left (decoratorGrow left) := by
  unfold decoratorGrow
  infer_instance

instance keeps_decoratorTarget [Answers source g] : Keeps source (decoratorTarget d g) := by
  unfold decoratorTarget
  infer_instance

instance keeps_decorator [Answers source g] : Keeps source (decorator d g) := by
  unfold decorator
  infer_instance

instance keeps_heritage [Answers source g] : Keeps source (heritage d g) := by
  dsimp only [heritage]
  infer_instance

instance keeps_classTail [Answers source g] : Keeps source (classTail d g) := by
  unfold classTail
  infer_instance

instance keeps_className : Keeps source (className d) := by
  unfold className
  split
  · infer_instance
  · infer_instance

instance keeps_classExpression [Answers source g] : Keeps source (classExpression d g) := by
  unfold classExpression
  infer_instance

instance keeps_staticBlock [Answers source g] : Keeps source (staticBlock d g) := by
  unfold staticBlock
  infer_instance

instance keeps_plainField [Answers source g] : Keeps source (plainField d g) := by
  dsimp only [plainField]
  infer_instance

instance keeps_plainMember [Answers source g] : Keeps source (plainMember d g) := by
  unfold plainMember
  infer_instance

instance keeps_signatureEnd : Keeps source (signatureEnd d) := by
  unfold signatureEnd
  infer_instance

instance keeps_fieldModifiers : Keeps source (fieldModifiers d) := by
  dsimp only [fieldModifiers]
  infer_instance

instance keeps_typedField [Answers source g] : Keeps source (typedField d g) := by
  unfold typedField
  infer_instance

instance keeps_abstractMethod [Answers source g] : Keeps source (abstractMethod d g) := by
  unfold abstractMethod
  infer_instance

instance keeps_typedMember [Answers source g] : Keeps source (typedMember d g) := by
  dsimp only [typedMember]
  infer_instance

instance keeps_classBody [Answers source g] : Keeps source (classBody d g) := by
  unfold classBody
  infer_instance

end DocBlocks.Grammar
