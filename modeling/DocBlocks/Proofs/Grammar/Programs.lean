import DocBlocks.Proofs.Grammar.Expressions
import DocBlocks.Grammar.Fault

/-!
# Programs keep to their source

Declarations and statements keep to the source they read. Tying the knot, all rules of the grammar
do. So the trees of a source are laid in it, and the tree of a source that is accepted fits the
source.

## Main results

* `answers_grammar`: the rules of the grammar.
* `laid_readProgram`: the trees of a source that is read.
* `fits_parse`: the tree of a source that is accepted.
-/

namespace DocBlocks.Grammar

open Syntax Syntax.Tree Text

variable {source : Text} {d : Dialect} {g : Rules}

/-! ## Declarations -/

instance keeps_block {statements : Rule} [Keeps source statements] {operand : Bool} :
    Keeps source (block d statements operand) := by
  unfold block
  infer_instance

instance keeps_declarator [Answers source g] : Keeps source (declarator d g) := by
  unfold declarator
  infer_instance

instance keeps_declarators [Answers source g] : Keeps source (declarators d g) := by
  unfold declarators
  infer_instance

instance keeps_variableDeclaration [Answers source g] : Keeps source (variableDeclaration d g) := by
  unfold variableDeclaration
  infer_instance

instance keeps_lexicalDeclaration [Answers source g] : Keeps source (lexicalDeclaration d g) := by
  unfold lexicalDeclaration
  infer_instance

instance keeps_functionDeclaration [Answers source g] {operand : Bool} :
    Keeps source (functionDeclaration d g operand) := by
  dsimp only [functionDeclaration]
  infer_instance

instance keeps_classDeclaration [Answers source g] : Keeps source (classDeclaration d g) := by
  unfold classDeclaration
  infer_instance

instance keeps_abstractClass [Answers source g] : Keeps source (abstractClass d g) := by
  unfold abstractClass
  infer_instance

instance keeps_dottedName : Keeps source dottedName := by
  unfold dottedName
  infer_instance

instance keeps_typeAlias [Answers source g] : Keeps source (typeAlias d g) := by
  unfold typeAlias
  infer_instance

instance keeps_interfaceDeclaration [Answers source g] : Keeps source (interfaceDeclaration g) := by
  unfold interfaceDeclaration
  infer_instance

instance keeps_enumDeclaration [Answers source g] : Keeps source (enumDeclaration g) := by
  dsimp only [enumDeclaration]
  infer_instance

instance keeps_namespaceTail [Answers source g] : Keeps source (namespaceTail g) := by
  unfold namespaceTail
  infer_instance

instance keeps_namespaceDeclaration [Answers source g] : Keeps source (namespaceDeclaration g) := by
  unfold namespaceDeclaration
  infer_instance

instance keeps_importAlias : Keeps source (importAlias d) := by
  unfold importAlias
  infer_instance

instance keeps_typedDeclaration [Answers source g] {declared : Rule} [Keeps source declared] {w : Text} :
    Keeps source (typedDeclaration d g declared w) := by
  refine ⟨fun {c _} hc hle => ?_⟩
  dsimp only [typedDeclaration]
  repeat' split
  all_goals exact Extends.sound hc hle

instance keeps_declarationAt [Answers source g] {declared : Rule} [Keeps source declared] {operand : Bool} {w : Text} :
    Keeps source (declarationAt d g declared operand w) := by
  unfold declarationAt
  infer_instance

instance keeps_declarationWithin [Answers source g] {operand : Bool} {n : Nat} :
    Keeps source (declarationWithin d g operand n) := by
  induction n with
  | zero => exact extends_refuseNext
  | succ n ih =>
    refine ⟨fun {c _} hc hle => ?_⟩
    simp only [declarationWithin]
    split
    · exact Extends.sound hc hle
    · split
      · exact Extends.sound hc hle
      · exact Extends.sound hc hle

instance keeps_declaration [Answers source g] {operand : Bool} : Keeps source (declaration d g operand) :=
  ⟨fun hc hle => keeps_declarationWithin.sound hc hle⟩

/-! ## Imports and exports -/

instance keeps_exportedName : Keeps source exportedName := by
  unfold exportedName
  infer_instance

instance keeps_fromClause : Keeps source fromClause := by
  unfold fromClause
  infer_instance

instance keeps_starAs {k : Kind} [Holds (Plain (.node k))] {name : Rule} [Keeps source name] :
    Keeps source (starAs k name) := by
  unfold starAs
  infer_instance

instance keeps_specifier {k : Kind} [Holds (Plain (.node k))] {newName : Rule} [Keeps source newName] :
    Keeps source (specifier d k newName) := by
  dsimp only [specifier]
  infer_instance

instance keeps_specifiers {k item : Kind} [Holds (Plain (.node k))] [Holds (Plain (.node item))] {newName : Rule} [Keeps source newName] :
    Keeps source (specifiers d k item newName) := by
  unfold specifiers
  infer_instance

instance keeps_exportClause : Keeps source (exportClause d) := by
  unfold exportClause
  infer_instance

instance keeps_importClause : Keeps source (importClause d) := by
  dsimp only [importClause]
  infer_instance

instance keeps_importStatement [Answers source g] : Keeps source (importStatement d g) := by
  dsimp only [importStatement]
  infer_instance

instance keeps_exportStatement [Answers source g] : Keeps source (exportStatement d g) := by
  dsimp only [exportStatement]
  infer_instance

/-! ## Statements -/

instance keeps_htmlComment : Keeps source htmlComment :=
  keeps_lexeme_of splits_htmlComment? fun _ _ _ _ h => closesBlock_of_htmlComment? h

instance keeps_statements [Answers source g] : Keeps source (statements g) := by
  unfold statements
  infer_instance

instance keeps_expressionStatement [Answers source g] : Keeps source (expressionStatement d g) := by
  unfold expressionStatement
  infer_instance

instance keeps_condition [Answers source g] : Keeps source (condition d g) := by
  unfold condition
  infer_instance

instance keeps_emptyStatement : Keeps source emptyStatement := by
  unfold emptyStatement
  infer_instance

instance keeps_clause {k : Kind} {w : String} {p : Rule} [Holds (Plain (.node k))] [Keeps source p] :
    Keeps source (clause k w p) := by
  unfold clause
  infer_instance

instance keeps_ifStatement [Answers source g] : Keeps source (ifStatement d g) := by
  unfold ifStatement
  infer_instance

instance keeps_switchStatement [Answers source g] : Keeps source (switchStatement d g) := by
  unfold switchStatement
  infer_instance

instance keeps_memberLoopHead [Answers source g] : Keeps source (memberLoopHead d g) := by
  dsimp only [memberLoopHead]
  infer_instance

instance keeps_countingLoopHead [Answers source g] : Keeps source (countingLoopHead d g) := by
  dsimp only [countingLoopHead]
  infer_instance

instance keeps_forStatement [Answers source g] : Keeps source (forStatement d g) := by
  dsimp only [forStatement]
  infer_instance

instance keeps_tryStatement [Answers source g] : Keeps source (tryStatement d g) := by
  dsimp only [tryStatement]
  infer_instance

instance keeps_jump {k : Kind} {w : String} [Holds (Plain (.node k))] : Keeps source (jump d k w) := by
  unfold jump
  infer_instance

instance keeps_returnStatement [Answers source g] : Keeps source (returnStatement d g) := by
  unfold returnStatement
  infer_instance

/-- What reads with a rule that keeps to a source, or with none at all. -/
class MaybeKeeps (source : Text) (found : Option Rule) : Prop where
  all : ∀ rule, found = some rule → Keeps source rule

instance maybeKeeps_none : MaybeKeeps source none := ⟨by simp⟩

instance maybeKeeps_some {p : Rule} [h : Keeps source p] : MaybeKeeps source (some p) :=
  ⟨fun _ he => Option.some.inj he ▸ h⟩

instance maybeKeeps_ite {b : Prop} [Decidable b] {found other : Option Rule} [h : MaybeKeeps source found]
    [h' : MaybeKeeps source other] : MaybeKeeps source (if b then found else other) := by
  split
  · exact h
  · exact h'

instance maybeKeeps_keywordStatement? [Answers source g] {w : Text} :
    MaybeKeeps source (keywordStatement? d g w) := by
  dsimp only [keywordStatement?]
  infer_instance

instance keeps_nameStatement [Answers source g] : Keeps source (nameStatement d g) := by
  refine ⟨fun {c start} hc hle => ?_⟩
  have hreply := (keeps_leafOf (k := .statementIdentifier) (r := nameExcept? (operandWords d))).sound hc hle
  unfold nameStatement
  split
  · rename_i label next hn
    obtain ⟨hnext, hlabel⟩ := hreply.of_accepted hn
    split
    · exact Extends.sound hnext hlabel
    · exact Extends.sound hc hle
  · exact Extends.sound hc hle

instance keeps_declarationOr {declared expressed : Rule} [hd : Keeps source declared] [he : Keeps source expressed] :
    Keeps source (declarationOr declared expressed) := by
  refine ⟨fun {c _} hc hle => ?_⟩
  have hdeclared := hd.sound hc hle
  have hexpressed := he.sound hc hle
  rw [declarationOr]
  split
  · rename_i forest next hn
    rw [hn] at hdeclared
    split
    · split
      · rename_i forest' next' hn'
        rwa [hn'] at hexpressed
      · exact hdeclared
    · exact hdeclared
  · trivial

instance keeps_declaredStatement [Answers source g] {named : Cursor → Bool} :
    Keeps source (declaredStatement d g named) := by
  refine ⟨fun {c _} hc hle => ?_⟩
  dsimp only [declaredStatement]
  repeat' split
  all_goals exact Extends.sound hc hle

instance keeps_wordStatement [Answers source g] {w : Text} : Keeps source (wordStatement d g w) := by
  refine ⟨fun {c _} hc hle => ?_⟩
  unfold wordStatement
  split
  · rename_i rule hrule
    exact (maybeKeeps_keywordStatement?.all rule hrule).sound hc hle
  · repeat' split
    all_goals exact Extends.sound hc hle

instance keeps_statement [Answers source g] : Keeps source (statement d g) := by
  refine ⟨fun {c _} hc hle => ?_⟩
  dsimp only [statement]
  repeat' split
  all_goals exact Extends.sound hc hle

instance keeps_program [Answers source g] : Keeps source (program g) := by
  unfold program
  infer_instance

/-! ## Tying the knot -/

instance answers_production [Answers source g] : Answers source (production d g) := by
  refine ⟨fun goal hgoal => ?_⟩
  cases goal
  all_goals
    unfold production
    infer_instance

/-- **The rules of the grammar** keep to each source. -/
instance answers_grammar (depth : Nat) : Answers source (grammar d depth) := by
  induction depth with
  | zero => exact ⟨fun _ _ => extends_refuse⟩
  | succ depth ih => exact ⟨fun goal hgoal => (answers_production (g := grammar d depth)).keeps goal hgoal⟩

/-- **The trees of a source** that is read are laid in the source. -/
lemma laid_readProgram {forest : List Tree} (h : readProgram d source = .ok forest) :
    Laid source 0 source.bytes forest := by
  have hstart : At source { rest := source, offset := 0 } := ⟨[], rfl, rfl⟩
  have hreply := (keeps_program (g := grammar d (depthFor source.length))).reads hstart
  rw [readProgram] at h
  split at h
  · rename_i read next hn
    obtain ⟨hnext, hread⟩ := hreply.of_accepted hn
    split at h
    · cases h
    · exact Except.ok.inj h ▸ hread.mono le_rfl hnext.le
  · cases h

/-- **The tree of a source** that is accepted fits the source. -/
theorem fits_parse (h : (parse d source).hasError = false) : (parse d source).Fits source := by
  rw [parse] at h ⊢
  split at h
  · rename_i forest hread
    exact fits_node trivial (isCut_iff.mpr ⟨[], source, rfl, rfl⟩) (isCut_iff.mpr ⟨source, [], by simp, rfl⟩)
      (laid_readProgram hread)
  · simp only at h
    split at h
    · simp [hasError, anyError] at h
    · simp [hasError, anyError] at h

end DocBlocks.Grammar
