import DocBlocks.Grammar.ImportExport

/-!
# Statements

A statement is told by its first word or mark. A word that could also be a name is decided by what
follows.

## Main definitions

* `statement`: any statement; `program`: a whole source.
-/

namespace DocBlocks.Grammar

open Syntax

/-- Reads a comment of the kind that web pages put around scripts. -/
def htmlComment : Rule := lexeme htmlComment? (.node .htmlComment)

/-- Reads statements. -/
def statements (g : Rules) : Rule := many (oneOf [htmlComment, item (g .statement)])

/-- Reads expressions as a statement. -/
def expressionStatement (d : Dialect) (g : Rules) : Rule :=
  node .expressionStatement (seq [g (.expressions .inStatement), endOfStatement d true])

/-- Reads a condition in parentheses. -/
def condition (d : Dialect) (g : Rules) : Rule :=
  node .parenthesizedExpression (between "(" (seq [g (.expressions .enclosed),
    if d.typed then opt (g (.typeAscription false)) else done]) ")")

/-- Reads an empty statement. -/
def emptyStatement : Rule := node .emptyStatement (token ";")

/-! ## Control flow -/

/-- Reads a node of kind `k` that the word `w` starts, if that word comes. -/
def clause (k : Kind) (w : String) (p : Rule) : Rule :=
  oneOf [node k (seq [word w, p]), notAhead (word w)]

/-- Reads an `if` statement. -/
def ifStatement (d : Dialect) (g : Rules) : Rule :=
  node .ifStatement (seq [word "if", condition d g, g .statement, clause .elseClause "else" (g .statement)])

/-- Reads a `switch` statement. -/
def switchStatement (d : Dialect) (g : Rules) : Rule :=
  node .switchStatement (seq [word "switch", condition d g,
    node .switchBody (between "\x7b" (many (item (oneOf [
      node .switchCase (seq [word "case", g (.expressions .enclosed), token ":", statements g]),
      node .switchDefault (seq [word "default", token ":", statements g])]))) "\x7d")])

/-- Reads the head of a loop over the members of something. -/
def memberLoopHead (d : Dialect) (g : Rules) : Rule :=
  let bound := oneOf [
    seq [word "var", binding g, opt (initializer g .enclosed)],
    seq [oneOf [word "let", word "const"], binding g, opt (lineEnd d false false)]]
  let direction := oneOf [word "in", word "of"]
  seq [token "(",
    oneOf [
      seq [role .left bound, direction],
      seq [role .left (oneOf [condition d g, target g]), direction]],
    role .right (g (.expressions .enclosed)), token ")"]

/-- Reads the head of a loop with a condition and a step. -/
def countingLoopHead (d : Dialect) (g : Rules) : Rule :=
  let clause := oneOf [emptyStatement, seq [g (.expressions .enclosed), token ";"]]
  seq [token "(",
    oneOf [
      seq [whereSo (comesWord "var"), variableDeclaration d g],
      seq [whereSo fun c => comesWord "let" c || comesWord "const" c, lexicalDeclaration d g],
      clause],
    clause, opt (g (.expressions .enclosed)), token ")"]

/-- Reads a `for` statement. -/
def forStatement (d : Dialect) (g : Rules) : Rule :=
  let body := role .body (g .statement)
  oneOf [
    node .forInStatement (seq [word "for", opt (word "await"), memberLoopHead d g, body]),
    node .forStatement (seq [word "for", countingLoopHead d g, body])]

/-- Reads a `try` statement. -/
def tryStatement (d : Dialect) (g : Rules) : Rule :=
  let body := role .body (g (.block false))
  let caught := between "("
    (seq [role .parameter (binding g), if d.typed then opt (g (.typeAscription false)) else done]) ")"
  node .tryStatement (seq [word "try", body,
    clause .catchClause "catch" (seq [opt caught, body]),
    clause .finallyClause "finally" body])

/-- Reads a statement that leaves a loop; it may name a label on its line. -/
def jump (d : Dialect) (k : Kind) (w : String) : Rule :=
  node k (seq [word w,
    opt (seq [whereSo fun c => !atLineEnd d false c, leafOf .statementIdentifier name?]), endOfStatement d false])

/-- Reads a `return` statement; its value starts on its line. -/
def returnStatement (d : Dialect) (g : Rules) : Rule :=
  node .returnStatement (seq [word "return", oneOf [
    seq [whereSo fun c => !atLineEnd d false c, g (.expressions .inStatement), endOfStatement d true],
    endOfStatement d false]])

/-- Reads the statement that starts with the given keyword, if there is one. -/
def keywordStatement? (d : Dialect) (g : Rules) (w : Text) : Option Rule :=
  let body := g .statement
  if w = "if".toList then some (ifStatement d g)
  else if w = "for".toList then some (forStatement d g)
  else if w = "while".toList then some (node .whileStatement (seq [word "while", condition d g, body]))
  else if w = "do".toList then
    some (node .doStatement (seq [word "do", body, word "while", condition d g, opt (endOfStatement d false)]))
  else if w = "switch".toList then some (switchStatement d g)
  else if w = "try".toList then some (tryStatement d g)
  else if w = "with".toList then some (node .withStatement (seq [word "with", condition d g, body]))
  else if w = "break".toList then some (jump d .breakStatement "break")
  else if w = "continue".toList then some (jump d .continueStatement "continue")
  else if w = "debugger".toList then
    some (node .debuggerStatement (seq [word "debugger", endOfStatement d false]))
  else if w = "return".toList then some (returnStatement d g)
  else if w = "throw".toList then
    some (node .throwStatement (seq [word "throw", g (.expressions .inStatement), endOfStatement d true]))
  else if w = "var".toList then some (variableDeclaration d g)
  else none

/-! ## Names and declarations -/

/-- Reads a statement that starts with a name: a labeled statement, or an expression. -/
def nameStatement (d : Dialect) (g : Rules) : Rule := fun c =>
  match leafOf .statementIdentifier (nameExcept? (operandWords d)) c with
  | .accepted label next =>
    if comes ":" next then node .labeledStatement (after label (seq [token ":", g .statement])) next
    else expressionStatement d g c
  | .refused _ => expressionStatement d g c

/-- Whether a function or class just read must be the left operand of an expression. -/
def continuesExpression (c : Cursor) : Bool :=
  match upcoming c with
  | '.' :: r => !(r.head?.any Char.isDigit)
  | '!' :: r => r.head? = some '='
  | t => comesOneOf ",=*%&|^>?" c || (word? "in".toList t).isSome || (word? "instanceof".toList t).isSome

/-- Reads a declaration, or an expression where an operator follows. -/
def declarationOr (declared expressed : Rule) : Rule := fun c =>
  match declared c with
  | .accepted forest next =>
    if continuesExpression next then
      match expressed c with
      | .accepted forest' next' => .accepted forest' next'
      | .refused _ => .accepted forest next
    else .accepted forest next
  | .refused seen => .refused seen

/-- Reads a statement that starts with a function or class: a declaration if `named`. -/
def declaredStatement (d : Dialect) (g : Rules) (named : Cursor → Bool) : Rule := fun c =>
  if named c then declarationOr (declaration d g true) (expressionStatement d g) c
  else expressionStatement d g c

/-- Whether `function` and a name come. -/
def namesFunction (c : Cursor) : Bool :=
  match seq [opt (word "async"), word "function", opt (token "*"), identifier] c with
  | .accepted _ _ => true
  | .refused _ => false

/-- Whether `class` and a name come. -/
def namesClass (d : Dialect) (c : Cursor) : Bool :=
  match seq [word "class", className d] c with
  | .accepted _ _ => true
  | .refused _ => false

/-- Whether `let` at the cursor starts a declaration. -/
def letDeclares (d : Dialect) (c : Cursor) : Bool :=
  followedBy d (fun n => comesName n || comesOneOf "\x7b[" n) c

/-- Reads a statement that starts with the given word. -/
def wordStatement (d : Dialect) (g : Rules) (w : Text) : Rule := fun c =>
  match keywordStatement? d g w with
  | some rule => rule c
  | none =>
    if w = "function".toList then declaredStatement d g namesFunction c
    else if w = "async".toList then
      if followedBy d (comesWord "function") c then declaredStatement d g namesFunction c
      else nameStatement d g c
    else if w = "class".toList then declaredStatement d g (namesClass d) c
    else if w = "const".toList then declaration d g true c
    else if w = "let".toList then
      if letDeclares d c then lexicalDeclaration d g c else nameStatement d g c
    else if w = "import".toList then
      if followedBy d (comesOneOf "(.") c then expressionStatement d g c
      else oneOf [importStatement d g, if d.typed then importAlias d else refuse] c
    else if w = "export".toList then
      if followedBy d (fun n => comesOneOf "*\x7b@" n || (name? (upcoming n)).isSome || (d.typed && comes "=" n)) c then
        exportStatement d g c
      else nameStatement d g c
    else if d.typed ∧ (w = "interface".toList ∨ w = "enum".toList ∨ w = "abstract".toList) then declaration d g true c
    else if d.typed ∧ (w = "type".toList ∨ w = "declare".toList) ∧ followedBy d comesName c then declaration d g true c
    else if d.typed ∧ (w = "namespace".toList ∨ w = "module".toList) ∧
        followedBy d (fun n => comesName n || comesOneOf "\"'" n) c then
      declaration d g true c
    else nameStatement d g c

/-- Reads a statement. -/
def statement (d : Dialect) (g : Rules) : Rule := fun c =>
  match name? (upcoming c) with
  | some (w, _) => wordStatement d g w c
  | none =>
    if comes "\x7b" c then blockOr (g (.block false)) (expressionStatement d g) c
    else if comes ";" c then emptyStatement c
    else if comes "@" c then
      oneOf [declarationOr (declaration d g true) (expressionStatement d g), exportStatement d g,
        expressionStatement d g] c
    else expressionStatement d g c

/-- A line at the very start of a source that names its interpreter. -/
def hashBang? : Recogniser
  | '#' :: '!' :: t => some ('#' :: '!' :: t.takeWhile (· ≠ '\n'), t.dropWhile (· ≠ '\n'))
  | _ => none

/-- Reads a whole source. -/
def program (g : Rules) : Rule :=
  seq [opt (lexeme hashBang? (.node .hashBangLine)), statements g, comments,
    oneOf [whereSo atEnd, refuseNext]]

end DocBlocks.Grammar
