/-!
# Kinds of syntax nodes

The vocabulary of the syntax trees: what a named node stands for (`Kind`), which part of its parent
a node fills (`Role`), and the label a node carries (`Label`), which is a kind for a named node and
the spelling of the token for an anonymous one.

## Main definitions

* `Kind`: the kinds of named nodes of the JavaScript and TypeScript dialects.
* `Role`: the parts of a node that a reader asks for by name.
* `Label`: a kind, or the spelling of a token.
-/

namespace DocBlocks.Syntax

/-- What a named node stands for. -/
inductive Kind where
  /-- Text the grammar has no place for. -/
  | error
  | program
  | comment
  | htmlComment
  | hashBangLine
  -- statements
  | exportStatement
  | exportClause
  | exportSpecifier
  | namespaceExport
  | importStatement
  | importClause
  | importSpecifier
  | namedImports
  | namespaceImport
  | importAttribute
  | importRequireClause
  | importAlias
  | importWord
  | expressionStatement
  | variableDeclaration
  | lexicalDeclaration
  | variableDeclarator
  | statementBlock
  | ifStatement
  | elseClause
  | switchStatement
  | switchBody
  | switchCase
  | switchDefault
  | forStatement
  | forInStatement
  | whileStatement
  | doStatement
  | tryStatement
  | catchClause
  | finallyClause
  | withStatement
  | breakStatement
  | continueStatement
  | debuggerStatement
  | returnStatement
  | throwStatement
  | emptyStatement
  | labeledStatement
  | statementIdentifier
  -- functions and classes
  | functionDeclaration
  | generatorFunctionDeclaration
  | functionExpression
  | generatorFunction
  | arrowFunction
  | functionSignature
  | formalParameters
  | requiredParameter
  | optionalParameter
  | classDeclaration
  | abstractClassDeclaration
  | classExpression
  | classHeritage
  | extendsClause
  | implementsClause
  | classBody
  | methodDefinition
  | methodSignature
  | abstractMethodSignature
  | fieldDefinition
  | publicFieldDefinition
  | classStaticBlock
  | decorator
  | accessibilityModifier
  | overrideModifier
  -- expressions
  | sequenceExpression
  | parenthesizedExpression
  | assignmentExpression
  | augmentedAssignmentExpression
  | awaitExpression
  | unaryExpression
  | binaryExpression
  | ternaryExpression
  | updateExpression
  | newExpression
  | yieldExpression
  | callExpression
  | memberExpression
  | subscriptExpression
  | optionalChain
  | arguments
  | spreadElement
  | metaProperty
  | object
  | pair
  | array
  | computedPropertyName
  | identifier
  | shorthandPropertyIdentifier
  | propertyIdentifier
  | privatePropertyIdentifier
  | undefined
  | this
  | super
  | true
  | false
  | null
  | number
  | string
  | stringFragment
  | escapeSequence
  | templateString
  | templateSubstitution
  | regex
  | regexPattern
  | regexFlags
  | asExpression
  | satisfiesExpression
  | instantiationExpression
  | nonNullExpression
  | typeAssertion
  -- patterns
  | objectPattern
  | pairPattern
  | arrayPattern
  | restPattern
  | assignmentPattern
  | objectAssignmentPattern
  | shorthandPropertyIdentifierPattern
  -- markup
  | jsxElement
  | jsxOpeningElement
  | jsxClosingElement
  | jsxSelfClosingElement
  | jsxAttribute
  | jsxExpression
  | jsxText
  | jsxNamespaceName
  | htmlCharacterReference
  -- types
  | typeAscription
  | predicateAscription
  | assertsAscription
  | typePredicate
  | asserts
  | typeIdentifier
  | nestedTypeIdentifier
  | nestedIdentifier
  | genericType
  | typeArguments
  | typeParameters
  | typeParameter
  | constraint
  | defaultType
  | predefinedType
  | parenthesizedType
  | functionType
  | constructorType
  | readonlyType
  | inferType
  | conditionalType
  | unionType
  | intersectionType
  | arrayType
  | lookupType
  | tupleType
  | optionalType
  | restType
  | flowMaybeType
  | existentialType
  | typeQuery
  | indexTypeQuery
  | thisType
  | literalType
  | templateLiteralType
  | templateType
  | objectType
  | propertySignature
  | callSignature
  | constructSignature
  | indexSignature
  | mappedTypeClause
  | typeAliasDeclaration
  | interfaceDeclaration
  | interfaceBody
  | extendsTypeClause
  | enumDeclaration
  | enumBody
  | enumAssignment
  | moduleDeclaration
  | internalModule
  | ambientDeclaration
  deriving DecidableEq, Repr, Inhabited

/-- The part of its parent that a node fills. -/
inductive Role where
  | name
  | value
  | parameters
  | parameter
  | body
  | returnType
  | left
  | right
  | pattern
  | type
  | callee
  | object
  | property
  | typeArguments
  deriving DecidableEq, Repr, Inhabited

/-- The label of a node: its kind if it is named, its spelling if it is a bare token. -/
inductive Label where
  | node (kind : Kind)
  | token (spelling : String)
  deriving DecidableEq, Repr, Inhabited

end DocBlocks.Syntax
