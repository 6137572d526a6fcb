import DocBlocks.Grammar.Declaration

/-!
# Imports and exports

## Main definitions

* `importStatement`, `exportStatement`.
-/

namespace DocBlocks.Grammar

open Syntax

/-- Reads the name of something a module exports. -/
def exportedName : Rule := oneOf [identifier, stringLiteral]

/-- Reads `from` and the module. -/
def fromClause : Rule := seq [word "from", stringLiteral]

/-- Reads `* as name`; `name` reads the name. -/
def starAs (k : Kind) (name : Rule) : Rule := node k (seq [token "*", word "as", name])

/-- Reads a name in a list, with the name it gets. A typed dialect may mark it as a type. -/
def specifier (d : Dialect) (k : Kind) (newName : Rule) : Rule :=
  let plain := seq [role .name exportedName, opt (seq [word "as", newName]), whereSo (comesOneOf ",\x7d")]
  node k (oneOf [
    if d.typed then seq [oneOf [word "type", word "typeof"], plain] else refuse,
    plain])

/-- Reads a list of names between braces. -/
def specifiers (d : Dialect) (k item : Kind) (newName : Rule) : Rule :=
  node k (between "\x7b" (opt (seq [sepBy1 (specifier d item newName) comma, opt comma])) "\x7d")

/-- Reads the list of exported names. -/
def exportClause (d : Dialect) : Rule := seq [
  oneOf [specifiers d .exportClause .exportSpecifier exportedName,
    node .exportClause (between "\x7b" comma "\x7d")]]

/-- Reads the names an import binds. -/
def importClause (d : Dialect) : Rule :=
  let whole := starAs .namespaceImport identifier
  let listed := oneOf [specifiers d .namedImports .importSpecifier identifier,
    node .namedImports (between "\x7b" comma "\x7d")]
  node .importClause (oneOf [whole, listed,
    seq [identifier, opt (seq [comma, oneOf [whole, listed]])]])

/-- Reads an import. -/
def importStatement (d : Dialect) (g : Rules) : Rule :=
  let required := node .importRequireClause (seq [identifier, token "=", word "require",
    between "(" stringLiteral ")"])
  let source := oneOf [seq [importClause d, fromClause], if d.typed then required else refuse, stringLiteral]
  let tail := seq [opt (node .importAttribute (seq [word "with", g .object])), endOfStatement d false]
  node .importStatement (seq [word "import",
    if d.typed then oneOf [seq [oneOf [word "type", word "typeof"], source], source] else source, tail])

/-- Reads an export. -/
def exportStatement (d : Dialect) (g : Rules) : Rule :=
  let ended := endOfStatement d false
  let listed := oneOf [
    seq [token "*", fromClause, ended],
    seq [starAs .namespaceExport exportedName, fromClause, ended],
    seq [exportClause d, opt fromClause, ended]]
  let typedOnly := if d.typed then oneOf [
      seq [word "type", exportClause d, opt fromClause, ended],
      seq [tokenAlone "=" "=>", g (.expression .inStatement), endOfStatement d true],
      seq [word "as", word "namespace", identifier, ended]] else refuse
  let initial := seq [role .value (g (.expression .inStatement)), endOfStatement d true]
  node .exportStatement (seq [many (g .decorator), word "export", oneOf [
    seq [word "default", oneOf [declaration d g true, initial]],
    listed, typedOnly, declaration d g false]])

end DocBlocks.Grammar
