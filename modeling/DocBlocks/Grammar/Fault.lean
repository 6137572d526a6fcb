import DocBlocks.Grammar.Repair

/-!
# Faults

Where a refused source goes wrong: at the first of the repairs with which it can be read.

## Main definitions

* `fault`: the place where a source goes wrong, and whether something is missing there.
* `parse`: the syntax tree of a source, with a node at the fault of a refused one.
-/

namespace DocBlocks.Grammar

open Syntax

/-- Where a source goes wrong that is refused at `f`. -/
def fault (d : Dialect) (source : Text) (f : Frontier) : Fault :=
  (repair d maxRepairs { text := source } f).fault.getD ⟨false, firstToken source⟩

/-- The syntax tree of a source. -/
def parse (d : Dialect) (source : Text) : Tree :=
  match readProgram d source with
  | .ok forest => .mk (.node .program) none false 0 source.bytes forest
  | .error f =>
    let found := fault d source f
    .mk (.node .program) none false 0 source.bytes
      [if found.missing then .mk (.token "") none true found.start found.start []
      else .mk (.node .error) none false found.start source.bytes []]

end DocBlocks.Grammar
