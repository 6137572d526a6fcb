import DocBlocks.CommandLine.Command

/-!
# Usage

What is said to a user whose arguments make no command.
-/

namespace DocBlocks

/-- The version of the program. -/
def version : Text := "docblocks 0.1.0".toList

/-- How commands are written. -/
def usage : Text :=
  ("Adds JSDoc blocks to JavaScript and TypeScript functions\n\n" ++
    "Usage: docblocks [-c PATH] [-v] COMMAND\n\n" ++
    "Commands:\n" ++
    "  annotate TARGET [--overwrite] [--dry-run] [--llm] [-i] [-m MODEL]\n" ++
    "                 Document a file or every supported file in a folder\n" ++
    "  extract FILE   List the documentable units found in a file\n" ++
    "  model NAME     Store the model to ask\n" ++
    "  help           Show this text\n").toList

namespace Refusal

/-- Whether the user asked for what is said. -/
def isAnswer : Refusal → Bool
  | help | version => true
  | _ => false

/-- What is said to the user. -/
def message : Refusal → Text
  | help | bare => usage
  | version => DocBlocks.version ++ ['\n']
  | commandMissing => "A command is missing.\n".toList
  | unknownCommand => "There is no such command.\n".toList
  | unknownArgument => "There is no such argument.\n".toList
  | surplusValue => "A switch has a value.\n".toList
  | repeated => "An option stands twice.\n".toList
  | badValue => "A value is missing or empty.\n".toList
  | operandMissing => "An argument is missing.\n".toList

end Refusal

end DocBlocks
