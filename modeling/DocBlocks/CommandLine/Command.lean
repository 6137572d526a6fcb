import DocBlocks.Annotation.Rendering
import DocBlocks.CommandLine.Form

/-!
# Commands

What can be asked for on the command line.

## Main definitions

* `Command`: the commands with what they are given.
* `CommandLine`: a command, and the configuration it runs with.
* `CommandLine.read`: the command in a list of arguments.
-/

namespace DocBlocks

/-- A command. -/
inductive Command where
  /-- Document a file, or the files of a folder. -/
  | annotate (target : Text) (o : Options)
  /-- List the units of a file. -/
  | extract (file : Text)
  /-- Store the model to ask. -/
  | model (name : Text)
  deriving DecidableEq, Repr, Inhabited

/-- A command, and the file that its settings come from. -/
structure CommandLine where
  config : Option Text
  command : Command
  deriving DecidableEq, Repr, Inhabited

namespace CommandLine

/-- The option that asks for an explanation. -/
def helpOption : OptionForm := ⟨"help".toList, some 'h', .help⟩

/-- What may stand in front of a command. -/
def root : Form where
  options := [⟨"config".toList, some 'c', .value .path⟩, ⟨"verbose".toList, some 'v', .switch⟩, helpOption,
    ⟨"version".toList, some 'V', .version⟩]
  commands := ["annotate".toList, "extract".toList, "model".toList, "help".toList]

/-- What may follow `annotate`. -/
def annotateForm : Form where
  options := [⟨"overwrite".toList, none, .switch⟩, ⟨"dry-run".toList, none, .switch⟩, ⟨"llm".toList, none, .switch⟩,
    ⟨"interactive".toList, some 'i', .switch⟩, ⟨"model".toList, some 'm', .value .text⟩, helpOption]
  operand := some ("target".toList, .path)

/-- What may follow `extract`. -/
def extractForm : Form where
  options := [helpOption]
  operand := some ("file".toList, .path)

/-- What may follow `model`. -/
def modelForm : Form where
  options := [helpOption]
  operand := some ("name".toList, .text)

/-- The values that follow the name of a command. -/
def values (f : Form) (arguments : List Text) : Except Refusal (List (Text × Text)) := do
  let (r, _) ← Reading.arguments f {} arguments
  r.finish f

/-- The value under a name, empty if there is none. -/
def valueOf (name : String) (vs : List (Text × Text)) : Text := (vs.lookup name.toList).getD []

/-- Whether there is a value under a name. -/
def isGiven (name : String) (vs : List (Text × Text)) : Bool := (vs.lookup name.toList).isSome

/-- The command with a name. -/
def readCommand (name : Text) (arguments : List Text) : Except Refusal Command :=
  if name = "annotate".toList then do
    let vs ← values annotateForm arguments
    return .annotate (valueOf "target" vs)
      { overwrite := isGiven "overwrite" vs
        preview := isGiven "dry-run" vs
        interactive := isGiven "interactive" vs
        external := isGiven "llm" vs
        model := vs.lookup "model".toList }
  else if name = "extract".toList then do
    return .extract (valueOf "file" (← values extractForm arguments))
  else do
    return .model (valueOf "name" (← values modelForm arguments))

/-- The answer to `help` with some arguments: it explains one command, or all of them. -/
def helpFor : List Text → Refusal
  | [] => .help
  | [name] => if root.commands.contains name then .help else .unknownCommand
  | _ :: _ :: _ => .unknownCommand

/-- The command in a list of arguments. -/
def read (arguments : List Text) : Except Refusal CommandLine := do
  match ← Reading.arguments root {} arguments with
  | (r, []) =>
    let vs ← r.finish root
    .error (if vs = [] then .bare else .commandMissing)
  | (r, name :: rest) =>
    if name = "help".toList then .error (helpFor rest)
    else
      let c ← readCommand name rest
      let vs ← r.finish root
      return ⟨vs.lookup "config".toList, c⟩

end CommandLine

end DocBlocks
