import DocBlocks.Text.Basic

/-!
# Forms of commands

A command is written as a list of arguments: options by their names, and operands. Arguments are
read one by one. The value of an option or operand is looked at only when the next option or operand
comes up, or at the end.

## Main definitions

* `Form`: the options and operands that a command may have.
* `Refusal`: why arguments do not make a command.
* `Reading`: what has been read of some arguments.
* `Reading.arguments`: reads arguments.
* `Reading.finish`: the values that were read.
-/

namespace DocBlocks

/-- What a value may be. -/
inductive ValueKind where
  /-- Any text. -/
  | text
  /-- A text that is not empty. -/
  | path
  deriving DecidableEq, Repr, Inhabited

/-- What an option is for. -/
inductive OptionKind where
  | switch
  /-- It has a value, in the same argument or in the next one. -/
  | value (kind : ValueKind)
  | help
  | version
  deriving DecidableEq, Repr, Inhabited

/-- An option with its long and its short name. -/
structure OptionForm where
  long : Text
  short : Option Char
  kind : OptionKind
  deriving DecidableEq, Repr, Inhabited

/-- What a command may have. -/
structure Form where
  options : List OptionForm
  /-- The name and the kind of its one operand. -/
  operand : Option (Text × ValueKind) := none
  /-- The commands that may follow if it has no operand. -/
  commands : List Text := []
  deriving DecidableEq, Repr, Inhabited

/-- Why arguments do not make a command. -/
inductive Refusal where
  /-- An explanation is asked for. -/
  | help
  /-- The version is asked for. -/
  | version
  /-- There are no arguments. -/
  | bare
  | commandMissing
  | unknownCommand
  | unknownArgument
  /-- A switch has a value. -/
  | surplusValue
  /-- An option stands twice. -/
  | repeated
  /-- An option has no value, or one of the wrong kind. -/
  | badValue
  | operandMissing
  deriving DecidableEq, Repr, Inhabited

/-- An option or operand whose value has not been looked at, or has not come up. -/
structure Pending where
  name : Text
  kind : ValueKind
  value : Option Text
  deriving DecidableEq, Repr, Inhabited

/-- What has been read of some arguments. -/
structure Reading where
  /-- The values by name. Switches have an empty one. -/
  values : List (Text × Text) := []
  pending : Option Pending := none
  /-- Whether the rest are operands, however they look. -/
  operandsOnly : Bool := false
  deriving DecidableEq, Repr, Inhabited

namespace Reading

/-- Whether there is a value under a name. -/
def has (r : Reading) (name : Text) : Bool := (r.values.lookup name).isSome

/-- Adds a value under a name. -/
def add (r : Reading) (name : Text) (kind : ValueKind) (value : Text) : Except Refusal Reading :=
  if r.has name then .error .repeated
  else if kind = .path ∧ value = [] then .error .badValue
  else .ok { r with values := r.values ++ [(name, value)] }

/-- Looks at the pending value. -/
def settle (r : Reading) : Except Refusal Reading :=
  match r.pending with
  | none => .ok r
  | some ⟨_, _, none⟩ => .error .badValue
  | some ⟨name, kind, some value⟩ => { r with pending := none }.add name kind value

/-- Takes an option, with the value that stands in the same argument. -/
def takeOption (r : Reading) (o : OptionForm) (attached : Option Text) : Except Refusal Reading := do
  let r ← r.settle
  match o.kind, attached with
  | .switch, _ => r.add o.long .text []
  | .value kind, some value => r.add o.long kind value
  | .value kind, none => .ok { r with pending := some ⟨o.long, kind, none⟩ }
  | .help, _ => .error .help
  | .version, _ => .error .version

/-- Takes an option by its long name. -/
def takeLong (f : Form) (r : Reading) (name : Text) (attached : Option Text) : Except Refusal Reading :=
  match f.options.find? (·.long = name) with
  | none => .error .unknownArgument
  | some o =>
    match o.kind, attached with
    | .value _, _ | _, none => r.takeOption o attached
    | _, some _ => .error .surplusValue

/-- Takes options by their short names. The rest behind an option that has a value is its value. -/
def takeShort (f : Form) (r : Reading) : List Char → Except Refusal Reading
  | [] => .ok r
  | c :: rest =>
    match f.options.find? (·.short = some c) with
    | none => .error .unknownArgument
    | some o =>
      match o.kind, rest with
      | .value _, [] => r.takeOption o none
      | .value _, '=' :: value => r.takeOption o (some value)
      | .value _, value => r.takeOption o (some value)
      | _, _ => do takeShort f (← r.takeOption o none) rest

/-- Takes an argument that is no option. -/
def takeOperand (f : Form) (r : Reading) (argument : Text) : Except Refusal Reading :=
  match f.operand with
  | some (name, kind) =>
    if r.has name ∨ r.pending.any (·.name = name) then .error .unknownArgument
    else do return { ← r.settle with pending := some ⟨name, kind, some argument⟩ }
  | none =>
    .error (if r.operandsOnly ∧ f.commands.contains argument then .unknownArgument else .unknownCommand)

/-- The pending option whose value has not come up. -/
def waiting? (r : Reading) : Option Pending := r.pending.filter (·.value.isNone)

/-- The name behind two dashes, and the value behind an equals sign. -/
def long? : Text → Option (Text × Option Text)
  | '-' :: '-' :: c :: t =>
    let name := (c :: t).takeWhile (· ≠ '=')
    some (name, ((c :: t).drop name.length).tail?)
  | _ => none

/-- The names behind one dash. -/
def short? : Text → Option (List Char)
  | '-' :: c :: t => if c = '-' then none else some (c :: t)
  | _ => none

/-- Takes an argument. -/
def take (f : Form) (r : Reading) (argument : Text) : Except Refusal Reading :=
  if r.operandsOnly then r.takeOperand f argument
  else if argument = ['-', '-'] then .ok { r with operandsOnly := true }
  else
    match long? argument, short? argument with
    | some (name, attached), _ => r.takeLong f name attached
    | none, some names => r.takeShort f names
    | none, none =>
      match r.waiting? with
      | some p => .ok { r with pending := some { p with value := some argument } }
      | none => r.takeOperand f argument

/-- Whether an argument is the name of a command that follows. -/
def startsCommand (f : Form) (r : Reading) (argument : Text) : Bool :=
  !r.operandsOnly && r.waiting?.isNone && f.commands.contains argument

/-- Reads arguments up to the name of a command that follows. What stands from there on comes with
the result. -/
def arguments (f : Form) : Reading → List Text → Except Refusal (Reading × List Text)
  | r, [] => .ok (r, [])
  | r, a :: rest =>
    if r.startsCommand f a then .ok (r, a :: rest)
    else do arguments f (← r.take f a) rest

/-- The values that were read, the operand among them. -/
def finish (f : Form) (r : Reading) : Except Refusal (List (Text × Text)) := do
  let r ← r.settle
  if f.operand.any fun (name, _) => !r.has name then .error .operandMissing else .ok r.values

end Reading

end DocBlocks
