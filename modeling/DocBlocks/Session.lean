import DocBlocks.Failure

/-!
# Sessions

What work on files meets with: the disk, those who generate text, and those who decide about
changes. A session holds what they will say, and keeps what happened.

## Main definitions

* `Generator`: where text comes from.
* `Proposal`: a change that somebody is to decide about.
* `Event`: something that happened.
* `Session`: the state of the work.
* `Session.ask`, `Session.consult`: a prompt to a generator, and a question to somebody.
-/

namespace DocBlocks

/-- A generator of text. -/
inductive Generator where
  /-- Replies written down beforehand. -/
  | script
  | service (s : Settings)
  deriving DecidableEq, Repr, Inhabited

/-- The service with some settings. One in the network cannot be asked without a key. -/
def Generator.ofSettings (s : Settings) : Except Failure Generator :=
  if s.isUsable then .ok (.service s) else .error .keyMissing

/-- A change to a file that somebody is to decide about. -/
structure Proposal where
  path : Text
  /-- What changes, line by line. -/
  report : List Text
  original : Text
  proposed : Text
  /-- Nothing is written, whatever the decision. -/
  preview : Bool
  deriving DecidableEq, Repr, Inhabited

/-- Something that happened in a session. -/
inductive Event where
  /-- Work on the unit `index` out of `total` has started. -/
  | started (file name : Text) (index total : Nat)
  | prompted (g : Generator) (p : Prompt)
  /-- A server answered a request. -/
  | answered (r : Http.Request)
  | decided (p : Proposal) (answer : Bool)

/-- The state of work on files. -/
structure Session where
  disk : Entry
  /-- The replies written down beforehand, if there is a generator that gives them. -/
  script : Option (List Reply) := none
  /-- What servers answer to the next requests. Further requests stay unanswered. -/
  answers : List Http.Answer := []
  /-- The next decisions about changes, if somebody decides. Further changes are declined. -/
  decisions : Option (List Bool) := none
  /-- What the system has against the next attempts to write a file. Further ones are not
  refused. -/
  refusals : List (Option Disk.Fault) := []
  /-- The folders that the system does not open, by their places. -/
  closed : List (Place × Disk.Fault) := []
  /-- What happened, in its order. -/
  events : List Event := []

namespace Session

/-- The session after something has happened. -/
def record (s : Session) (e : Event) : Session := { s with events := s.events ++ [e] }

/-- The next reply written down beforehand, and nothing when there are none left. -/
def nextReply (s : Session) : Reply × Session :=
  match s.script with
  | some (reply :: rest) => (reply, { s with script := some rest })
  | _ => (.nothing, s)

/-- The reply of a service to a prompt. -/
def askService (settings : Settings) (p : Prompt) (s : Session) : Reply × Session :=
  match settings.request p with
  | .error o => (.failed (.obstacle settings.provider o), s)
  | .ok request =>
    match s.answers with
    | [] => (.failed (.obstacle settings.provider (.unanswered request.url)), s)
    | answer :: rest => (settings.interpret answer, { s with answers := rest }.record (.answered request))

/-- The reply of a generator to a prompt. -/
def ask (g : Generator) (p : Prompt) (s : Session) : Reply × Session :=
  let s := s.record (.prompted g p)
  match g with
  | .script => s.nextReply
  | .service settings => s.askService settings p

/-- The decision about a change, if somebody decides. -/
def consult (p : Proposal) (s : Session) : Option Bool × Session :=
  match s.decisions with
  | none => (none, s)
  | some answers =>
    let answer := answers.headD false
    (some answer, { s with decisions := some answers.tail }.record (.decided p answer))

end Session

end DocBlocks
