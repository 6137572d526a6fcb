import DocBlocks.Config.Basic
import DocBlocks.Generation.Prompt
import DocBlocks.Http.Exchange
import DocBlocks.Json.Reader
import DocBlocks.Number.Shortest

/-!
# Text services

The two kinds of service that generate text: how a prompt becomes a request, and what an answer of
the server means.

## Main definitions

* `ServiceError`: why a service gave no text.
* `Reply`: what comes back for a prompt.
* `Settings.request`: the request for a prompt.
* `Settings.interpret`: the reply in an answer.
-/

namespace DocBlocks

/-- The reasons for which a request cannot be made or is not answered. -/
inductive Obstacle where
  /-- The address cannot be read, or a header cannot be written. -/
  | malformed
  /-- The address names nothing that can be asked. -/
  | unusable (url : Url)
  /-- Nobody answers at the address. -/
  | unanswered (url : Url)
  deriving DecidableEq, Repr, Inhabited

/-- The message about an obstacle. -/
def Obstacle.message : Obstacle → Text
  | malformed => "builder error".toList
  | unusable url => "builder error for url (".toList ++ url.render ++ [')']
  | unanswered url => "error sending request for url (".toList ++ url.render ++ [')']

/-- Why a service gave no text. -/
inductive ServiceError where
  | obstacle (p : Provider) (o : Obstacle)
  /-- The server refused the request. -/
  | refused (p : Provider) (a : Http.Answer)
  /-- The answer is not JSON. -/
  | unreadable (p : Provider)
  /-- A failure in words of its own. -/
  | stated (message : Text)
  deriving DecidableEq, Repr, Inhabited

/-- The message about a service that gave no text. -/
def ServiceError.message : ServiceError → Text
  | obstacle .hostedApi o => "Chat completion request failed: ".toList ++ o.message
  | obstacle .localEndpoint o => "Local endpoint request failed: ".toList ++ o.message
  | refused .hostedApi a =>
    "Chat completion error ".toList ++ Http.statusText a.status ++ [':', ' '] ++ a.body
  | refused .localEndpoint a => "Local endpoint error ".toList ++ Http.statusText a.status
  | unreadable .hostedApi =>
    "Failed to parse chat completion response: error decoding response body".toList
  | unreadable .localEndpoint =>
    "Failed to parse local endpoint response: error decoding response body".toList
  | stated message => message

/-- What comes back for a prompt. -/
inductive Reply where
  | text (t : Text)
  /-- The service answered, but without text. -/
  | nothing
  | failed (e : ServiceError)
  deriving DecidableEq, Repr, Inhabited

/-- The name of a kind of service. -/
def Provider.title : Provider → Text
  | hostedApi => "Hosted API".toList
  | localEndpoint => "Local endpoint".toList

namespace Settings

/-- A message in a conversation. -/
def chatMessage (role : String) (content : Text) : Json :=
  .object [("role".toList, .string role.toList), ("content".toList, .string content)]

/-- The value that asks for the next message of a conversation. -/
def requestBody (s : Settings) (p : Prompt) : Json :=
  let model := ("model".toList, Json.string s.model)
  let messages := ("messages".toList, Json.array [chatMessage "system" p.system, chatMessage "user" p.user])
  let temperature := ("temperature".toList, match s.temperature with
    | .finite .. => Json.number s.temperature.text
    | _ => Json.null)
  let stream := ("stream".toList, Json.boolean false)
  match s.provider with
  | .hostedApi =>
    .object [model, messages, ("max_tokens".toList, .number (Nat.toDigits 10 s.maxTokens.toNat)),
      temperature, stream]
  | .localEndpoint => .object [model, messages, stream, ("options".toList, .object [temperature])]

/-- The address that prompts go to. -/
def address (s : Settings) : Text :=
  match s.provider with
  | .hostedApi => s.baseUrl ++ "/chat/completions".toList
  | .localEndpoint => s.baseUrl ++ "/api/chat".toList

/-- What proves the right to ask a service in the network. -/
def authorization (s : Settings) : Option Text :=
  match s.provider with
  | .hostedApi => some ("Bearer ".toList ++ s.apiKey.getD [])
  | .localEndpoint => none

/-- The request for a prompt. -/
def request (s : Settings) (p : Prompt) : Except Obstacle Http.Request :=
  match Url.read? s.address with
  | none => .error .malformed
  | some url =>
    if url.host.isNone then .error (.unusable url)
    else if ¬ s.authorization.all Http.isHeaderValue then .error .malformed
    else if ¬ url.isReachable then .error (.unusable url)
    else .ok ⟨url, s.authorization, s.requestBody p⟩

/-- The text in the value of an answer. -/
def content? (s : Settings) (v : Json) : Option Text := do
  let message ← match s.provider with
    | .hostedApi => ((← v.field? "choices").first?.bind (·.field? "message"))
    | .localEndpoint => v.field? "message"
  (← message.field? "content").string?

/-- The reply in an answer. -/
def interpret (s : Settings) (a : Http.Answer) : Reply :=
  if a.isSuccess then
    match Json.read? a.body with
    | some v => (s.content? v).elim .nothing .text
    | none => .failed (.unreadable s.provider)
  else .failed (.refused s.provider a)

end Settings

end DocBlocks
