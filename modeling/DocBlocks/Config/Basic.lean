import DocBlocks.Number.Binary
import DocBlocks.Text.Blank

/-!
# Configuration

Where generated text comes from. Each setting may be left open; what is open is filled from the
defaults of the provider.

## Main definitions

* `Provider`: the two kinds of service.
* `Config`: the settings as they are stored.
* `Settings`: the settings of one run, with nothing left open.
* `Config.resolve`: fills in what is open.
* `Config.override`: settings from the environment.
-/

namespace DocBlocks

/-- The kind of service that generates text. -/
inductive Provider where
  /-- A chat service in the network, which asks for a key. -/
  | hostedApi
  /-- A chat service on the same machine. -/
  | localEndpoint
  deriving DecidableEq, Repr, Inhabited

namespace Provider

/-- The name under which a provider is stored. -/
def name : Provider → Text
  | hostedApi => "hosted-api".toList
  | localEndpoint => "local-endpoint".toList

/-- The provider with a name. Each has a second name, that of a well-known service of its kind. -/
def ofName? (t : Text) : Option Provider :=
  if t = "hosted-api".toList ∨ t = "groq".toList then some hostedApi
  else if t = "local-endpoint".toList ∨ t = "ollama".toList then some localEndpoint
  else none

/-- The address of a provider, unless another is given. -/
def defaultUrl : Provider → Text
  | hostedApi => "https://api.groq.com/openai/v1".toList
  | localEndpoint => "http://localhost:11434".toList

/-- The model of a provider, unless another is given. -/
def defaultModel : Provider → Text
  | hostedApi => "llama-3.1-70b-versatile".toList
  | localEndpoint => "llama3.2".toList

end Provider

/-- The stored settings. -/
structure Config where
  provider : Provider := .hostedApi
  apiKey : Option Text := none
  baseUrl : Option Text := none
  model : Option Text := none
  maxTokens : Option UInt32 := none
  /-- A number of 32 bits. -/
  temperature : Option Binary := none
  deriving DecidableEq, Repr, Inhabited

/-- The settings of one run. -/
structure Settings where
  provider : Provider
  apiKey : Option Text
  baseUrl : Text
  model : Text
  maxTokens : UInt32
  temperature : Binary
  deriving DecidableEq, Repr, Inhabited

/-- Whether a text has characters other than white space. -/
def Text.isFilled (t : Text) : Bool := !t.all isWhite

/-- Whether the service can be asked at all: in the network only with a key. -/
def Settings.isUsable (s : Settings) : Bool :=
  match s.provider with
  | .localEndpoint => true
  | .hostedApi => s.apiKey.any Text.isFilled

/-- Settings that the environment gives. -/
structure Environment where
  apiKey : Option Text := none
  baseUrl : Option Text := none
  model : Option Text := none
  deriving DecidableEq, Repr, Inhabited

namespace Config

/-- The number of tokens asked for, unless another is given. -/
def defaultTokens : UInt32 := 400

/-- The temperature asked for, unless another is given: the number of 32 bits nearest to a fifth. -/
def defaultTemperature : Binary := Binary.ofDecimal Binary.single false 2 (-1)

/-- The settings of one run. A model given for the run goes before the stored one, unless it is
blank. Slashes at the end of the address are left out. -/
def resolve (c : Config) (model : Option Text) : Settings where
  provider := c.provider
  apiKey := c.apiKey
  baseUrl := ((c.baseUrl.getD c.provider.defaultUrl).reverse.dropWhile (· = '/')).reverse
  model := ((model.filter Text.isFilled).or c.model).getD c.provider.defaultModel
  maxTokens := c.maxTokens.getD defaultTokens
  temperature := c.temperature.getD defaultTemperature

/-- The settings with those from the environment in place of the stored ones. -/
def override (c : Config) (e : Environment) : Config :=
  { c with apiKey := e.apiKey.or c.apiKey, baseUrl := e.baseUrl.or c.baseUrl, model := e.model.or c.model }

end Config

end DocBlocks
