import DocBlocks.Disk.Access
import DocBlocks.Extraction
import DocBlocks.Fingerprint
import DocBlocks.Generation.Service

/-!
# Failures

Why a file is not documented, or a setting not read.

## Main definitions

* `Failure`: the causes.
* `Failure.message`: what is said about each.
-/

namespace DocBlocks

/-- Why work on a file cannot go on. -/
inductive Failure where
  /-- The configuration is not understood. -/
  | badConfig
  /-- A service in the network is to be asked without a key. -/
  | keyMissing
  | badSource (e : SyntaxError)
  | disk (f : Disk.Fault)
  | service (e : ServiceError)
  /-- A walk is to start at something that is no folder. -/
  | notFolder (path : Text)
  /-- A file is no longer what it was when its new text was made. -/
  | changed (m : FingerprintMismatch)
  /-- A place lies outside of the source or inside one of its characters. -/
  | misplaced
  deriving DecidableEq, Repr, Inhabited

namespace Failure

/-- The message about a failure. -/
def message : Failure → Text
  | badConfig => "Configuration error: the settings are not understood".toList
  | keyMissing => "Configuration error: API key required for the hosted provider".toList
  | badSource e => "Parser error: ".toList ++ e.message.toList
  | disk f => "IO error: ".toList ++ f.message
  | service e => "Provider error: ".toList ++ e.message
  | notFolder path => "File system error: Not a directory: ".toList ++ path
  | changed m => m.message
  | misplaced => "A place lies inside a character".toList

/-- The messages about a failure and about what is behind it. -/
def chain : Failure → List Text
  | disk f => [message (disk f), f.message]
  | f => [f.message]

end Failure

end DocBlocks
