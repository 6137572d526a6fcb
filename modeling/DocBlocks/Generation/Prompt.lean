import DocBlocks.Text.Basic

/-!
# Prompts

What a generator of text is told when a comment is asked of it.

## Main definitions

* `Prompt`: the instruction and the message of one request.
* `Prompt.forUnit`: the request for the comment of a code unit.
-/

namespace DocBlocks

/-- A request to a generator of text. -/
structure Prompt where
  /-- The instruction that goes with every message. -/
  system : Text
  user : Text
  deriving DecidableEq, Repr, Inhabited

namespace Prompt

/-- The instruction sent with every request for a comment. -/
def instruction : Text :=
  ("You are an expert code documenter who writes precise, concise JSDoc for JavaScript and TypeScript.\n" ++
    "- Output EXACTLY ONE JSDoc block, starting with /** and ending with */.\n" ++
    "- Keep the summary to 1-2 lines, in active voice and present tense.\n" ++
    "- Describe what the function does, not how. Mention notable side effects and thrown errors.\n" ++
    "- Include one @param per parameter with an inferred type and a short description.\n" ++
    "- Mention default values in the parameter description when relevant.\n" ++
    "- Include @returns with an inferred type and brief description unless the function returns nothing.\n" ++
    "- Prefer domain terminology suggested by names and calls (fetch, parse, render, ...).\n" ++
    "- Do NOT include code, examples, markdown fences, or any commentary outside the block.").toList

/-- The message about one unit: the extension of its file, its name, the names of its parameters and
its source. -/
def message (extension name : Text) (parameters : List Text) (source : Text) : Text :=
  let listed := if parameters = [] then "none".toList else [',', ' '].intercalate parameters
  "File extension: .".toList ++ extension.dropWhile (· = '.') ++
    "\nFunction name: ".toList ++ name ++
    "\nParameters: ".toList ++ listed ++
    "\n\nFunction code:\n".toList ++ source ++
    "\n\nGenerate the JSDoc for this function.".toList

/-- The request for the comment of a unit. -/
def forUnit (extension name : Text) (parameters : List Text) (source : Text) : Prompt :=
  ⟨instruction, message extension name parameters source⟩

end Prompt

end DocBlocks
