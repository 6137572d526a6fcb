import DocBlocks.Text.Basic

/-!
# Blanks

The characters that Unicode calls white space, and cutting them off the ends of a text.

## Main definitions

* `Text.isWhite`: the characters with the property White_Space.
* `Text.trimStart`, `Text.trimEnd`, `Text.trim`: a text without white space at its ends.
-/

namespace DocBlocks.Text

/-- The characters with the Unicode property White_Space. -/
def isWhite (c : Char) : Bool :=
  let n := c.toNat
  (0x09 ≤ n && n ≤ 0x0D) || n = 0x20 ||
    (0x7F < n &&
      (n = 0x85 || n = 0xA0 || n = 0x1680 || (0x2000 ≤ n && n ≤ 0x200A) || n = 0x2028 || n = 0x2029 ||
        n = 0x202F || n = 0x205F || n = 0x3000))

/-- A text without the white space at its start. -/
def trimStart (t : Text) : Text := t.dropWhile isWhite

/-- A text without the white space at its end. -/
def trimEnd (t : Text) : Text := (t.reverse.dropWhile isWhite).reverse

/-- A text without the white space at its ends. -/
def trim (t : Text) : Text := trimEnd (trimStart t)

end DocBlocks.Text
