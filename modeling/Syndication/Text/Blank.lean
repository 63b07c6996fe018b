/-!
# Text.Blank — white space and control characters

The two character classes that identifiers exclude and that trimming removes. Both follow the
Unicode properties of those names, so the non-breaking and the ideographic space count as blank.

## Contents
* `Char.isBlank`, `Char.isControl`  — the properties `White_Space` and general category `Cc`
* `trimStart`, `trimEnd`, `trim`    — a text without the blanks at its ends
* `isBlankText`                     — nothing but blanks
-/

namespace Syndication

/-- The Unicode property `White_Space`. -/
def isBlank (c : Char) : Bool :=
  let n := c.toNat
  (0x09 ≤ n && n ≤ 0x0D) || n == 0x20 || n == 0x85 || n == 0xA0 || n == 0x1680 ||
    (0x2000 ≤ n && n ≤ 0x200A) || n == 0x2028 || n == 0x2029 || n == 0x202F || n == 0x205F ||
    n == 0x3000

/-- The Unicode general category `Cc`. -/
def isControl (c : Char) : Bool :=
  c.toNat ≤ 0x1F || (0x7F ≤ c.toNat && c.toNat ≤ 0x9F)

namespace Text

/-- The characters after the leading blanks. -/
def trimStart (cs : List Char) : List Char := cs.dropWhile isBlank

/-- The characters before the trailing blanks. -/
def trimEnd (cs : List Char) : List Char := (cs.reverse.dropWhile isBlank).reverse

/-- A text without the blanks at its two ends. -/
def trim (s : String) : String := String.ofList (trimEnd (trimStart s.toList))

/-- A text of blanks only, or of nothing. -/
def isBlankText (s : String) : Bool := s.toList.all isBlank

end Text
end Syndication
