import Syndication.Text.Blank
import Syndication.Text.Hex

/-!
# Text.Shown — texts as log records show them

A shown text stands in double quotes on one line. What could end it, break the line or hide is
escaped.

## Contents
* `shownChar`, `Text.shown`
-/

namespace Syndication

/-- A character that has no picture of its own: marks of direction, joiners and the like. -/
def isInvisible (c : Char) : Bool :=
  let n := c.toNat
  n == 0xAD || n == 0x61C || n == 0x180E || (0x200B ≤ n && n ≤ 0x200F) || (0x2028 ≤ n && n ≤ 0x202E) ||
    (0x2060 ≤ n && n ≤ 0x206F) || n == 0xFEFF || (0xFFF0 ≤ n && n ≤ 0xFFFB) || n == 0xFFFE ||
    n == 0xFFFF || (0xE000 ≤ n && n ≤ 0xF8FF) || 0xE0000 ≤ n

/-- The shortest hexadecimal digits of a number. -/
def hexDigits (n : Nat) : List Char := Nat.toDigits 16 n

/-- A character as a log record shows it. -/
def shownChar (c : Char) : List Char :=
  match c with
  | '"' => ['\\', '"']
  | '\\' => ['\\', '\\']
  | '\t' => ['\\', 't']
  | '\r' => ['\\', 'r']
  | '\n' => ['\\', 'n']
  | '\x00' => ['\\', '0']
  | c =>
    if isControl c || isInvisible c || (isBlank c && c != ' ') then
      ['\\', 'u', '\x7b'] ++ hexDigits c.toNat ++ ['\x7d']
    else [c]

/-- A text as a log record shows it. -/
def Text.shown (s : String) : String :=
  "\"" ++ String.ofList (s.toList.flatMap shownChar) ++ "\""

end Syndication
