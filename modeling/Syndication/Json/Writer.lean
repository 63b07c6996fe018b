import Syndication.Json.Basic
import Syndication.Text.Hex

/-!
# Json.Writer — writing JSON documents

Compact documents have no blank outside strings; pretty ones have one member or item a line and two
blanks a level. Characters outside ASCII stand for themselves. Quote, backslash and the control
characters below `U+0020` are escaped, the latter by a letter where there is one.

## Contents
* `escaped`, `quoted`       — strings
* `render`, `Json.compact`  — compact documents
* `layout`, `Json.pretty`   — pretty documents
-/

namespace Syndication.Json

/-- A character as it stands inside a written string. -/
def escaped (c : Char) : List Char :=
  if c = '"' then ['\\', '"']
  else if c = '\\' then ['\\', '\\']
  else if c = '\x08' then ['\\', 'b']
  else if c = '\t' then ['\\', 't']
  else if c = '\n' then ['\\', 'n']
  else if c = '\x0c' then ['\\', 'f']
  else if c = '\r' then ['\\', 'r']
  else if c.toNat < 0x20 then
    ['\\', 'u', '0', '0', Hex.digit (c.toNat / 16), Hex.digit (c.toNat % 16)]
  else [c]

/-- A string in quotes; one without a text is written empty. -/
def quoted (s : Option String) : List Char :=
  '"' :: ((s.getD "").toList.flatMap escaped) ++ ['"']

mutual

/-- A value without blanks. -/
def render : Json → List Char
  | .null => ['n', 'u', 'l', 'l']
  | .bool true => ['t', 'r', 'u', 'e']
  | .bool false => ['f', 'a', 'l', 's', 'e']
  | .number s => s.toList
  | .string s => quoted s
  | .array items => '[' :: renderItems items ++ [']']
  | .object ms => '{' :: renderMembers ms ++ ['}']

/-- Items with commas between them. -/
def renderItems : List Json → List Char
  | [] => []
  | [j] => render j
  | j :: rest => render j ++ ',' :: renderItems rest

/-- Members with commas between them. -/
def renderMembers : List (Option String × Json) → List Char
  | [] => []
  | [(k, j)] => quoted k ++ ':' :: render j
  | (k, j) :: rest => quoted k ++ ':' :: render j ++ ',' :: renderMembers rest

end

/-- A value as a compact document. -/
def compact (j : Json) : String := String.ofList (render j)

/-- A new line and the blanks of a level. -/
def lineBreak (level : Nat) : List Char := '\n' :: List.replicate (2 * level) ' '

mutual

/-- A value with its parts on lines of their own. -/
def layout (level : Nat) : Json → List Char
  | .array [] => ['[', ']']
  | .array items => '[' :: layoutItems (level + 1) items ++ lineBreak level ++ [']']
  | .object [] => ['{', '}']
  | .object ms => '{' :: layoutMembers (level + 1) ms ++ lineBreak level ++ ['}']
  | j => render j

/-- Items, each on a line of its own. -/
def layoutItems (level : Nat) : List Json → List Char
  | [] => []
  | [j] => lineBreak level ++ layout level j
  | j :: rest => lineBreak level ++ layout level j ++ ',' :: layoutItems level rest

/-- Members, each on a line of its own. -/
def layoutMembers (level : Nat) : List (Option String × Json) → List Char
  | [] => []
  | [(k, j)] => lineBreak level ++ quoted k ++ ':' :: ' ' :: layout level j
  | (k, j) :: rest =>
    lineBreak level ++ quoted k ++ ':' :: ' ' :: layout level j ++ ',' :: layoutMembers level rest

end

/-- A value as a pretty document. -/
def pretty (j : Json) : String := String.ofList (layout 0 j)

end Syndication.Json
