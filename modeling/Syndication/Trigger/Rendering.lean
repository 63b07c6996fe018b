import Syndication.Text.Ascii
import Syndication.Trigger.Basic

/-!
# Trigger.Rendering — filling in a template

A template holds placeholders in double braces. They are filled in one kind after the other over the
whole text, so a value that was filled in earlier is searched for the placeholders that come later.

## Contents
* `replaceAll`        — every occurrence of a text, left to right, without overlap
* `TriggerEvent.accountLabel`, `placeholders`
* `renderTemplate`
-/

namespace Syndication

/-- Every occurrence of `pattern` replaced, from left to right. `skip` characters of an occurrence
that has just been replaced are still to be passed over. -/
def replaceFrom (pattern value : List Char) : Nat → List Char → List Char
  | _, [] => []
  | skip + 1, _ :: rest => replaceFrom pattern value skip rest
  | 0, c :: rest =>
    if pattern.isPrefixOf (c :: rest) && !pattern.isEmpty then
      value ++ replaceFrom pattern value (pattern.length - 1) rest
    else c :: replaceFrom pattern value 0 rest

/-- Every occurrence of a pattern that is not empty replaced by a value. -/
def replaceAll (pattern value s : String) : String :=
  String.ofList (replaceFrom pattern.toList value.toList 0 s.toList)

/-- The name of the account of an event: the display name, or the id if there is none. -/
def TriggerEvent.accountLabel (e : TriggerEvent) : String :=
  if e.accountName.isEmpty then e.accountId else e.accountName

/-- The placeholders in the order in which they are filled in, with the values of an event. -/
def TriggerEvent.placeholders (e : TriggerEvent) : List (String × String) :=
  [("\x7b\x7baccount\x7d\x7d", e.accountLabel), ("\x7b\x7btitle\x7d\x7d", e.title.getD ""),
    ("\x7b\x7bcategory\x7d\x7d", e.category.getD ""), ("\x7b\x7burl\x7d\x7d", e.url.getD ""),
    ("\x7b\x7bkind\x7d\x7d", e.kind)]

/-- A template with its placeholders filled in one after the other. -/
def renderTemplate (template : String) (e : TriggerEvent) : String :=
  e.placeholders.foldl (fun text (pattern, value) => replaceAll pattern value text) template

end Syndication
