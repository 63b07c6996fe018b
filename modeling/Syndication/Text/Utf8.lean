/-!
# Text.Utf8 — octets and the characters they spell

Stored values, request bodies and keys of the keyed hash are octets; everything a person reads is
characters. This module goes both ways. Reading never fails as a whole: octets that begin no
character are kept in place as `none`, one per longest run that could still have become a character,
so that a reader higher up may decide whether they matter.

## Contents
* `Bytes`, `encode`                 — octets, and the octets of a text
* `Pending`, `lead`, `step`         — the octets still owed by a character that has begun
* `symbols`                         — octets as characters and undecodable runs
* `decode?`, `decodeLossy`          — the whole as one text, strictly and with replacements
-/

namespace Syndication

/-- A sequence of octets: a stored value, a request body, the key of a keyed hash. -/
abbrev Bytes := List UInt8

namespace Utf8

/-- A character, or a run of octets that spells none. -/
abbrev Symbol := Option Char

/-- The octets of a text. -/
def encode (s : String) : Bytes := s.toList.flatMap String.utf8EncodeChar

/-! ## One octet at a time -/

/-- A character that has begun: `owed` octets are missing, the next one lies between `low` and
`high`, and `value` holds the bits read so far. -/
structure Pending where
  owed : Nat
  low : UInt8
  high : UInt8
  value : Nat
  deriving DecidableEq, Repr

/-- What a first octet above `0x7F` promises. The bounds on the second octet exclude overlong
spellings, surrogates and values above `0x10FFFF`. -/
def lead (b : UInt8) : Option Pending :=
  if 0xC2 ≤ b ∧ b ≤ 0xDF then some ⟨1, 0x80, 0xBF, b.toNat - 0xC0⟩
  else if b = 0xE0 then some ⟨2, 0xA0, 0xBF, 0⟩
  else if b = 0xED then some ⟨2, 0x80, 0x9F, 0xD⟩
  else if 0xE1 ≤ b ∧ b ≤ 0xEF then some ⟨2, 0x80, 0xBF, b.toNat - 0xE0⟩
  else if b = 0xF0 then some ⟨3, 0x90, 0xBF, 0⟩
  else if 0xF1 ≤ b ∧ b ≤ 0xF3 then some ⟨3, 0x80, 0xBF, b.toNat - 0xF0⟩
  else if b = 0xF4 then some ⟨3, 0x80, 0x8F, 4⟩
  else none

/-- An octet between characters: the symbols it completes, and what it leaves owed. -/
def fresh (b : UInt8) : List Symbol × Option Pending :=
  if b < 0x80 then ([some (Char.ofNat b.toNat)], none)
  else match lead b with
    | some p => ([], some p)
    | none => ([none], none)

/-- One octet: the symbols it completes, and what is owed after it. An octet that cannot continue
the character that has begun ends it as undecodable and is read afresh. -/
def step : Option Pending → UInt8 → List Symbol × Option Pending
  | none, b => fresh b
  | some p, b =>
    if p.low ≤ b ∧ b ≤ p.high then
      let value := p.value * 64 + (b.toNat - 0x80)
      if p.owed = 1 then ([some (Char.ofNat value)], none)
      else ([], some ⟨p.owed - 1, 0x80, 0xBF, value⟩)
    else ((none : Symbol) :: (fresh b).1, (fresh b).2)

/-- The symbols of the octets after a state; a character cut off by the end is undecodable. -/
def symbolsFrom : Option Pending → Bytes → List Symbol
  | none, [] => []
  | some _, [] => [none]
  | st, b :: rest => (step st b).1 ++ symbolsFrom (step st b).2 rest

/-! ## Whole values -/

/-- Octets as characters and undecodable runs. -/
def symbols (bytes : Bytes) : List Symbol := symbolsFrom none bytes

/-- The text that the octets spell, if all of them are characters. -/
def decode? (bytes : Bytes) : Option String :=
  ((symbols bytes).mapM id).map String.ofList

/-- The text that the octets spell, with `U+FFFD` for each undecodable run. -/
def decodeLossy (bytes : Bytes) : String :=
  String.ofList ((symbols bytes).map (·.getD '\uFFFD'))

end Utf8
end Syndication
