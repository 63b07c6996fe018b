/-!
# Word — the ranges of machine words

Counters and durations of the programs around us have 32 or 64 bits. Where such a width can be seen
from outside, it is one of these.

## Contents
* `range32`, `range63`, `range64`
-/

namespace Syndication.Word

/-- How many values 32 bits have. -/
def range32 : Nat := 4294967296

/-- How many values 63 bits have: the natural numbers of a signed word of 64. -/
def range63 : Nat := 9223372036854775808

/-- How many values 64 bits have. -/
def range64 : Nat := 18446744073709551616

end Syndication.Word
