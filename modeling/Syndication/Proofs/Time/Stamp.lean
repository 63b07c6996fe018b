import Mathlib.Algebra.Group.Nat.Defs
import Syndication.Proofs.Time.Calendar
import Syndication.Time.Stamp

/-!
# Proofs.Time.Stamp — a written instant is read as itself

The loose reader takes a written instant apart in the order in which it was written: each number is
padded to the width that the reader stops at, or is followed by a mark that is no digit. What it finds
are the fields of the instant, and the calendar leads from them back to the second.

## Contents
* `digits_append`, `zeroPadded_*`  — runs of digits
* `looseYear_yearText`, `fraction_fractionText` — the parts of a stamp
* `Instant.fields`, `loose?_text`  — the fields of a written instant
* `Instant.InCalendar`, `asRead`, `loose?_text_eq` — the instant that is read
* `Instant.IsHeld`, `asRead_eq`    — the instants that are read as themselves
* `Instant.IsRepresented`, `asRead_eq_settled` — all instants there are
* `isHeld_of_loose?`, `isHeld_of_strict?` — whatever is read
-/

namespace Syndication

/-! ## Runs of digits -/

theorem isDigit_iff (c : Char) : c.isDigit = true ↔ 48 ≤ c.toNat ∧ c.toNat ≤ 57 := by
  simp only [Char.isDigit, Bool.and_eq_true, decide_eq_true_eq, ge_iff_le, UInt32.le_iff_toNat_le]
  exact Iff.rfl

theorem isBlank_of_isDigit {c : Char} (h : c.isDigit = true) : isBlank c = false := by
  rw [isDigit_iff] at h
  simp only [isBlank, Bool.or_eq_false_iff, Bool.and_eq_false_iff, decide_eq_false_iff_not,
    beq_eq_false_iff_ne]
  omega

namespace Text

/-- The digits of a number, with zeros in front up to a width. -/
def padded (width n : Nat) : List Char :=
  List.replicate (width - (Nat.toDigits 10 n).length) '0' ++ Nat.toDigits 10 n

theorem toList_zeroPadded (width n : Nat) : (zeroPadded width n).toList = padded width n := by
  rw [zeroPadded, String.toList_ofList, padded]

theorem isDigit_of_mem_padded {width n : Nat} {c : Char} (h : c ∈ padded width n) :
    c.isDigit = true := by
  rcases List.mem_append.mp h with h | h
  · rw [List.eq_of_mem_replicate h]
    decide
  · exact Nat.isDigit_of_mem_toDigits (by decide) (by decide) h

theorem length_padded {width n : Nat} (hw : 0 < width) (hn : n < 10 ^ width) :
    (padded width n).length = width := by
  have h := (Nat.length_toDigits_le_iff (b := 10) (by decide) hw).mpr hn
  rw [padded, List.length_append, List.length_replicate]
  omega

theorem digitsValue_eq (cs : List Char) : digitsValue cs = Nat.ofDigitChars 10 cs 0 := by
  rw [Nat.ofDigitChars_eq_foldl]
  rfl

theorem digitsValue_padded (width n : Nat) : digitsValue (padded width n) = n := by
  rw [digitsValue_eq, padded, Nat.ofDigitChars_append, Nat.ofDigitChars_replicate_zero,
    Nat.mul_zero, Nat.ofDigitChars_ten_toDigits]

theorem padded_ne_nil (width n : Nat) : padded width n ≠ [] := by
  intro h
  exact Nat.toDigits_ne_nil (List.append_eq_nil_iff.mp h).2

theorem trimStart_cons {c : Char} (h : isBlank c = false) (cs : List Char) :
    trimStart (c :: cs) = c :: cs := by
  rw [trimStart, List.dropWhile_cons_of_neg (by simp [h])]

theorem trimStart_padded (width n : Nat) (rest : List Char) :
    trimStart (padded width n ++ rest) = padded width n ++ rest := by
  cases hp : padded width n with
  | nil => exact absurd hp (padded_ne_nil width n)
  | cons c cs =>
    have hc : c.isDigit = true := isDigit_of_mem_padded (hp ▸ List.mem_cons_self)
    rw [List.cons_append, trimStart_cons (isBlank_of_isDigit hc)]

end Text

namespace Stamp

open Text

/-- **A run of digits** is taken as a whole if it fills the width or no digit follows it. -/
theorem digits_append {least most : Nat} {ds rest : List Char}
    (hd : ∀ c ∈ ds, c.isDigit = true) (hl : least ≤ ds.length) (hm : ds.length ≤ most)
    (hend : ds.length = most ∨ ∀ c, rest.head? = some c → c.isDigit = false) :
    digits least most (ds ++ rest) = some (digitsValue ds, rest) := by
  have hrun : ((ds ++ rest).take most).takeWhile Char.isDigit = ds := by
    rw [List.take_append, List.take_of_length_le hm, List.takeWhile_append_of_pos hd]
    have hnone : (rest.take (most - ds.length)).takeWhile Char.isDigit = [] := by
      rcases hend with hfull | hend
      · rw [hfull, Nat.sub_self, List.take_zero, List.takeWhile_nil]
      · cases rest with
        | nil => rw [List.take_nil, List.takeWhile_nil]
        | cons c cs =>
          have hc := hend c rfl
          cases most - ds.length with
          | zero => rfl
          | succ k => rw [List.take_succ_cons, List.takeWhile_cons_of_neg (by simp [hc])]
    rw [hnone, List.append_nil]
  rw [digits]
  simp only [hrun]
  rw [if_neg (by omega), List.drop_left]

theorem loosePair_padded {n : Nat} (hn : n < 100) (rest : List Char) :
    loosePair (padded 2 n ++ rest) = some (n, rest) := by
  have hlen : (padded 2 n).length = 2 := length_padded (by decide) (by omega)
  rw [loosePair, trimStart_padded, digits_append (fun c => isDigit_of_mem_padded) (by omega)
    (by omega) (.inl hlen), digitsValue_padded]

/-! ## The parts of a stamp -/

theorem looseYear_yearText (year : Int) (rest : List Char) :
    looseYear ((Instant.yearText year).toList ++ '-' :: rest) = some (year, '-' :: rest) := by
  have hdash : ∀ c, ('-' :: rest).head? = some c → c.isDigit = false := by
    rintro c ⟨⟩
    decide
  have hnumber : number (padded 4 year.natAbs ++ '-' :: rest) =
      some (year.natAbs, '-' :: rest) := by
    have hpos := List.length_pos_iff.mpr (padded_ne_nil 4 year.natAbs)
    rw [number, digits_append (fun c => isDigit_of_mem_padded) hpos
      (by rw [List.length_append]; omega) (.inr hdash), digitsValue_padded]
  unfold Instant.yearText
  split
  · rename_i hneg
    rw [String.toList_append, toList_zeroPadded]
    -- a sign in front lets the year have any number of digits
    show looseYear ('-' :: (padded 4 year.natAbs ++ '-' :: rest)) = _
    have hvalue : -((year.natAbs : Nat) : Int) = year := by omega
    rw [looseYear, trimStart_cons (by decide)]
    simp only [hnumber, Option.map_some, hvalue]
  split
  · rename_i hneg hle
    -- without a sign the reader stops after four digits
    have hlen : (padded 4 year.natAbs).length = 4 := length_padded (by decide) (by omega)
    have hdigits : digits 1 4 (padded 4 year.natAbs ++ '-' :: rest) =
        some (year.natAbs, '-' :: rest) := by
      rw [digits_append (fun c => isDigit_of_mem_padded) (by omega) (by omega) (.inl hlen),
        digitsValue_padded]
    have hval : ((year.natAbs : Nat) : Int) = year := by omega
    rw [toList_zeroPadded, looseYear, trimStart_padded]
    cases hp : padded 4 year.natAbs with
    | nil => exact absurd hp (padded_ne_nil _ _)
    | cons c cs =>
      have hc : c.isDigit = true := isDigit_of_mem_padded (hp ▸ List.mem_cons_self)
      rw [hp] at hdigits
      rw [List.cons_append] at hdigits ⊢
      split
      · rename_i heq
        rw [(List.cons.inj heq).1] at hc
        exact absurd hc (by decide)
      · rename_i heq
        rw [(List.cons.inj heq).1] at hc
        exact absurd hc (by decide)
      · simp only [hdigits, Option.map_some, hval]
  · rename_i hneg hle
    rw [String.toList_append, toList_zeroPadded]
    show looseYear ('+' :: (padded 4 year.natAbs ++ '-' :: rest)) = _
    have hvalue : ((year.natAbs : Nat) : Int) = year := by omega
    rw [looseYear, trimStart_cons (by decide)]
    simp only [hnumber, Option.map_some, hvalue]

theorem fraction_mark {ds rest : List Char} (hd : ∀ c ∈ ds, c.isDigit = true)
    (hpos : 0 < ds.length) (hle : ds.length ≤ 9) :
    fraction ('.' :: (ds ++ 'Z' :: rest)) =
      some (digitsValue ds * 10 ^ (9 - ds.length), 'Z' :: rest) := by
  have hz : ∀ c, ('Z' :: rest).head? = some c → c.isDigit = false := by
    rintro c ⟨⟩
    decide
  rw [fraction, digits_append hd hpos hle (.inr hz)]
  simp only [Option.bind_eq_bind, Option.bind_some, List.length_append, Nat.add_sub_cancel]
  rw [List.dropWhile_cons_of_neg (by decide)]
  rfl

theorem fraction_padded {width n : Nat} (hw : 0 < width) (hw' : width ≤ 9) (hn : n < 10 ^ width)
    (rest : List Char) :
    fraction ('.' :: (padded width n ++ 'Z' :: rest)) =
      some (n * 10 ^ (9 - width), 'Z' :: rest) := by
  have hlen := length_padded hw hn
  rw [fraction_mark (fun c => isDigit_of_mem_padded) (by omega) (by omega), digitsValue_padded,
    hlen]

theorem fraction_fractionText {nanos : Nat} (h : nanos < nanosPerSec) (rest : List Char) :
    fraction ((Instant.fractionText nanos).toList ++ 'Z' :: rest) = some (nanos, 'Z' :: rest) := by
  unfold nanosPerSec at h
  unfold Instant.fractionText
  split
  · rename_i h0
    rw [h0]
    rfl
  split
  · rename_i h0 h6
    rw [String.toList_append, toList_zeroPadded]
    have hvalue : nanos / 1000000 * 10 ^ (9 - 3) = nanos := by omega
    show fraction ('.' :: (padded 3 (nanos / 1000000) ++ 'Z' :: rest)) = _
    rw [fraction_padded (by decide) (by decide) (by omega), hvalue]
  split
  · rename_i h0 h6 h3
    rw [String.toList_append, toList_zeroPadded]
    have hvalue : nanos / 1000 * 10 ^ (9 - 6) = nanos := by omega
    show fraction ('.' :: (padded 6 (nanos / 1000) ++ 'Z' :: rest)) = _
    rw [fraction_padded (by decide) (by decide) (by omega), hvalue]
  · rw [String.toList_append, toList_zeroPadded]
    show fraction ('.' :: (padded 9 nanos ++ 'Z' :: rest)) = _
    rw [fraction_padded (by decide) (by decide) (by omega), Nat.sub_self, Nat.pow_zero, Nat.mul_one]

theorem looseOffset_z : looseOffset ['Z'] = some (0, []) := by decide

theorem looseLiteral_cons {c : Char} (h : isBlank c = false) (rest : List Char) :
    looseLiteral c (c :: rest) = some rest := by
  rw [looseLiteral, trimStart_cons h, literal, if_pos rfl]

end Stamp

/-! ## Whole instants -/

namespace Instant

/-- The second of the minute that an instant is written with: 60 in a leap second. -/
def writtenSecond (t : Instant) : Nat :=
  t.secondOfDay.toNat % 60 + (if decide t.IsLeapSecond then 1 else 0)

/-- What stands in a written instant. -/
def fields (t : Instant) : Stamp.Fields where
  date := Date.ofDays (t.seconds.fdiv 86400)
  hour := t.secondOfDay.toNat / 3600
  minute := t.secondOfDay.toNat / 60 % 60
  second := t.writtenSecond
  nanos := t.nanos % nanosPerSec
  offset := 0

theorem secondOfDay_lt (t : Instant) : t.secondOfDay.toNat < 86400 := by
  unfold secondOfDay
  rw [Int.fmod_eq_emod_of_nonneg _ (by decide)]
  omega

theorem writtenSecond_le (t : Instant) : t.writtenSecond ≤ 60 := by
  unfold writtenSecond
  split <;> omega

/-- The characters of a written instant. -/
theorem toList_text (t : Instant) :
    t.text.toList =
      (yearText t.fields.date.year).toList ++ '-' :: (Text.padded 2 t.fields.date.month ++
        '-' :: (Text.padded 2 t.fields.date.day ++ 'T' :: (Text.padded 2 t.fields.hour ++
          ':' :: (Text.padded 2 t.fields.minute ++ ':' :: (Text.padded 2 t.fields.second ++
            ((fractionText t.fields.nanos).toList ++ ['Z'])))))) := by
  simp [text, dateText, timeText, fields, writtenSecond, Text.toList_zeroPadded]

/-- **The fields of a written instant** are read as they were written. -/
theorem loose?_text (t : Instant) : Stamp.loose? t.text = t.fields.instant? := by
  have hday := Date.day_ofDays (t.seconds.fdiv 86400)
  have hmonth := Date.month_ofDays (t.seconds.fdiv 86400)
  have hlen := Date.daysInMonth_le (Date.ofDays (t.seconds.fdiv 86400)).year
    (Date.ofDays (t.seconds.fdiv 86400)).month
  have hsec := secondOfDay_lt t
  have hwritten := writtenSecond_le t
  have hnanos : t.fields.nanos < nanosPerSec := Nat.mod_lt _ (by decide)
  have hdash : isBlank '-' = false := by decide
  have hcolon : isBlank ':' = false := by decide
  unfold Stamp.loose?
  rw [toList_text]
  simp only [Stamp.looseYear_yearText, Option.bind_eq_bind, Option.bind_some,
    Stamp.looseLiteral_cons hdash,
    Stamp.loosePair_padded (show t.fields.date.month < 100 by simp only [fields]; omega),
    Stamp.loosePair_padded (show t.fields.date.day < 100 by simp only [fields]; omega),
    Stamp.dateEnd,
    Stamp.loosePair_padded (show t.fields.hour < 100 by simp only [fields]; omega),
    Stamp.looseLiteral_cons hcolon,
    Stamp.loosePair_padded (show t.fields.minute < 100 by simp only [fields]; omega),
    Stamp.loosePair_padded (show t.fields.second < 100 by simp only [fields]; omega),
    Stamp.fraction_fractionText hnanos, Stamp.looseOffset_z]
  rfl

/-- The instant lies in the years of the calendar. Only such an instant can be written. -/
def InCalendar (t : Instant) : Prop := inCalendar t.seconds = true

instance (t : Instant) : Decidable t.InCalendar := by unfold InCalendar; infer_instance

/-- The second of the day that the fields of a written instant name. -/
def readSecond (t : Instant) : Nat :=
  t.fields.hour * 3600 + t.fields.minute * 60 +
    (if t.fields.second = 60 then 59 else t.fields.second)

theorem readSecond_lt (t : Instant) : t.readSecond < 86400 := by
  have hsec := secondOfDay_lt t
  have hwritten := writtenSecond_le t
  unfold readSecond fields
  simp only
  split <;> omega

/-- The instant that a written instant is read as. The day is that of the instant. -/
def asRead (t : Instant) : Instant where
  seconds := t.seconds.fdiv 86400 * 86400 + t.readSecond
  nanos := (if t.fields.second = 60 then nanosPerSec else 0) + t.fields.nanos

/-- **A written instant is read.** -/
theorem loose?_text_eq {t : Instant} (h : t.InCalendar) : Stamp.loose? t.text = some t.asRead := by
  have hcal : Date.minYear ≤ (Date.ofDays (t.seconds.fdiv 86400)).year ∧
      (Date.ofDays (t.seconds.fdiv 86400)).year ≤ Date.maxYear := by
    simpa [InCalendar, inCalendar] using h
  have hvalid := Date.ofDays_isValid hcal.1 hcal.2
  have hsec := secondOfDay_lt t
  have hwritten := writtenSecond_le t
  have hread := readSecond_lt t
  have hday : (t.seconds.fdiv 86400 * 86400 + (t.readSecond : Int)).fdiv 86400 =
      t.seconds.fdiv 86400 := by
    rw [Int.fdiv_eq_ediv_of_nonneg (_ + _) (by decide)]
    omega
  have hsame : Instant.inCalendar (t.seconds.fdiv 86400 * 86400 + (t.readSecond : Int)) = true := by
    rw [inCalendar, hday]
    exact h
  have hexists : t.fields.date.IsValid ∧ t.fields.hour < 24 ∧ t.fields.minute < 60 ∧
      t.fields.second ≤ 60 ∧ t.fields.offset.natAbs < 86400 :=
    ⟨hvalid, by simp only [fields]; omega, by simp only [fields]; omega, hwritten, by simp [fields]⟩
  have hseconds : t.fields.date.toDays * 86400 + t.fields.hour * 3600 + t.fields.minute * 60 +
      (if t.fields.second = 60 then (59 : Nat) else t.fields.second : Nat) - t.fields.offset =
      t.seconds.fdiv 86400 * 86400 + (t.readSecond : Int) := by
    have hdate : t.fields.date.toDays = t.seconds.fdiv 86400 := Date.toDays_ofDays _
    have hoffset : t.fields.offset = 0 := rfl
    rw [hdate, hoffset]
    unfold readSecond
    omega
  rw [loose?_text, Stamp.Fields.instant?, if_pos hexists]
  simp only [hseconds, hsame, if_true]
  rfl

/-- An instant as a clock or a reader gives it: the calendar holds its day, it lies less than two
seconds past its second, and a leap second ends a minute. -/
structure IsHeld (t : Instant) : Prop where
  calendar : t.InCalendar
  nanos_lt : t.nanos < 2 * nanosPerSec
  endsMinute : t.IsLeapSecond → t.seconds % 60 = 59

/-- The seconds of an instant are those of its day and those of the time of day. -/
theorem seconds_eq (t : Instant) :
    t.seconds = t.seconds.fdiv 86400 * 86400 + t.secondOfDay.toNat := by
  unfold secondOfDay
  rw [Int.fmod_eq_emod_of_nonneg _ (by decide), Int.fdiv_eq_ediv_of_nonneg _ (by decide)]
  omega

theorem second_of_leap {t : Instant} (h : t.IsLeapSecond) :
    t.fields.second = t.secondOfDay.toNat % 60 + 1 := by
  show t.writtenSecond = _
  rw [writtenSecond, if_pos (decide_eq_true h)]

theorem second_of_not_leap {t : Instant} (h : ¬ t.IsLeapSecond) :
    t.fields.second = t.secondOfDay.toNat % 60 := by
  show t.writtenSecond = _
  rw [writtenSecond, if_neg (by simp [h]), Nat.add_zero]

/-- An instant that lies in no leap second is read as itself. -/
theorem asRead_of_not_leap {t : Instant} (h : ¬ t.IsLeapSecond) : t.asRead = t := by
  have hseconds := seconds_eq t
  have hsecond := second_of_not_leap h
  have hsixty : t.fields.second ≠ 60 := by omega
  have hread : t.readSecond = t.secondOfDay.toNat := by
    rw [readSecond, if_neg hsixty, hsecond]
    simp only [fields]
    omega
  have hnanos : t.nanos % nanosPerSec = t.nanos := Nat.mod_eq_of_lt (Nat.lt_of_not_le h)
  rw [asRead, hread, ← hseconds, if_neg hsixty, Nat.zero_add]
  exact congrArg (Instant.mk t.seconds) hnanos

/-- **A leap second that ends a minute** is written as second 60 and read as itself. -/
theorem asRead_of_leap {t : Instant} (hnanos : t.nanos < 2 * nanosPerSec)
    (hleap : t.IsLeapSecond) (hlast : t.seconds % 60 = 59) : t.asRead = t := by
  have hseconds := seconds_eq t
  have hsecond := second_of_leap hleap
  have hsixty : t.fields.second = 60 := by omega
  have hread : t.readSecond = t.secondOfDay.toNat := by
    rw [readSecond, if_pos hsixty]
    simp only [fields]
    omega
  have hpast : nanosPerSec + t.nanos % nanosPerSec = t.nanos := by
    simp only [IsLeapSecond, nanosPerSec] at hnanos hleap ⊢
    omega
  rw [asRead, hread, ← hseconds, if_pos hsixty]
  exact congrArg (Instant.mk t.seconds) hpast

/-- A leap second within a minute is written like the second after it, and read as that one. -/
theorem asRead_of_leapWithin {t : Instant} (hnanos : t.nanos < 2 * nanosPerSec)
    (hleap : t.IsLeapSecond) (hwithin : t.seconds % 60 ≠ 59) :
    t.asRead = ⟨t.seconds + 1, t.nanos - nanosPerSec⟩ := by
  have hseconds := seconds_eq t
  have hsecond := second_of_leap hleap
  have hsixty : t.fields.second ≠ 60 := by omega
  have hread : (t.readSecond : Int) = t.secondOfDay.toNat + 1 := by
    rw [readSecond, if_neg hsixty, hsecond]
    simp only [fields]
    omega
  have hpast : 0 + t.nanos % nanosPerSec = t.nanos - nanosPerSec := by
    simp only [IsLeapSecond, nanosPerSec] at hnanos hleap ⊢
    omega
  rw [asRead, hread, ← Int.add_assoc, ← hseconds, if_neg hsixty]
  exact congrArg (Instant.mk (t.seconds + 1)) hpast

/-- **An instant that can be held is read as itself**: no fraction, no leap second and no year is lost. -/
theorem asRead_eq {t : Instant} (h : t.IsHeld) : t.asRead = t := by
  by_cases hleap : t.IsLeapSecond
  · exact asRead_of_leap h.nanos_lt hleap (h.endsMinute hleap)
  · exact asRead_of_not_leap hleap

/-- An instant that can be represented: the calendar holds its day, and it lies less than two seconds past
its second. A leap second may lie within a minute, where it can be set by hand. -/
structure IsRepresented (t : Instant) : Prop where
  calendar : t.InCalendar
  nanos_lt : t.nanos < 2 * nanosPerSec

/-- If an instant lies in a leap second, this is the last second of a minute. -/
def EndsMinute (t : Instant) : Prop := t.IsLeapSecond → t.seconds % 60 = 59

instance (t : Instant) : Decidable t.EndsMinute := by unfold EndsMinute; infer_instance

/-- The instant with a leap second within a minute moved to the second after it. -/
def settled (t : Instant) : Instant :=
  if t.EndsMinute then t else ⟨t.seconds + 1, t.nanos - nanosPerSec⟩

/-- Only an instant whose leap second ends a minute stays where it is. -/
theorem settled_eq_iff {t : Instant} : t.settled = t ↔ t.EndsMinute := by
  unfold settled
  split
  · rename_i hends
    exact iff_of_true rfl hends
  · rename_i hwithin
    refine iff_of_false (fun hsame => ?_) hwithin
    have hseconds : t.seconds + 1 = t.seconds := congrArg Instant.seconds hsame
    omega

/-- **Any instant that can be represented is read as it was settled.** -/
theorem asRead_eq_settled {t : Instant} (h : t.IsRepresented) : t.asRead = t.settled := by
  by_cases hends : t.EndsMinute
  · rw [settled, if_pos hends]
    exact asRead_eq ⟨h.calendar, h.nanos_lt, hends⟩
  · rw [settled, if_neg hends]
    obtain ⟨hleap, hwithin⟩ := Classical.not_imp.mp hends
    exact asRead_of_leapWithin h.nanos_lt hleap hwithin

end Instant

/-! ## What was read -/

namespace Stamp

/-- A run of digits spells a number of as many digits. -/
theorem ofDigitChars_lt {ds : List Char} (h : ∀ c ∈ ds, c.isDigit = true) (n : Nat) :
    Nat.ofDigitChars 10 ds n < (n + 1) * 10 ^ ds.length := by
  induction ds generalizing n with
  | nil => simp
  | cons c ds ih =>
    rw [List.forall_mem_cons, isDigit_iff] at h
    have hrest := ih h.2 (10 * n + (c.toNat - '0'.toNat))
    have hdigit : 10 * n + (c.toNat - '0'.toNat) + 1 ≤ (n + 1) * 10 := by
      show 10 * n + (c.toNat - 48) + 1 ≤ _
      omega
    rw [Nat.ofDigitChars_cons, List.length_cons, Nat.pow_succ', ← Nat.mul_assoc]
    exact Nat.lt_of_lt_of_le hrest (Nat.mul_le_mul_right _ hdigit)

/-- A run that was read is no longer than the width, and what is left begins behind it. -/
theorem digits_eq_some {least most n : Nat} {cs left : List Char}
    (h : digits least most cs = some (n, left)) :
    ∃ k, k ≤ most ∧ k ≤ cs.length ∧ n < 10 ^ k ∧ left = cs.drop k := by
  rw [digits] at h
  simp only [Option.ite_none_left_eq_some, Option.some.injEq, Prod.mk.injEq] at h
  obtain ⟨-, hn, hleft⟩ := h
  have hprefix := List.takeWhile_prefix (l := cs.take most) Char.isDigit
  have hlength := hprefix.length_le
  rw [List.length_take] at hlength
  have hrun : ∀ c ∈ (cs.take most).takeWhile Char.isDigit, c.isDigit = true :=
    List.all_eq_true.mp List.all_takeWhile
  have hlt := ofDigitChars_lt hrun 0
  rw [← Text.digitsValue_eq, hn, Nat.zero_add, Nat.one_mul] at hlt
  exact ⟨_, by omega, by omega, hlt, hleft.symm⟩

/-- A fraction that was read is less than a second. -/
theorem fraction_lt {cs left : List Char} {nanos : Nat} (h : fraction cs = some (nanos, left)) :
    nanos < nanosPerSec := by
  unfold fraction at h
  split at h
  · simp only [Option.bind_eq_bind, Option.bind_eq_some_iff, Prod.exists, Option.pure_def,
      Option.some.injEq, Prod.mk.injEq] at h
    obtain ⟨n, rest, hdigits, hvalue, -⟩ := h
    obtain ⟨k, hmost, hle, hlt, rfl⟩ := digits_eq_some hdigits
    rw [List.length_drop, Nat.sub_sub_self hle] at hvalue
    have hread : 9 = k + (9 - k) := by omega
    have hnanos : nanosPerSec = 10 ^ k * 10 ^ (9 - k) := by
      rw [← Nat.pow_add, ← hread]
      rfl
    rw [hnanos, ← hvalue]
    exact Nat.mul_lt_mul_of_pos_right hlt (Nat.pow_pos (by decide))
  · cases h
    decide

/-- The offset that stands in a stamp is one of whole minutes. -/
theorem wholeMinutes_of_offset {separator : List Char → Option (List Char)} {cs left : List Char}
    {seconds : Int} (h : offset separator cs = some (seconds, left)) : seconds % 60 = 0 := by
  unfold offset at h
  split at h
  · cases h
    rfl
  · cases h
    rfl
  · -- sign, hours, separator and minutes
    iterate 4 obtain ⟨_, -, h⟩ := Option.bind_eq_some_iff.mp h
    obtain ⟨-, h⟩ := Option.ite_none_right_eq_some.mp h
    obtain ⟨rfl, -⟩ := Prod.mk.inj (Option.some.inj h)
    split <;> omega

theorem wholeMinutes_of_looseOffset {cs left : List Char} {seconds : Int}
    (h : looseOffset cs = some (seconds, left)) : seconds % 60 = 0 := by
  unfold looseOffset at h
  split at h
  · split at h
    · cases h
      rfl
    · exact wholeMinutes_of_offset h
  · exact wholeMinutes_of_offset h

/-- What a stamp names is an instant that can be held. -/
theorem isHeld_of_instant? {f : Fields} {t : Instant} (hnanos : f.nanos < nanosPerSec)
    (hoffset : f.offset % 60 = 0) (h : f.instant? = some t) : t.IsHeld := by
  simp only [Fields.instant?, Option.ite_none_right_eq_some, Option.some.injEq] at h
  obtain ⟨-, hcal, rfl⟩ := h
  refine ⟨hcal, ?_, ?_⟩
  · simp only [nanosPerSec] at *
    split <;> omega
  · intro hleap
    simp only [Instant.IsLeapSecond, nanosPerSec] at *
    split at hleap
    · rename_i hsixty
      simp only [hsixty, if_true]
      omega
    · omega

/-- **An instant that was read** can be held. -/
theorem isHeld_of_loose? {s : String} {t : Instant} (h : loose? s = some t) : t.IsHeld := by
  unfold loose? at h
  -- eleven parts are read before the fraction, and the offset after it
  iterate 11 obtain ⟨_, -, h⟩ := Option.bind_eq_some_iff.mp h
  obtain ⟨⟨nanos, _⟩, hfraction, h⟩ := Option.bind_eq_some_iff.mp h
  obtain ⟨⟨seconds, _⟩, hoffset, h⟩ := Option.bind_eq_some_iff.mp h
  obtain ⟨-, h⟩ := Option.ite_none_right_eq_some.mp h
  exact isHeld_of_instant? (fraction_lt hfraction) (wholeMinutes_of_looseOffset hoffset) h

/-- **An instant that was read strictly** can be held. -/
theorem isHeld_of_strict? {s : String} {t : Instant} (h : strict? s = some t) : t.IsHeld := by
  unfold strict? at h
  iterate 11 obtain ⟨_, -, h⟩ := Option.bind_eq_some_iff.mp h
  obtain ⟨⟨nanos, _⟩, hfraction, h⟩ := Option.bind_eq_some_iff.mp h
  obtain ⟨⟨seconds, _⟩, hoffset, h⟩ := Option.bind_eq_some_iff.mp h
  obtain ⟨-, h⟩ := Option.ite_none_right_eq_some.mp h
  exact isHeld_of_instant? (fraction_lt hfraction) (wholeMinutes_of_offset hoffset) h

end Stamp

end Syndication
