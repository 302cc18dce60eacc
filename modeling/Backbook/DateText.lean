import Backbook.DomainDate
import Backbook.DomainValues
import Backbook.DigitTexts

namespace Backbook

open DecimalText

def digitIndexes : List ℕ := [0, 1, 2, 3, 5, 6, 8, 9]

def dateSeparator : UInt8 := '-'.toUInt8

def parseDigits (text : Bytes) (offset count : ℕ) : ℕ :=
  ((text.drop offset).take count).foldl (fun result c => result * 10 + digitValue c) 0

def IsoDate.parse (text : Bytes) : Except DateError IsoDate :=
  if text.length ≠ 10 ∨ text[4]? ≠ some dateSeparator ∨ text[7]? ≠ some dateSeparator then
    .error .invalidFormat
  else if !digitIndexes.all (fun i => text[i]?.any isDigit) then .error .invalidFormat
  else
    let year := parseDigits text 0 4
    let month := parseDigits text 5 2
    let day := parseDigits text 8 2
    if year = 0 then .error .outOfRange
    else if h : isCalendarDate year month day then .ok ⟨year, month, day, h⟩
    else .error .invalidCalendarDate

def IsoDate.toString (date : IsoDate) : Bytes :=
  [digitChar (date.year / 1000 % 10), digitChar (date.year / 100 % 10),
    digitChar (date.year / 10 % 10), digitChar (date.year % 10), dateSeparator,
    digitChar (date.month / 10 % 10), digitChar (date.month % 10), dateSeparator,
    digitChar (date.day / 10 % 10), digitChar (date.day % 10)]

theorem IsoDate.toString_length (date : IsoDate) : date.toString.length = 10 := rfl

theorem parseDigits_eq (text : Bytes) (offset count : ℕ) :
    parseDigits text offset count = value ((text.drop offset).take count) :=
  (value_eq_foldl _).symm

/-- A number is read back from the place that it was written to. -/
theorem parseDigits_of_part {text : Bytes} {offset count n : ℕ} (hn : n < 10 ^ count)
    (hpart : (text.drop offset).take count = fixedNumeral count n) :
    parseDigits text offset count = n := by
  rw [parseDigits_eq, hpart, value_fixedNumeral, Nat.mod_eq_of_lt hn]

/-- No part of a date needs more digits than it has. -/
theorem IsoDate.bounds (date : IsoDate) : date.year < 10 ^ 4 ∧ date.month < 10 ^ 2 ∧
    date.day < 10 ^ 2 := by
  obtain ⟨-, hyear, -, hmonth, -, hday⟩ := date.valid
  have hlength : lastDayOfMonth date.year date.month ≤ 31 := by
    unfold lastDayOfMonth
    split_ifs <;> omega
  omega

/-- The text of a date is that of its parts, with zeros in front. -/
theorem IsoDate.toString_eq (date : IsoDate) : date.toString =
    fixedNumeral 4 date.year ++ dateSeparator ::
      (fixedNumeral 2 date.month ++ dateSeparator :: fixedNumeral 2 date.day) := by
  simp [IsoDate.toString, fixedNumeral]

/-- The text of a date is read as that date. -/
theorem IsoDate.parse_toString (date : IsoDate) : IsoDate.parse date.toString = .ok date := by
  obtain ⟨hyear, hmonth, hday⟩ := date.bounds
  have hdigit : ∀ n, isDigit (digitChar (n % 10)) = true :=
    fun n => isDigit_digitChar (Nat.mod_lt n (by decide))
  have hy : parseDigits date.toString 0 4 = date.year :=
    parseDigits_of_part hyear (by simp [IsoDate.toString, fixedNumeral])
  have hm : parseDigits date.toString 5 2 = date.month :=
    parseDigits_of_part hmonth (by simp [IsoDate.toString, fixedNumeral])
  have hd : parseDigits date.toString 8 2 = date.day :=
    parseDigits_of_part hday (by simp [IsoDate.toString, fixedNumeral])
  unfold IsoDate.parse
  -- The separators and digits stand where the parser looks for them.
  rw [if_neg (by simp [IsoDate.toString]),
    if_neg (by simp [digitIndexes, IsoDate.toString, hdigit])]
  simp only [hy, hm, hd]
  rw [if_neg (by have := date.valid.1; omega), dif_pos date.valid]

theorem IsoDate.parse_toString_isOk (date : IsoDate) :
    (IsoDate.parse date.toString).isOk = true := by
  rw [date.parse_toString]
  rfl

theorem exists_ten_bytes {text : Bytes} (h : text.length = 10) :
    ∃ y0 y1 y2 y3 s4 m0 m1 s7 d0 d1, text = [y0, y1, y2, y3, s4, m0, m1, s7, d0, d1] := by
  match text, h with
  | [y0, y1, y2, y3, s4, m0, m1, s7, d0, d1], _ =>
    exact ⟨y0, y1, y2, y3, s4, m0, m1, s7, d0, d1, rfl⟩

/-- The parser accepts a date's own text only. -/
theorem IsoDate.parse_ok_iff {text : Bytes} {date : IsoDate} :
    IsoDate.parse text = .ok date ↔ text = date.toString := by
  refine ⟨fun h => ?_, fun h => h ▸ date.parse_toString⟩
  unfold IsoDate.parse at h
  dsimp only at h
  split_ifs at h with hshape hdigits
  obtain rfl := Except.ok.inj h
  push Not at hshape
  obtain ⟨hlen, hs4, hs7⟩ := hshape
  obtain ⟨y0, y1, y2, y3, s4, m0, m1, s7, d0, d1, rfl⟩ := exists_ten_bytes hlen
  obtain rfl := Option.some.inj hs4
  obtain rfl := Option.some.inj hs7
  have hall : isDigit y0 = true ∧ isDigit y1 = true ∧ isDigit y2 = true ∧ isDigit y3 = true ∧
      isDigit m0 = true ∧ isDigit m1 = true ∧ isDigit d0 = true ∧ isDigit d1 = true := by
    simpa [digitIndexes] using hdigits
  -- Each group of digits is the text of the number that is read from it.
  have hy : fixedNumeral 4 (value [y0, y1, y2, y3]) = [y0, y1, y2, y3] :=
    fixedNumeral_value rfl (by simp [hall])
  have hm : fixedNumeral 2 (value [m0, m1]) = [m0, m1] := fixedNumeral_value rfl (by simp [hall])
  have hd : fixedNumeral 2 (value [d0, d1]) = [d0, d1] := fixedNumeral_value rfl (by simp [hall])
  simp only [IsoDate.toString_eq, parseDigits_eq, List.drop, List.take, hy, hm, hd]
  rfl

end Backbook
