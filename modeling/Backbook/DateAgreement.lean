import Backbook.DigitTexts
import Backbook.DateText
import Backbook.DomainCalendar
import Backbook.BrowserViews

namespace Backbook

open DecimalText

def SpellsDate (text : Bytes) (year month day : ℕ) : Prop :=
  ∃ y m d : Bytes, text = y ++ dateSeparator :: (m ++ dateSeparator :: d) ∧
    (y.length = 4 ∧ m.length = 2 ∧ d.length = 2) ∧ (∀ c ∈ y ++ m ++ d, isDigit c = true) ∧
    value y = year ∧ value m = month ∧ value d = day

/-- A text spells the parts of a date just when it is the text of the date. -/
theorem spellsDate_iff {text : Bytes} {date : IsoDate} :
    SpellsDate text date.year date.month date.day ↔ text = date.toString := by
  rw [IsoDate.toString_eq]
  constructor
  · rintro ⟨y, m, d, rfl, ⟨hy, hm, hd⟩, hdigits, hyear, hmonth, hday⟩
    simp only [List.forall_mem_append] at hdigits
    rw [← hyear, ← hmonth, ← hday, fixedNumeral_value hy hdigits.1.1,
      fixedNumeral_value hm hdigits.1.2, fixedNumeral_value hd hdigits.2]
  · intro htext
    obtain ⟨hyear, hmonth, hday⟩ := date.bounds
    have hdigits : ∀ c ∈ fixedNumeral 4 date.year ++ fixedNumeral 2 date.month ++
        fixedNumeral 2 date.day, isDigit c = true := by
      simp only [List.forall_mem_append]
      exact ⟨⟨fixedNumeral_digits _ _, fixedNumeral_digits _ _⟩, fixedNumeral_digits _ _⟩
    refine ⟨_, _, _, htext, by simp, hdigits, ?_, ?_, ?_⟩
    · rw [value_fixedNumeral, Nat.mod_eq_of_lt hyear]
    · rw [value_fixedNumeral, Nat.mod_eq_of_lt hmonth]
    · rw [value_fixedNumeral, Nat.mod_eq_of_lt hday]

/-- The parser succeeds on the texts that name a day of the calendar. -/
theorem IsoDate.parse_succeeds_iff {text : Bytes} : (∃ date, IsoDate.parse text = .ok date) ↔
    ∃ year month day, SpellsDate text year month day ∧ isCalendarDate year month day := by
  constructor
  · rintro ⟨date, hparse⟩
    exact ⟨_, _, _, spellsDate_iff.mpr (IsoDate.parse_ok_iff.mp hparse), date.valid⟩
  · rintro ⟨year, month, day, hspells, hvalid⟩
    let date : IsoDate := ⟨year, month, day, hvalid⟩
    have htext : text = date.toString := spellsDate_iff.mp hspells
    exact ⟨date, IsoDate.parse_ok_iff.mpr htext⟩

/-- The supported epoch days leave no day out. -/
theorem IsoDate.exists_epochDay_iff {epochDays : Int32} :
    (∃ date : IsoDate, date.toEpochDays = epochDays) ↔
      minimumEpochDay ≤ epochDays.toInt ∧ epochDays.toInt ≤ maximumEpochDay := by
  unfold minimumEpochDay maximumEpochDay
  constructor
  · rintro ⟨date, rfl⟩
    have hbounds := date.index_bounds
    rw [IsoDate.toInt_toEpochDays, epochIndex]
    omega
  · rintro ⟨hfirst, hlast⟩
    obtain ⟨date, hdate⟩ := IsoDate.exists_index (n := (epochDays.toInt + epochIndex).toNat)
      (by unfold epochIndex; omega) (by unfold lastIndex epochIndex; omega)
    -- That date has the wanted day, since days of the epoch are shifted indices.
    refine ⟨date, Int32.toInt_inj.mp ?_⟩
    rw [IsoDate.toInt_toEpochDays, hdate, epochIndex]
    omega

theorem IsoDate.toEpochDays_lt_iff {a b : IsoDate} : a.toEpochDays < b.toEpochDays ↔ a < b := by
  rw [Int32.lt_iff_toInt_lt, IsoDate.toInt_toEpochDays, IsoDate.toInt_toEpochDays,
    ← IsoDate.index_lt_iff]
  omega

/-- Texts compare as their dates do: part by part, since all parts have fixed lengths. -/
theorem IsoDate.toString_lt_iff {a b : IsoDate} : a.toString < b.toString ↔ a < b := by
  obtain ⟨hya, hma, hda⟩ := a.bounds
  obtain ⟨hyb, hmb, hdb⟩ := b.bounds
  have hyears : (fixedNumeral 4 a.year).length = (fixedNumeral 4 b.year).length := by simp
  have hmonths : (fixedNumeral 2 a.month).length = (fixedNumeral 2 b.month).length := by simp
  rw [IsoDate.toString_eq, IsoDate.toString_eq, append_lt_append_iff hyears,
    List.cons_lt_cons_self, append_lt_append_iff hmonths, List.cons_lt_cons_self,
    fixedNumeral_lt_iff hya hyb, fixedNumeral_inj hya hyb, fixedNumeral_lt_iff hma hmb,
    fixedNumeral_inj hma hmb, fixedNumeral_lt_iff hda hdb, IsoDate.lt_iff]

/-- The three representations of a date are one ordered set. -/
theorem date_representations_agree :
    (∀ text, (∃ date, IsoDate.parse text = .ok date) ↔
      ∃ year month day, SpellsDate text year month day ∧ isCalendarDate year month day) ∧
    (∀ text date, IsoDate.parse text = .ok date → date.toString = text) ∧
    (∀ date : IsoDate, IsoDate.parse date.toString = .ok date ∧
      IsoDate.fromEpochDays date.toEpochDays = .ok date) ∧
    (∀ epochDays, ((∃ date, IsoDate.fromEpochDays epochDays = .ok date) ↔
        ∃ date : IsoDate, date.toEpochDays = epochDays) ∧
      ((∃ date : IsoDate, date.toEpochDays = epochDays) ↔
        minimumEpochDay ≤ epochDays.toInt ∧ epochDays.toInt ≤ maximumEpochDay) ∧
      ∀ date, IsoDate.fromEpochDays epochDays = .ok date → date.toEpochDays = epochDays) ∧
    ∀ a b : IsoDate, (a < b ↔ a.toEpochDays < b.toEpochDays) ∧
      (a < b ↔ a.toString < b.toString) := by
  refine ⟨fun _ => IsoDate.parse_succeeds_iff, ?_, ?_, ?_, ?_⟩
  · intro text date hparse
    exact (IsoDate.parse_ok_iff.mp hparse).symm
  · intro date
    exact ⟨date.parse_toString, date.fromEpochDays_toEpochDays⟩
  · intro epochDays
    refine ⟨?_, IsoDate.exists_epochDay_iff, ?_⟩
    · exact exists_congr fun _ => IsoDate.fromEpochDays_ok_iff.trans eq_comm
    · intro date hread
      exact (IsoDate.fromEpochDays_ok_iff.mp hread).symm
  · intro a b
    exact ⟨IsoDate.toEpochDays_lt_iff.symm, IsoDate.toString_lt_iff.symm⟩

/-- The date of an end-of-day run as the console offers it: the last text. -/
def Browser.latestConfirmedDate (trades : List Browser.Trade) : Option Bytes :=
  let dates := (trades.filter fun trade => trade.state = .confirmed).map fun trade =>
    trade.terms.valueDate
  (dates.mergeSort (· ≤ ·)).getLast?

/-- The texts are sorted as the dates are, so the last text is the greatest date's. -/
theorem latestConfirmedDate_view (trades : List Trade) (text : Bytes) :
    Browser.latestConfirmedDate (trades.map Trade.view) = some text ↔
      ∃ date, IsGreatest {date | ∃ trade ∈ trades, trade.state = .confirmed ∧
        trade.terms.valueDate = date} date ∧ text = date.toString := by
  let dates := (trades.filter fun trade => trade.state = .confirmed).map fun trade =>
    trade.terms.valueDate
  have htexts : ((trades.map Trade.view).filter fun trade => trade.state = .confirmed).map
      (fun trade => trade.terms.valueDate) = dates.map IsoDate.toString := by
    rw [List.filter_map, List.map_map, List.map_map]
    rfl
  have hsorted : (dates.map IsoDate.toString).mergeSort (· ≤ ·) =
      (dates.mergeSort (· ≤ ·)).map IsoDate.toString := by
    refine (List.map_mergeSort ?_).symm
    intro a _ b _
    rw [decide_eq_decide, ← not_lt, ← IsoDate.toString_lt_iff]
    exact Iff.rfl
  -- Sorting keeps the dates, so the last one is the greatest of all of them.
  have hmembers : {date | date ∈ dates.mergeSort (· ≤ ·)} = {date | ∃ trade ∈ trades,
      trade.state = .confirmed ∧ trade.terms.valueDate = date} := by
    ext date
    simp [dates, List.mem_mergeSort, and_assoc]
  unfold Browser.latestConfirmedDate
  simp only [htexts, hsorted]
  rw [List.getLast?_map, Option.map_eq_some_iff, ← hmembers]
  simp only [SortedSearch.getLast?_eq_some_iff (pairwise_mergeSort_dates dates), eq_comm]

end Backbook
