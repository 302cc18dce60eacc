import Backbook.BoundedWalks
import Backbook.DateOrder
import Backbook.OutcomeRules
import Backbook.SortedSearch

namespace Backbook

/-- Weekdays count from Sunday, and the epoch began on a Thursday. -/
def isWeekend (date : IsoDate) : Bool :=
  let weekday := (date.toEpochDays.toInt + 4) % 7
  weekday = 6 || weekday = 0

inductive HolidayCalendarError
  | duplicateHoliday
deriving DecidableEq, Repr

structure HolidayCalendar where
  holidays : List IsoDate
  sorted : holidays.Pairwise (· < ·)

def adjacentFind : List IsoDate → Option IsoDate
  | first :: second :: rest =>
    if first = second then some first else adjacentFind (second :: rest)
  | _ => none

theorem pairwise_lt_of_adjacentFind {holidays : List IsoDate} (hs : holidays.Pairwise (· ≤ ·))
    (h : adjacentFind holidays = none) : holidays.Pairwise (· < ·) := by
  induction holidays with
  | nil => exact .nil
  | cons first rest ih =>
    rw [List.pairwise_cons] at hs ⊢
    cases rest with
    | nil => exact ⟨nofun, .nil⟩
    | cons second rest =>
      rw [adjacentFind] at h
      split_ifs at h with hne
      have hrest := ih hs.2 h
      refine ⟨?_, hrest⟩
      -- The neighbour is greater, and all others are greater than the neighbour.
      have hlt : first < second := lt_of_le_of_ne (hs.1 second List.mem_cons_self) hne
      intro date hdate
      rcases List.mem_cons.mp hdate with rfl | hdate
      · exact hlt
      · exact hlt.trans ((List.pairwise_cons.mp hrest).1 date hdate)

theorem adjacentFind_of_nodup {holidays : List IsoDate} (h : holidays.Nodup) :
    adjacentFind holidays = none := by
  induction holidays with
  | nil => rfl
  | cons first rest ih =>
    rw [List.nodup_cons] at h
    cases rest with
    | nil => rfl
    | cons second rest =>
      have hne : first ≠ second := by
        rintro rfl
        exact h.1 List.mem_cons_self
      rw [adjacentFind, if_neg hne]
      exact ih h.2

theorem pairwise_mergeSort_dates (holidays : List IsoDate) :
    (holidays.mergeSort (· ≤ ·)).Pairwise (· ≤ ·) := by
  have htrans (a b c : IsoDate) (hab : decide (a ≤ b) = true) (hbc : decide (b ≤ c) = true) :
      decide (a ≤ c) = true :=
    decide_eq_true ((of_decide_eq_true hab).trans (of_decide_eq_true hbc))
  have htotal (a b : IsoDate) : (decide (a ≤ b) || decide (b ≤ a)) = true := by
    simpa using le_total a b
  exact (List.pairwise_mergeSort htrans htotal holidays).imp of_decide_eq_true

def HolidayCalendar.create (holidays : List IsoDate) :
    Except HolidayCalendarError HolidayCalendar :=
  let sorted := holidays.mergeSort (· ≤ ·)
  match h : adjacentFind sorted with
  | some _ => .error .duplicateHoliday
  | none => .ok ⟨sorted, pairwise_lt_of_adjacentFind (pairwise_mergeSort_dates holidays) h⟩

def HolidayCalendar.isBusinessDay (self : HolidayCalendar) (date : IsoDate) : Bool :=
  !isWeekend date && !SortedSearch.binarySearch self.holidays date

def isJointBusinessDay (date : IsoDate) (firstCalendar secondCalendar : HolidayCalendar) : Bool :=
  firstCalendar.isBusinessDay date && secondCalendar.isBusinessDay date

/-- The calendar is open on a day that is neither a weekend day nor a holiday. -/
theorem HolidayCalendar.isBusinessDay_iff {self : HolidayCalendar} {date : IsoDate} :
    self.isBusinessDay date = true ↔ isWeekend date = false ∧ date ∉ self.holidays := by
  have hsearch := @SortedSearch.binarySearch_iff _ _ _ (self.sorted.imp le_of_lt) date
  unfold isBusinessDay
  rw [Bool.and_eq_true, Bool.not_eq_true', Bool.not_eq_true', ← hsearch, Bool.not_eq_true]

def OpenDay (firstHolidays secondHolidays : List IsoDate) (date : IsoDate) : Prop :=
  isWeekend date = false ∧ date ∉ firstHolidays ∧ date ∉ secondHolidays

theorem isJointBusinessDay_iff {date : IsoDate} {first second : HolidayCalendar} :
    isJointBusinessDay date first second = true ↔
      OpenDay first.holidays second.holidays date := by
  unfold isJointBusinessDay OpenDay
  rw [Bool.and_eq_true, HolidayCalendar.isBusinessDay_iff, HolidayCalendar.isBusinessDay_iff]
  tauto

theorem HolidayCalendar.create_mem {holidays : List IsoDate} {calendar : HolidayCalendar}
    (h : HolidayCalendar.create holidays = .ok calendar) (date : IsoDate) :
    date ∈ calendar.holidays ↔ date ∈ holidays := by
  simp only [HolidayCalendar.create] at h
  split at h
  · contradiction
  · obtain rfl := Except.ok.inj h
    exact List.mem_mergeSort

/-- Exactly the lists without duplicates are accepted, in any order. -/
theorem HolidayCalendar.create_ok_iff {holidays : List IsoDate} :
    (∃ calendar, HolidayCalendar.create holidays = .ok calendar) ↔ holidays.Nodup := by
  have hperm := List.mergeSort_perm holidays fun a b => decide (a ≤ b)
  simp only [HolidayCalendar.create]
  constructor
  · rintro ⟨calendar, h⟩
    split at h
    · contradiction
    · obtain rfl := Except.ok.inj h
      rename_i hnone
      have hsorted := pairwise_lt_of_adjacentFind (pairwise_mergeSort_dates holidays) hnone
      exact hperm.nodup_iff.mp (hsorted.imp ne_of_lt)
  · intro hnodup
    have hnone := adjacentFind_of_nodup (hperm.nodup_iff.mpr hnodup)
    split
    · rename_i d hsome
      rw [hsome] at hnone
      contradiction
    · exact ⟨_, rfl⟩

inductive SettlementDateError
  | dateOutOfRange | noJointBusinessDayInMonth
deriving DecidableEq, Repr

def offsetDate (date : IsoDate) (offset : Int32) : Except SettlementDateError IsoDate :=
  let epochDays := date.toEpochDays.toInt + offset.toInt
  if epochDays < -2 ^ 31 ∨ epochDays > 2 ^ 31 - 1 then .error .dateOutOfRange
  else (IsoDate.fromEpochDays (Int32.ofInt epochDays)).mapError fun _ => .dateOutOfRange

theorem offsetDate_ok_iff {date next : IsoDate} {offset : Int32} :
    offsetDate date offset = .ok next ↔ (next.index : ℤ) = date.index + offset.toInt := by
  have hdate := date.toInt_toEpochDays
  have hnext := next.toInt_toEpochDays
  have hbounds := next.index_bounds
  simp only [offsetDate]
  split_ifs with hrange
  · refine ⟨nofun, ?_⟩
    intro h
    unfold epochIndex at *
    omega
  · rw [Outcome.mapError_ok_iff, IsoDate.fromEpochDays_ok_iff, ← Int32.toInt_inj,
      Int32.toInt_ofInt_of_le (by omega) (by omega)]
    omega

theorem offsetDate_error {date : IsoDate} {offset : Int32} {e : SettlementDateError}
    (h : offsetDate date offset = .error e) : e = .dateOutOfRange := by
  simp only [offsetDate] at h
  split_ifs at h
  · exact (Except.error.inj h).symm
  · obtain ⟨_, _, he⟩ := Outcome.mapError_error_iff.mp h
    exact he.symm

theorem IsoDate.index_le_lastIndex (date : IsoDate) : date.index ≤ lastIndex :=
  date.index_bounds.2

def nextDay : Walk SettlementDateError IsoDate where
  step date := offsetDate date 1
  rank date := lastIndex - date.index
  rank_lt h := by
    have hindex := offsetDate_ok_iff.mp h
    have hlast := IsoDate.index_le_lastIndex
    rename_i a b
    have hb := hlast b
    change (b.index : ℤ) = a.index + 1 at hindex
    omega

def previousDay : Walk SettlementDateError IsoDate where
  step date := offsetDate date (-1)
  rank date := date.index
  rank_lt h := by
    have hindex := offsetDate_ok_iff.mp h
    rename_i a b
    change (b.index : ℤ) = a.index + -1 at hindex
    omega

theorem nextDay_follows : nextDay.Follows (· < ·) where
  trans := lt_trans
  irrefl := lt_irrefl
  step_ok := by
    intro a b h
    have hindex : (b.index : ℤ) = a.index + 1 := offsetDate_ok_iff.mp h
    refine ⟨IsoDate.index_lt_iff.mp (by omega), ?_⟩
    intro c hac
    have hlt := IsoDate.index_lt_iff.mpr hac
    rcases Nat.eq_or_lt_of_le (show b.index ≤ c.index by omega) with heq | hbc
    · exact .inl (IsoDate.index_injective heq.symm)
    · exact .inr (IsoDate.index_lt_iff.mp hbc)
  step_error := by
    intro a e h c hac
    have hlt := IsoDate.index_lt_iff.mpr hac
    have hfirst := a.index_bounds.1
    have hlast := c.index_le_lastIndex
    -- There is a date on the day after, so the step would have found it.
    obtain ⟨b, hb⟩ := IsoDate.exists_index (n := a.index + 1) (by omega) (by omega)
    have hok : nextDay.step a = .ok b := offsetDate_ok_iff.mpr (by
      rw [hb]
      rfl)
    rw [hok] at h
    contradiction

theorem previousDay_follows : previousDay.Follows (· > ·) where
  trans := fun h h' => h'.trans h
  irrefl := lt_irrefl
  step_ok := by
    intro a b h
    have hindex : (b.index : ℤ) = a.index + -1 := offsetDate_ok_iff.mp h
    refine ⟨IsoDate.index_lt_iff.mp (by omega), ?_⟩
    intro c hca
    have hlt := IsoDate.index_lt_iff.mpr hca
    rcases Nat.eq_or_lt_of_le (show c.index ≤ b.index by omega) with heq | hcb
    · exact .inl (IsoDate.index_injective heq)
    · exact .inr (IsoDate.index_lt_iff.mp hcb)
  step_error := by
    intro a e h c hca
    have hlt := IsoDate.index_lt_iff.mpr hca
    have hfirst := c.index_bounds.1
    have hlast := a.index_le_lastIndex
    obtain ⟨b, hb⟩ := IsoDate.exists_index (n := a.index - 1) (by omega) (by omega)
    have hok : previousDay.step a = .ok b := offsetDate_ok_iff.mpr (by
      change (b.index : ℤ) = a.index + -1
      omega)
    rw [hok] at h
    contradiction

/-- The search forward never crosses the month; the search backward starts over
from the unadjusted date. -/
def adjustModifiedFollowing (unadjustedDate : IsoDate)
    (firstCalendar secondCalendar : HolidayCalendar) : Except SettlementDateError IsoDate :=
  let joint date := isJointBusinessDay date firstCalendar secondCalendar
  if joint unadjustedDate then .ok unadjustedDate
  else
    let originalMonth := unadjustedDate.month
    let sameMonth (date : IsoDate) := decide (date.month = originalMonth)
    match nextDay.search sameMonth joint unadjustedDate with
    | some following => .ok following
    | none =>
      match previousDay.search sameMonth joint unadjustedDate with
      | some preceding => .ok preceding
      | none => .error .noJointBusinessDayInMonth

theorem adjustModifiedFollowing_of_joint {date : IsoDate} {first second : HolidayCalendar}
    (h : isJointBusinessDay date first second = true) :
    adjustModifiedFollowing date first second = .ok date := by
  simp only [adjustModifiedFollowing]
  exact if_pos h

def settlementLag : ℕ := 2

/-- The trade date is day zero; only later joint business days count. -/
def tPlusTwoCandidate (tradeDate : IsoDate) (firstCalendar secondCalendar : HolidayCalendar) :
    Except SettlementDateError IsoDate :=
  nextDay.advance (fun date => isJointBusinessDay date firstCalendar secondCalendar)
    settlementLag 0 tradeDate

def calculateTPlusTwo (tradeDate : IsoDate) (firstCalendar secondCalendar : HolidayCalendar) :
    Except SettlementDateError IsoDate := do
  let candidate ← tPlusTwoCandidate tradeDate firstCalendar secondCalendar
  adjustModifiedFollowing candidate firstCalendar secondCalendar

end Backbook
