import Backbook.DomainCalendar

namespace Backbook

open Walk

variable {firstHolidays secondHolidays : List IsoDate} {first second : HolidayCalendar}
  {tradeDate date : IsoDate}

theorem openDay_iff (hfirst : HolidayCalendar.create firstHolidays = .ok first)
    (hsecond : HolidayCalendar.create secondHolidays = .ok second) :
    OpenDay firstHolidays secondHolidays date ↔ isJointBusinessDay date first second = true := by
  rw [isJointBusinessDay_iff, OpenDay, OpenDay, HolidayCalendar.create_mem hfirst,
    HolidayCalendar.create_mem hsecond]

/-- The candidate is the first joint business day after the first one. -/
theorem tPlusTwoCandidate_ok_iff : tPlusTwoCandidate tradeDate first second = .ok date ↔
    IsSecondLeast {d | tradeDate < d ∧ isJointBusinessDay d first second = true} date := by
  rw [isSecondLeast_iff, tPlusTwoCandidate, nextDay_follows.advance_eq_ok_iff (by decide)]
  refine exists_congr fun middle => and_congr_right fun _ => ?_
  rw [nextDay_follows.advance_eq_ok_iff (by decide)]
  constructor
  · rintro ⟨last, hlast, hdone⟩
    rw [advance_done (by decide)] at hdone
    rwa [← Except.ok.inj hdone]
  · exact fun hdate => ⟨date, hdate, advance_done (by decide) date⟩

theorem tPlusTwoCandidate_error {e : SettlementDateError}
    (h : tPlusTwoCandidate tradeDate first second = .error e) : e = .dateOutOfRange := by
  obtain ⟨last, hlast⟩ := advance_eq_error h
  exact offsetDate_error hlast

/-- A candidate is a joint business day, which no adjustment moves. -/
theorem adjust_candidate (h : tPlusTwoCandidate tradeDate first second = .ok date) :
    adjustModifiedFollowing date first second = .ok date := by
  obtain ⟨_, _, hdate⟩ := tPlusTwoCandidate_ok_iff.mp h
  exact adjustModifiedFollowing_of_joint hdate.1.1.2

theorem calculateTPlusTwo_eq : calculateTPlusTwo tradeDate first second =
    tPlusTwoCandidate tradeDate first second := by
  unfold calculateTPlusTwo
  cases h : tPlusTwoCandidate tradeDate first second with
  | error e => rfl
  | ok candidate => exact adjust_candidate h

theorem tPlusTwoCandidate_error_iff :
    tPlusTwoCandidate tradeDate first second = .error .dateOutOfRange ↔
      {d | tradeDate < d ∧ isJointBusinessDay d first second = true}.Subsingleton := by
  constructor
  · intro h
    -- Two such days have a first one, and the greater one of them comes after it.
    have hnone (a b : IsoDate) (ha : tradeDate < a ∧ isJointBusinessDay a first second = true)
        (hb : tradeDate < b ∧ isJointBusinessDay b first second = true) : ¬a < b := by
      intro hab
      obtain ⟨middle, hmiddle⟩ := nextDay_follows.exists_isFirst
        (p := fun d => isJointBusinessDay d first second = true) ha.1 ha.2
      have hle := (isFirst_lt_iff.mp hmiddle).2 ha
      obtain ⟨last, hlast⟩ := nextDay_follows.exists_isFirst
        (p := fun d => isJointBusinessDay d first second = true) (hle.trans_lt hab) hb.2
      have hok := tPlusTwoCandidate_ok_iff.mpr (isSecondLeast_iff.mpr ⟨middle, hmiddle, hlast⟩)
      rw [hok] at h
      contradiction
    intro a ha b hb
    exact le_antisymm (not_lt.mp (hnone b a hb ha)) (not_lt.mp (hnone a b ha hb))
  · intro hsub
    cases h : tPlusTwoCandidate tradeDate first second with
    | error e => rw [tPlusTwoCandidate_error h]
    | ok date =>
      obtain ⟨least, hleast, hdate⟩ := tPlusTwoCandidate_ok_iff.mp h
      exact absurd (hsub hdate.1.1 hleast.1) hdate.1.2

/-- Only which days are open in both calendars matters. -/
theorem calculateTPlusTwo_congr {first' second' : HolidayCalendar}
    (h : ∀ d, isJointBusinessDay d first' second' = isJointBusinessDay d first second) :
    calculateTPlusTwo tradeDate first' second' = calculateTPlusTwo tradeDate first second := by
  rw [calculateTPlusTwo_eq, calculateTPlusTwo_eq, tPlusTwoCandidate, tPlusTwoCandidate, funext h]

/-- T+2 is the second open day after the trade date, whatever the holidays are. -/
theorem t_plus_two_second_open_day (hfirst : HolidayCalendar.create firstHolidays = .ok first)
    (hsecond : HolidayCalendar.create secondHolidays = .ok second) (tradeDate : IsoDate) :
    (∀ date, calculateTPlusTwo tradeDate first second = .ok date ↔
      IsSecondLeast {d | tradeDate < d ∧ OpenDay firstHolidays secondHolidays d} date) ∧
    (calculateTPlusTwo tradeDate first second = .error .dateOutOfRange ↔
      {d | tradeDate < d ∧ OpenDay firstHolidays secondHolidays d}.Subsingleton) ∧
    (∀ error, calculateTPlusTwo tradeDate first second = .error error →
      error = .dateOutOfRange) ∧
    (∀ candidate, tPlusTwoCandidate tradeDate first second = .ok candidate →
      adjustModifiedFollowing candidate first second = .ok candidate) ∧
    (∀ firstHolidays' secondHolidays' first' second',
      HolidayCalendar.create firstHolidays' = .ok first' →
      HolidayCalendar.create secondHolidays' = .ok second' →
      (∀ d, d ∈ firstHolidays' ↔ d ∈ firstHolidays) →
      (∀ d, d ∈ secondHolidays' ↔ d ∈ secondHolidays) →
      calculateTPlusTwo tradeDate first' second' = calculateTPlusTwo tradeDate first second) ∧
    calculateTPlusTwo tradeDate second first = calculateTPlusTwo tradeDate first second ∧
    ∀ laterDate, tradeDate ≤ laterDate → ∀ a b,
      calculateTPlusTwo tradeDate first second = .ok a →
      calculateTPlusTwo laterDate first second = .ok b → a ≤ b := by
  have hopen (d : IsoDate) : OpenDay firstHolidays secondHolidays d ↔
      isJointBusinessDay d first second = true := openDay_iff hfirst hsecond
  simp only [hopen, calculateTPlusTwo_eq]
  refine ⟨fun _ => tPlusTwoCandidate_ok_iff, tPlusTwoCandidate_error_iff,
    fun _ => tPlusTwoCandidate_error, fun _ => adjust_candidate, ?_, ?_, ?_⟩
  · intro firstHolidays' secondHolidays' first' second' hfirst' hsecond' hsame hsame'
    rw [← calculateTPlusTwo_eq, ← calculateTPlusTwo_eq]
    apply calculateTPlusTwo_congr
    intro d
    rw [Bool.eq_iff_iff, ← openDay_iff hfirst' hsecond', ← hopen, OpenDay, OpenDay, hsame, hsame']
  · rw [← calculateTPlusTwo_eq, ← calculateTPlusTwo_eq]
    apply calculateTPlusTwo_congr
    intro d
    rw [isJointBusinessDay, isJointBusinessDay, Bool.and_comm]
  · intro laterDate hle a b ha hb
    refine IsSecondLeast.mono ?_ (tPlusTwoCandidate_ok_iff.mp ha) (tPlusTwoCandidate_ok_iff.mp hb)
    exact fun d hd => ⟨hle.trans_lt hd.1, hd.2⟩

def firstMonday : IsoDate := ⟨2024, 7, 1, by decide⟩

def firstTuesday : IsoDate := ⟨2024, 7, 2, by decide⟩

def firstWednesday : IsoDate := ⟨2024, 7, 3, by decide⟩

def firstThursday : IsoDate := ⟨2024, 7, 4, by decide⟩

/-- A trade of a Monday before a holiday settles on Thursday. -/
theorem t_plus_two_second_open_day_sample : ∃ first second,
    HolidayCalendar.create [firstTuesday] = .ok first ∧ HolidayCalendar.create [] = .ok second ∧
      calculateTPlusTwo firstMonday first second = .ok firstThursday := by
  obtain ⟨first, hfirst⟩ := HolidayCalendar.create_ok_iff.mpr (List.nodup_singleton firstTuesday)
  obtain ⟨second, hsecond⟩ := HolidayCalendar.create_ok_iff.mpr List.nodup_nil
  refine ⟨first, second, hfirst, hsecond, ?_⟩
  -- The days in between, by their indices.
  have hindex : firstTuesday.index = firstMonday.index + 1 ∧
      firstWednesday.index = firstMonday.index + 2 ∧
      firstThursday.index = firstMonday.index + 3 := by decide
  refine ((t_plus_two_second_open_day hfirst hsecond firstMonday).1 firstThursday).mpr
    ⟨firstWednesday, ⟨⟨by decide, by decide, by decide, by decide⟩, ?_⟩,
      ⟨⟨by decide, by decide, by decide, by decide⟩, by decide⟩, ?_⟩
  · rintro d ⟨hd, hopen⟩
    have hlt := IsoDate.index_lt_iff.mpr hd
    by_contra hle
    have hbefore := IsoDate.index_lt_iff.mpr (not_le.mp hle)
    have htuesday : d = firstTuesday := IsoDate.index_injective (by omega)
    exact hopen.2.1 (by rw [htuesday]; exact List.mem_cons_self)
  · rintro d ⟨⟨hd, hopen⟩, hne⟩
    have hlt := IsoDate.index_lt_iff.mpr hd
    by_contra hle
    have hbefore := IsoDate.index_lt_iff.mpr (not_le.mp hle)
    obtain hday | hday : d.index = firstTuesday.index ∨ d.index = firstWednesday.index := by omega
    · exact hopen.2.1 (by rw [IsoDate.index_injective hday]; exact List.mem_cons_self)
    · exact hne (IsoDate.index_injective hday)

end Backbook
