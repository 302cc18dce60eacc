import Backbook.DomainCalendar

namespace Backbook

open Walk

def SameMonth (a b : IsoDate) : Prop := b.year = a.year ∧ b.month = a.month

variable {a b c date : IsoDate} {first second : HolidayCalendar}

theorem SameMonth.trans (h : SameMonth a b) (h' : SameMonth b c) : SameMonth a c :=
  ⟨h'.1.trans h.1, h'.2.trans h.2⟩

theorem SameMonth.symm (h : SameMonth a b) : SameMonth b a := ⟨h.1.symm, h.2.symm⟩

theorem SameMonth.refl (a : IsoDate) : SameMonth a a := ⟨rfl, rfl⟩

/-- A month is an interval. -/
theorem SameMonth.between (h : SameMonth a b) (hac : a ≤ c) (hcb : c ≤ b) : SameMonth a c := by
  obtain ⟨hyear, hmonth⟩ := h
  rw [← not_lt, IsoDate.lt_iff] at hac hcb
  unfold SameMonth
  omega

/-- Dates of one month number lie in one year, unless another month is between. -/
theorem sameMonth_of_between (hab : a ≤ b)
    (h : ∀ c, a ≤ c → c ≤ b → c.month = a.month) : SameMonth a b := by
  have hmonth := h b hab le_rfl
  refine ⟨?_, hmonth⟩
  by_contra hyear
  have hlt : a.year < b.year := by
    rw [← not_lt, IsoDate.lt_iff] at hab
    omega
  obtain ⟨ha1, ha2, ha3, ha4, ha5, ha6⟩ := a.valid
  obtain ⟨hb1, hb2, hb3, hb4, hb5, hb6⟩ := b.valid
  by_cases hdecember : a.month = 12
  · -- The year after begins with a January in between.
    have hvalid : isCalendarDate (a.year + 1) 1 1 :=
      ⟨by omega, by omega, le_rfl, by omega, le_rfl, by simp [lastDayOfMonth]⟩
    have hjanuary := h ⟨a.year + 1, 1, 1, hvalid⟩
      (le_of_lt (IsoDate.lt_iff.mpr (.inl (Nat.lt_succ_self _)))) (by
        rw [← not_lt, IsoDate.lt_iff]
        simp only
        omega)
    have hone : 1 = a.month := hjanuary
    omega
  · -- The year of the first date ends with a December in between.
    have hvalid : isCalendarDate a.year 12 31 :=
      ⟨by omega, by omega, by omega, le_rfl, by omega, by simp [lastDayOfMonth]⟩
    have hlast := h ⟨a.year, 12, 31, hvalid⟩ (by
        rw [← not_lt, IsoDate.lt_iff]
        simp only
        omega) (le_of_lt (IsoDate.lt_iff.mpr (.inl hlt)))
    exact hdecember hlast.symm

/-- Going forward, the month number tells where the month ends. -/
theorem forward_bound (date : IsoDate) : ∀ b, date < b →
    ((∀ c, date < c → (c = b ∨ c < b) → decide (c.month = date.month) = true) ↔
      SameMonth date b) := by
  intro b hb
  constructor
  · intro h
    apply sameMonth_of_between hb.le
    intro c hac hcb
    rcases hac.eq_or_lt with rfl | hac
    · rfl
    · exact of_decide_eq_true (h c hac (hcb.eq_or_lt))
  · intro h c hac hcb
    have hle : c ≤ b := hcb.elim le_of_eq le_of_lt
    exact decide_eq_true (h.between hac.le hle).2

/-- Going backward, it tells where the month begins. -/
theorem backward_bound (date : IsoDate) : ∀ b, date > b →
    ((∀ c, date > c → (c = b ∨ c > b) → decide (c.month = date.month) = true) ↔
      SameMonth date b) := by
  intro b hb
  constructor
  · intro h
    have hmonth := of_decide_eq_true (h b hb (.inl rfl))
    apply SameMonth.symm
    apply sameMonth_of_between hb.le
    intro c hbc hca
    rw [hmonth]
    rcases hca.eq_or_lt with rfl | hca
    · rfl
    · exact of_decide_eq_true (h c hca (hbc.eq_or_lt.imp_left Eq.symm))
  · intro h c hca hcb
    have hle : b ≤ c := hcb.elim (fun he => he.ge) le_of_lt
    exact decide_eq_true (h.trans (h.symm.between hle hca.le)).2

section Adjustment

variable (date first second)

/-- Both searches of the adjustment, by the days that they range over. -/
theorem following_eq_some_iff :
    nextDay.search (fun e => decide (e.month = date.month))
        (fun e => isJointBusinessDay e first second) date = some a ↔
      IsLeast {e | date < e ∧ SameMonth date e ∧ isJointBusinessDay e first second = true} a :=
  (nextDay_follows.search_within_eq_some_iff (forward_bound date)).trans isFirst_lt_iff

theorem following_eq_none_iff :
    nextDay.search (fun e => decide (e.month = date.month))
        (fun e => isJointBusinessDay e first second) date = none ↔
      ∀ e, date < e → SameMonth date e → ¬isJointBusinessDay e first second = true :=
  nextDay_follows.search_within_eq_none_iff (forward_bound date)

theorem preceding_eq_some_iff :
    previousDay.search (fun e => decide (e.month = date.month))
        (fun e => isJointBusinessDay e first second) date = some a ↔
      IsGreatest {e | e < date ∧ SameMonth date e ∧ isJointBusinessDay e first second = true} a :=
  (previousDay_follows.search_within_eq_some_iff (backward_bound date)).trans isFirst_gt_iff

theorem preceding_eq_none_iff :
    previousDay.search (fun e => decide (e.month = date.month))
        (fun e => isJointBusinessDay e first second) date = none ↔
      ∀ e, date > e → SameMonth date e → ¬isJointBusinessDay e first second = true :=
  previousDay_follows.search_within_eq_none_iff (backward_bound date)

end Adjustment

def IsAdjusted (isOpen : IsoDate → Prop) (date adjusted : IsoDate) : Prop :=
  IsLeast {e | date ≤ e ∧ SameMonth date e ∧ isOpen e} adjusted ∨
    (∀ e, date ≤ e → SameMonth date e → ¬isOpen e) ∧
      IsGreatest {e | e < date ∧ SameMonth date e ∧ isOpen e} adjusted

section Adjusted

variable {isOpen : IsoDate → Prop}

/-- A date is adjusted to the least open day from it on, where there is one. -/
theorem isAdjusted_iff_of_least (h : IsLeast {e | date ≤ e ∧ SameMonth date e ∧ isOpen e} b) :
    IsAdjusted isOpen date a ↔ b = a := by
  constructor
  · rintro (ha | ⟨hnone, _⟩)
    · exact h.unique ha
    · exact absurd h.1.2.2 (hnone b h.1.1 h.1.2.1)
  · rintro rfl
    exact .inl h

/-- Where there is none, it is adjusted to the greatest before. -/
theorem isAdjusted_iff_of_closed (h : ∀ e, date ≤ e → SameMonth date e → ¬isOpen e) :
    IsAdjusted isOpen date a ↔ IsGreatest {e | e < date ∧ SameMonth date e ∧ isOpen e} a := by
  have hempty : ¬IsLeast {e | date ≤ e ∧ SameMonth date e ∧ isOpen e} a :=
    fun ha => h a ha.1.1 ha.1.2.1 ha.1.2.2
  rw [IsAdjusted, or_iff_right hempty, and_iff_right h]

end Adjusted

theorem adjustModifiedFollowing_ok_iff : adjustModifiedFollowing date first second = .ok a ↔
    IsAdjusted (fun e => isJointBusinessDay e first second = true) date a := by
  by_cases hdate : isJointBusinessDay date first second = true
  · have hleast : IsLeast {e | date ≤ e ∧ SameMonth date e ∧
        isJointBusinessDay e first second = true} date :=
      ⟨⟨le_rfl, SameMonth.refl date, hdate⟩, fun e he => he.1⟩
    rw [adjustModifiedFollowing_of_joint hdate, isAdjusted_iff_of_least hleast, Except.ok.injEq]
  · -- The date itself is closed, so looking from it on is looking behind it.
    have hbehind {e : IsoDate} (hle : date ≤ e)
        (he : isJointBusinessDay e first second = true) : date < e := by
      apply lt_of_le_of_ne hle
      rintro rfl
      exact hdate he
    simp only [adjustModifiedFollowing, if_neg hdate]
    cases hfollowing : nextDay.search (fun e => decide (e.month = date.month))
        (fun e => isJointBusinessDay e first second) date with
    | some b =>
      obtain ⟨⟨hlt, hmonth, hb⟩, hleast⟩ := (following_eq_some_iff date first second).mp hfollowing
      have hadjusted : IsLeast {e | date ≤ e ∧ SameMonth date e ∧
          isJointBusinessDay e first second = true} b :=
        ⟨⟨hlt.le, hmonth, hb⟩, fun e he => hleast ⟨hbehind he.1 he.2.2, he.2⟩⟩
      rw [isAdjusted_iff_of_least hadjusted, Except.ok.injEq]
    | none =>
      have hnothing := (following_eq_none_iff date first second).mp hfollowing
      have hclosed (e : IsoDate) (hle : date ≤ e) (hmonth : SameMonth date e) :
          ¬isJointBusinessDay e first second = true :=
        fun he => hnothing e (hbehind hle he) hmonth he
      rw [isAdjusted_iff_of_closed hclosed, ← preceding_eq_some_iff date first second]
      cases previousDay.search (fun e => decide (e.month = date.month))
          (fun e => isJointBusinessDay e first second) date <;> simp

theorem adjustModifiedFollowing_error_iff {e : SettlementDateError} :
    adjustModifiedFollowing date first second = .error e ↔ e = .noJointBusinessDayInMonth ∧
      ∀ d, SameMonth date d → ¬isJointBusinessDay d first second = true := by
  constructor
  · intro h
    simp only [adjustModifiedFollowing] at h
    split_ifs at h with hdate
    split at h
    · contradiction
    · rename_i hfollowing
      split at h
      · contradiction
      · rename_i hpreceding
        refine ⟨(Except.error.inj h).symm, ?_⟩
        intro d hmonth
        rcases lt_trichotomy date d with hlt | rfl | hgt
        · exact (following_eq_none_iff date first second).mp hfollowing d hlt hmonth
        · exact hdate
        · exact (preceding_eq_none_iff date first second).mp hpreceding d hgt hmonth
  · rintro ⟨rfl, hnone⟩
    have hfollowing := (following_eq_none_iff date first second).mpr fun d _ => hnone d
    have hpreceding := (preceding_eq_none_iff date first second).mpr fun d _ => hnone d
    simp only [adjustModifiedFollowing, if_neg (hnone date (SameMonth.refl date)), hfollowing,
      hpreceding]

section Adjusted

variable {isOpen : IsoDate → Prop}

theorem IsAdjusted.found (h : IsAdjusted isOpen date a) : isOpen a :=
  h.elim (fun h => h.1.2.2) fun h => h.2.1.2.2

theorem IsAdjusted.sameMonth (h : IsAdjusted isOpen date a) : SameMonth date a :=
  h.elim (fun h => h.1.2.1) fun h => h.2.1.2.1

/-- Earlier dates are adjusted to earlier days. -/
theorem IsAdjusted.mono {later : IsoDate} (hle : date ≤ later) (ha : IsAdjusted isOpen date a)
    (hb : IsAdjusted isOpen later b) : a ≤ b := by
  have haMonth := ha.sameMonth
  have hbMonth := hb.sameMonth
  by_cases hsame : SameMonth date later
  · rcases ha with ha | ⟨hnone, ha⟩
    · rcases hb with hb | ⟨hnone', hb⟩
      · exact ha.2 ⟨hle.trans hb.1.1, hsame.trans hb.1.2.1, hb.1.2.2⟩
      · -- The first adjustment found its day before the later date.
        have hlt : a < later := by
          by_contra hge
          exact hnone' a (not_lt.mp hge) (hsame.symm.trans haMonth) ha.1.2.2
        exact hb.2 ⟨hlt, hsame.symm.trans haMonth, ha.1.2.2⟩
    · rcases hb with hb | ⟨_, hb⟩
      · exact absurd hb.1.2.2 (hnone b (hle.trans hb.1.1) (hsame.trans hb.1.2.1))
      · exact hb.2 ⟨ha.1.1.trans_le hle, hsame.symm.trans haMonth, ha.1.2.2⟩
  · -- Different months are in the order of their days.
    rw [← not_lt, IsoDate.lt_iff] at hle ⊢
    unfold SameMonth at *
    omega

end Adjusted

/-- Modified following is the nearest open day of the month, from the date on or
else before it; it is idempotent and monotone. -/
theorem modified_following_nearest_open_day (first second : HolidayCalendar) (date : IsoDate) :
    (∀ a, adjustModifiedFollowing date first second = .ok a ↔
      IsLeast {e | date ≤ e ∧ SameMonth date e ∧
        OpenDay first.holidays second.holidays e} a ∨
      (∀ e, date ≤ e → SameMonth date e → ¬OpenDay first.holidays second.holidays e) ∧
        IsGreatest {e | e < date ∧ SameMonth date e ∧
          OpenDay first.holidays second.holidays e} a) ∧
    (∀ error, adjustModifiedFollowing date first second = .error error ↔
      error = .noJointBusinessDayInMonth ∧
        ∀ e, SameMonth date e → ¬OpenDay first.holidays second.holidays e) ∧
    (∀ a, adjustModifiedFollowing date first second = .ok a →
      SameMonth date a ∧ adjustModifiedFollowing a first second = .ok a) ∧
    ∀ later, date ≤ later → ∀ a b, adjustModifiedFollowing date first second = .ok a →
      adjustModifiedFollowing later first second = .ok b → a ≤ b := by
  simp only [← isJointBusinessDay_iff]
  refine ⟨fun _ => adjustModifiedFollowing_ok_iff, fun _ => adjustModifiedFollowing_error_iff,
    ?_, ?_⟩
  · intro a ha
    have hadjusted := adjustModifiedFollowing_ok_iff.mp ha
    exact ⟨hadjusted.sameMonth, adjustModifiedFollowing_of_joint hadjusted.found⟩
  · intro later hle a b ha hb
    exact (adjustModifiedFollowing_ok_iff.mp ha).mono hle (adjustModifiedFollowing_ok_iff.mp hb)

end Backbook
