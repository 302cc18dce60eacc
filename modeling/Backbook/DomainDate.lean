import Mathlib

/-! Calendar dates of the years 1 to 9999 and their epoch days. The civil
calendar of the C++ library is modelled by counting days from 1 March of the
year 0, so that the leap day closes every cycle of 4, 100 and 400 years. -/
namespace Backbook

open Std

def isLeapYear (year : ℕ) : Bool :=
  year % 4 == 0 && (year % 100 != 0 || year % 400 == 0)

def lastDayOfMonth (year month : ℕ) : ℕ :=
  if month = 2 then (if isLeapYear year then 29 else 28)
  else if month = 4 ∨ month = 6 ∨ month = 9 ∨ month = 11 then 30 else 31

def civilIndex (year month day : ℕ) : ℕ :=
  let y := if month ≤ 2 then year - 1 else year
  let m := if month ≤ 2 then month + 9 else month - 3
  365 * y + y / 4 - y / 100 + y / 400 + ((153 * m + 2) / 5 + day - 1)

def civilOfIndex (index : ℕ) : ℕ × ℕ × ℕ :=
  let dayOfEra := index % 146097
  let century := min (dayOfEra / 36524) 3
  let dayOfCentury := dayOfEra - 36524 * century
  let quad := dayOfCentury / 1461
  let yearOfQuad := min (dayOfCentury % 1461 / 365) 3
  let dayOfYear := dayOfCentury % 1461 - 365 * yearOfQuad
  let y := 400 * (index / 146097) + 100 * century + 4 * quad + yearOfQuad
  let m := (5 * dayOfYear + 2) / 153
  let day := dayOfYear - (153 * m + 2) / 5 + 1
  if m < 10 then (y, m + 3, day) else (y + 1, m - 9, day)

/-- Every day of a March year has one month and one day of that month. -/
theorem march_day_split (t : ℕ) (ht : t ≤ 365) : ∃ m d, (5 * t + 2) / 153 = m ∧
    t - (153 * m + 2) / 5 + 1 = d ∧ (153 * m + 2) / 5 + d - 1 = t ∧ m ≤ 11 ∧ 1 ≤ d ∧ d ≤ 31 ∧
    ((m = 1 ∨ m = 3 ∨ m = 6 ∨ m = 8) → d ≤ 30) ∧ (m = 11 → d ≤ 29 ∧ (d = 29 → t = 365)) := by
  have hm : (5 * t + 2) / 153 ≤ 11 := by omega
  refine ⟨(5 * t + 2) / 153, t - (153 * ((5 * t + 2) / 153) + 2) / 5 + 1, rfl, rfl, ?_⟩
  generalize hq : (5 * t + 2) / 153 = m at *
  interval_cases m <;> omega

theorem march_day_index (m d : ℕ) (hm : m ≤ 11) (h1 : 1 ≤ d) (h31 : d ≤ 31)
    (h30 : (m = 1 ∨ m = 3 ∨ m = 6 ∨ m = 8) → d ≤ 30) (h29 : m = 11 → d ≤ 29) :
    (5 * ((153 * m + 2) / 5 + d - 1) + 2) / 153 = m ∧
    (153 * m + 2) / 5 + d - 1 - (153 * m + 2) / 5 + 1 = d ∧ (153 * m + 2) / 5 + d - 1 ≤ 365 ∧
    ((153 * m + 2) / 5 + d - 1 = 365 → m = 11 ∧ d = 29) := by
  interval_cases m <;> omega

/-- The four cycles of a day index, as the source's calendar nests them. -/
theorem march_year_split (n : ℕ) : ∃ e c q y t,
    n = 146097 * e + 36524 * c + 1461 * q + 365 * y + t ∧
    c ≤ 3 ∧ q ≤ 24 ∧ y ≤ 3 ∧ t ≤ 365 ∧ (t = 365 → y = 3 ∧ (q < 24 ∨ c = 3)) ∧
    civilOfIndex n =
      let m := (5 * t + 2) / 153
      let d := t - (153 * m + 2) / 5 + 1
      let year := 400 * e + 100 * c + 4 * q + y
      if m < 10 then (year, m + 3, d) else (year + 1, m - 9, d) := by
  let c := min (n % 146097 / 36524) 3
  let r := n % 146097 - 36524 * c
  let y := min (r % 1461 / 365) 3
  have hc : c ≤ 3 := by omega
  have hr : r < 36525 ∧ (r = 36524 → c = 3) := by omega
  have hs : n % 146097 = 36524 * c + r := by omega
  exact ⟨n / 146097, c, r / 1461, y, r % 1461 - 365 * y, by omega, hc, by omega, by omega,
    by omega, by omega, rfl⟩

theorem march_year_index (e c q y t n : ℕ) (hc : c ≤ 3) (hq : q ≤ 24) (hy : y ≤ 3) (ht : t ≤ 365)
    (hl : t = 365 → y = 3 ∧ (q < 24 ∨ c = 3))
    (hn : n = 146097 * e + 36524 * c + 1461 * q + 365 * y + t) :
    civilOfIndex n =
      let m := (5 * t + 2) / 153
      let d := t - (153 * m + 2) / 5 + 1
      let year := 400 * e + 100 * c + 4 * q + y
      if m < 10 then (year, m + 3, d) else (year + 1, m - 9, d) := by
  have he : n / 146097 = e := by omega
  have hr : n % 146097 = 36524 * c + 1461 * q + 365 * y + t := by omega
  have hcc : min (n % 146097 / 36524) 3 = c := by rw [hr]; omega
  have hqq : (n % 146097 - 36524 * c) / 1461 = q := by rw [hr]; omega
  have hqr : (n % 146097 - 36524 * c) % 1461 = 365 * y + t := by rw [hr]; omega
  have hyy : min ((365 * y + t) / 365) 3 = y := by omega
  simp only [civilOfIndex, he, hcc, hqq, hqr, hyy, Nat.add_sub_cancel_left]

/-- The day count of whole March years. -/
theorem march_year_days (e c q y : ℕ) (hc : c ≤ 3) (hq : q ≤ 24) (hy : y ≤ 3) (n : ℕ)
    (hn : n = 400 * e + 100 * c + 4 * q + y) :
    365 * n + n / 4 - n / 100 + n / 400 = 146097 * e + 36524 * c + 1461 * q + 365 * y := by
  omega

theorem leap_march_year (e c q y : ℕ) (hc : c ≤ 3) (hq : q ≤ 24) (hy : y ≤ 3) :
    isLeapYear (400 * e + 100 * c + 4 * q + y + 1) = true ↔ y = 3 ∧ (q < 24 ∨ c = 3) := by
  simp only [isLeapYear, Bool.and_eq_true, Bool.or_eq_true, beq_iff_eq, bne_iff_ne]
  omega

def marchYearDays (y : ℕ) : ℕ := 365 * y + y / 4 - y / 100 + y / 400

def marchMonthDays (m : ℕ) : ℕ := (153 * m + 2) / 5

/-- The month `m` of the March year `y` is the civil month, counted from March on. -/
def MarchMonth (year month y m : ℕ) : Prop :=
  (month ≤ 2 ∧ m = month + 9 ∧ year = y + 1) ∨ (3 ≤ month ∧ month = m + 3 ∧ year = y)

theorem exists_marchMonth {year : ℕ} (hy : 1 ≤ year) (month day : ℕ) :
    ∃ y m, MarchMonth year month y m ∧
      civilIndex year month day = marchYearDays y + (marchMonthDays m + day - 1) := by
  by_cases h : month ≤ 2
  · exact ⟨year - 1, month + 9, Or.inl ⟨h, rfl, by omega⟩, by
      simp [civilIndex, marchYearDays, marchMonthDays, h]⟩
  · exact ⟨year, month - 3, Or.inr ⟨by omega, by omega, rfl⟩, by
      simp [civilIndex, marchYearDays, marchMonthDays, h]⟩

/-- The length of a month, told by its number in the March year. -/
theorem day_le_of_marchMonth {year month day y m : ℕ} (hlast : month ≤ 12)
    (hd : day ≤ lastDayOfMonth year month) (hm : MarchMonth year month y m) :
    day ≤ 31 ∧ ((m = 1 ∨ m = 3 ∨ m = 6 ∨ m = 8) → day ≤ 30) ∧
      (m = 11 → day ≤ 29 ∧ (day = 29 → isLeapYear (y + 1) = true)) := by
  unfold lastDayOfMonth at hd
  rcases hm with ⟨hmonth, rfl, rfl⟩ | ⟨hmonth, rfl, rfl⟩
  · split_ifs at hd with ha hb <;> refine ⟨by omega, by omega, fun h => ⟨by omega, ?_⟩⟩
    · exact fun _ => hb
    all_goals intro h29; omega
  · split_ifs at hd <;> refine ⟨by omega, by omega, by omega⟩

/-- Converting a civil date to its day index and back gives the date. -/
theorem civilOfIndex_civilIndex (year month day : ℕ) (hy : 1 ≤ year) (hm : 1 ≤ month)
    (hm' : month ≤ 12) (hd : 1 ≤ day) (hd' : day ≤ lastDayOfMonth year month) :
    civilOfIndex (civilIndex year month day) = (year, month, day) := by
  obtain ⟨y, m, hmarch, hindex⟩ := exists_marchMonth hy month day
  obtain ⟨h31, h30, h29⟩ := day_le_of_marchMonth hm' hd' hmarch
  have hm11 : m ≤ 11 := by
    unfold MarchMonth at hmarch
    omega
  -- The year number splits into the same cycles as the day index.
  have hyear : y = 400 * (y / 400) + 100 * (y % 400 / 100) + 4 * (y % 100 / 4) + y % 4 := by
    omega
  have hleap := leap_march_year (y / 400) (y % 400 / 100) (y % 100 / 4) (y % 4)
    (by omega) (by omega) (by omega)
  have hdays : marchYearDays y = _ := march_year_days (y / 400) (y % 400 / 100) (y % 100 / 4)
    (y % 4) (by omega) (by omega) (by omega) y hyear
  rw [← hyear] at hleap
  unfold marchMonthDays at hindex
  obtain ⟨h1, h2, h3, h4⟩ := march_day_index m day hm11 hd h31 h30 fun h => (h29 h).1
  have hciv := march_year_index (y / 400) (y % 400 / 100) (y % 100 / 4) (y % 4)
    ((153 * m + 2) / 5 + day - 1) (civilIndex year month day) (by omega) (by omega) (by omega) h3
    (fun h => hleap.mp ((h29 (h4 h).1).2 (h4 h).2)) (by rw [hindex, hdays])
  rw [hciv]
  simp only [← hyear, h1, h2]
  -- January and February are the last months of the March year before.
  rcases hmarch with ⟨hmonth, rfl, rfl⟩ | ⟨hmonth, rfl, rfl⟩
  · rw [if_neg (by omega), Nat.add_sub_cancel]
  · rw [if_pos (by omega)]

/-- A day index denotes a civil date, whose index it is. -/
theorem civilIndex_civilOfIndex (n : ℕ) (hn : 306 ≤ n) : ∃ year month day,
    civilOfIndex n = (year, month, day) ∧ civilIndex year month day = n ∧ 1 ≤ year ∧
    1 ≤ month ∧ month ≤ 12 ∧ 1 ≤ day ∧ day ≤ lastDayOfMonth year month := by
  obtain ⟨e, c, q, y, t, hsum, hc, hq, hy, ht, hl, hciv⟩ := march_year_split n
  obtain ⟨m, d, hm, hd, hidx, hm11, hd1, hd31, hd30, hd29⟩ := march_day_split t ht
  have hdays := march_year_days e c q y hc hq hy _ rfl
  have hleap := leap_march_year e c q y hc hq hy
  simp only [hm, hd] at hciv
  -- The civil year changes behind the tenth month of a March year.
  by_cases hlt : m < 10
  · rw [if_pos hlt] at hciv
    refine ⟨_, _, _, hciv, ?_, by omega, by omega, by omega, hd1, ?_⟩
    · have h3 : ¬m + 3 ≤ 2 := by omega
      simp only [civilIndex, if_neg h3, Nat.add_sub_cancel]
      omega
    · unfold lastDayOfMonth
      rw [if_neg (by omega)]
      split_ifs <;> omega
  · rw [if_neg hlt] at hciv
    refine ⟨_, _, _, hciv, ?_, by omega, by omega, by omega, hd1, ?_⟩
    · have h2 : m - 9 ≤ 2 := by omega
      have h9 : m - 9 + 9 = m := by omega
      simp only [civilIndex, if_pos h2, Nat.add_sub_cancel, h9]
      omega
    · unfold lastDayOfMonth
      split_ifs with h2 hly <;> try omega
      have hnot : ¬d = 29 := fun h29 => hly (hleap.mpr (hl ((hd29 (by omega)).2 h29)))
      omega

inductive DateError
  | invalidFormat | outOfRange | invalidCalendarDate
deriving DecidableEq, Repr

def isCalendarDate (year month day : ℕ) : Prop :=
  1 ≤ year ∧ year ≤ 9999 ∧ 1 ≤ month ∧ month ≤ 12 ∧ 1 ≤ day ∧ day ≤ lastDayOfMonth year month

instance (year month day : ℕ) : Decidable (isCalendarDate year month day) :=
  inferInstanceAs (Decidable (_ ∧ _))

structure IsoDate where
  year : ℕ
  month : ℕ
  day : ℕ
  valid : isCalendarDate year month day
deriving DecidableEq

@[ext] theorem IsoDate.ext {a b : IsoDate} (hy : a.year = b.year) (hm : a.month = b.month)
    (hd : a.day = b.day) : a = b := by
  cases a
  cases b
  simp_all

instance : Ord IsoDate :=
  ⟨compareLex (compareOn IsoDate.year)
    (compareLex (compareOn IsoDate.month) (compareOn IsoDate.day))⟩

instance : TransOrd IsoDate := inferInstanceAs (TransCmp (compareLex _ _))

instance : LawfulEqOrd IsoDate where
  eq_of_compare h := by
    obtain ⟨hy, h⟩ := compareLex_eq_eq.mp h
    obtain ⟨hm, hd⟩ := compareLex_eq_eq.mp h
    have hyear := @LawfulEqCmp.eq_of_compare _ compare _ _ _ hy
    have hmonth := @LawfulEqCmp.eq_of_compare _ compare _ _ _ hm
    have hday := @LawfulEqCmp.eq_of_compare _ compare _ _ _ hd
    exact IsoDate.ext hyear hmonth hday

instance : LinearOrder IsoDate := LinearOrder.ofStd IsoDate

def epochIndex : ℤ := 719468

def minimumEpochDay : ℤ := -719162

def maximumEpochDay : ℤ := 2932896

def IsoDate.index (date : IsoDate) : ℕ := civilIndex date.year date.month date.day

def IsoDate.toEpochDays (date : IsoDate) : Int32 := Int32.ofInt (date.index - epochIndex)

def IsoDate.fromEpochDays (epochDays : Int32) : Except DateError IsoDate :=
  if epochDays.toInt < minimumEpochDay ∨ epochDays.toInt > maximumEpochDay then
    .error .outOfRange
  else
    let parsed := civilOfIndex (epochDays.toInt + epochIndex).toNat
    if h : isCalendarDate parsed.1 parsed.2.1 parsed.2.2 then .ok ⟨_, _, _, h⟩
    else .error .outOfRange

theorem IsoDate.index_bounds (date : IsoDate) : 306 ≤ date.index ∧ date.index ≤ 3652364 := by
  obtain ⟨year, month, day, h1, h2, h3, h4, h5, h6⟩ := date
  have h31 : day ≤ 31 := by
    unfold lastDayOfMonth at h6
    split_ifs at h6 <;> omega
  simp only [IsoDate.index, civilIndex]
  split_ifs with hm <;> omega

theorem IsoDate.toInt_toEpochDays (date : IsoDate) :
    date.toEpochDays.toInt = date.index - epochIndex := by
  have hb := date.index_bounds
  unfold IsoDate.toEpochDays epochIndex
  apply Int32.toInt_ofInt_of_le <;> simp <;> omega

/-- The journal form of a date and the date determine each other. -/
theorem IsoDate.fromEpochDays_ok_iff {epochDays : Int32} {date : IsoDate} :
    IsoDate.fromEpochDays epochDays = .ok date ↔ epochDays = date.toEpochDays := by
  constructor
  · intro h
    unfold IsoDate.fromEpochDays at h
    split_ifs at h with hr
    have hb : 306 ≤ (epochDays.toInt + epochIndex).toNat := by
      simp only [minimumEpochDay, maximumEpochDay, epochIndex] at *
      omega
    obtain ⟨year, month, day, hciv, hidx, _⟩ := civilIndex_civilOfIndex _ hb
    simp only [hciv] at h
    split_ifs at h with hv
    simp only [Except.ok.injEq] at h
    apply Int32.toInt_inj.mp
    rw [IsoDate.toInt_toEpochDays, ← h, IsoDate.index]
    simp only [minimumEpochDay, maximumEpochDay, epochIndex] at *
    omega
  · rintro rfl
    have hb := date.index_bounds
    have hi := date.toInt_toEpochDays
    have hn : (date.toEpochDays.toInt + epochIndex).toNat = date.index := by omega
    obtain ⟨h1, _, h3, h4, h5, h6⟩ := date.valid
    have hciv : civilOfIndex date.index = (date.year, date.month, date.day) :=
      civilOfIndex_civilIndex _ _ _ h1 h3 h4 h5 h6
    unfold IsoDate.fromEpochDays
    rw [if_neg (by simp only [hi, minimumEpochDay, maximumEpochDay, epochIndex]; omega)]
    simp only [hn, hciv]
    rw [dif_pos date.valid]

theorem IsoDate.fromEpochDays_toEpochDays (date : IsoDate) :
    IsoDate.fromEpochDays date.toEpochDays = .ok date :=
  IsoDate.fromEpochDays_ok_iff.mpr rfl

end Backbook
