import Backbook.DomainDate

namespace Backbook

def lastIndex : ℕ := 3652364

/-- A day lies before the next month of its March year. -/
theorem marchMonthDays_day_le {m day : ℕ} (hm : m ≤ 10) (h31 : day ≤ 31)
    (h30 : (m = 1 ∨ m = 3 ∨ m = 6 ∨ m = 8) → day ≤ 30) :
    marchMonthDays m + day ≤ marchMonthDays (m + 1) := by
  unfold marchMonthDays
  interval_cases m <;> omega

/-- A day lies before the next March year. -/
theorem marchYearDays_day_lt {y m day : ℕ} (hm : m ≤ 11) (h31 : day ≤ 31)
    (h30 : (m = 1 ∨ m = 3 ∨ m = 6 ∨ m = 8) → day ≤ 30)
    (h29 : m = 11 → day ≤ 29 ∧ (day = 29 → isLeapYear (y + 1) = true)) :
    marchYearDays y + (marchMonthDays m + day - 1) < marchYearDays (y + 1) := by
  unfold marchYearDays marchMonthDays
  by_cases hleap : m = 11 ∧ day = 29
  · have hl := (h29 hleap.1).2 hleap.2
    simp only [isLeapYear, Bool.and_eq_true, Bool.or_eq_true, beq_iff_eq, bne_iff_ne] at hl
    obtain ⟨rfl, rfl⟩ := hleap
    omega
  · have hday : (153 * m + 2) / 5 + day - 1 ≤ 364 := by
      have h28 : m = 11 → day ≤ 28 := fun h => by
        have hle := (h29 h).1
        omega
      clear h29 hleap
      interval_cases m <;> omega
    omega

theorem marchYearDays_mono : Monotone marchYearDays := by
  apply monotone_nat_of_le_succ
  intro y
  unfold marchYearDays
  omega

theorem marchMonthDays_mono {m m' : ℕ} (h : m ≤ m') : marchMonthDays m ≤ marchMonthDays m' := by
  unfold marchMonthDays
  omega

theorem IsoDate.lt_iff {a b : IsoDate} : a < b ↔ a.year < b.year ∨
    a.year = b.year ∧ (a.month < b.month ∨ a.month = b.month ∧ a.day < b.day) := by
  rw [← compare_lt_iff_lt]
  change (compareLex _ _ a b) = .lt ↔ _
  simp only [compareLex, compareOn, Ordering.then_eq_lt, Nat.compare_eq_lt, Nat.compare_eq_eq]

/-- The March year, its month and the day decide in this order, as the civil parts do. -/
theorem IsoDate.lt_march {a b : IsoDate} (h : a < b) {y m y' m' : ℕ}
    (ha : MarchMonth a.year a.month y m) (hb : MarchMonth b.year b.month y' m') :
    y < y' ∨ y = y' ∧ (m < m' ∨ m = m' ∧ a.day < b.day) := by
  obtain ⟨_, _, hfirst, hlast, _, _⟩ := a.valid
  obtain ⟨_, _, hfirst', hlast', _, _⟩ := b.valid
  rw [IsoDate.lt_iff] at h
  unfold MarchMonth at ha hb
  omega

theorem IsoDate.index_lt_of_lt {a b : IsoDate} (h : a < b) : a.index < b.index := by
  obtain ⟨y, m, hmarch, hindex⟩ := exists_marchMonth a.valid.1 a.month a.day
  obtain ⟨y', m', hmarch', hindex'⟩ := exists_marchMonth b.valid.1 b.month b.day
  obtain ⟨_, _, _, hlast, hday, hlength⟩ := a.valid
  obtain ⟨_, _, _, hlast', hday', _⟩ := b.valid
  obtain ⟨h31, h30, h29⟩ := day_le_of_marchMonth hlast hlength hmarch
  unfold IsoDate.index
  rw [hindex, hindex']
  obtain hyear | ⟨rfl, hmonth | ⟨rfl, hless⟩⟩ := IsoDate.lt_march h hmarch hmarch'
  · have hlt := marchYearDays_day_lt (by unfold MarchMonth at hmarch; omega) h31 h30 h29
    have hmono : marchYearDays (y + 1) ≤ marchYearDays y' := marchYearDays_mono hyear
    omega
  · have hle := marchMonthDays_day_le (by unfold MarchMonth at hmarch'; omega) h31 h30
    have hmono : marchMonthDays (m + 1) ≤ marchMonthDays m' := marchMonthDays_mono hmonth
    omega
  · omega

theorem IsoDate.index_lt_iff {a b : IsoDate} : a.index < b.index ↔ a < b := by
  refine ⟨?_, IsoDate.index_lt_of_lt⟩
  intro h
  rcases lt_trichotomy a b with hlt | rfl | hgt
  · exact hlt
  · exact absurd h (lt_irrefl _)
  · exact absurd h (IsoDate.index_lt_of_lt hgt).not_gt

theorem IsoDate.index_injective : Function.Injective IsoDate.index := by
  intro a b h
  rcases lt_trichotomy a b with hlt | heq | hgt
  · exact absurd h (IsoDate.index_lt_of_lt hlt).ne
  · exact heq
  · exact absurd h (IsoDate.index_lt_of_lt hgt).ne'

/-- Every day index of the supported years belongs to a date. -/
theorem IsoDate.exists_index {n : ℕ} (hfirst : 306 ≤ n) (hlast : n ≤ lastIndex) :
    ∃ date : IsoDate, date.index = n := by
  obtain ⟨year, month, day, _, hindex, h1, h2, h3, h4, h5⟩ := civilIndex_civilOfIndex n hfirst
  have hyear : year ≤ 9999 := by
    by_contra hlate
    simp only [civilIndex] at hindex
    unfold lastIndex at hlast
    split_ifs at hindex <;> omega
  exact ⟨⟨year, month, day, h1, hyear, h2, h3, h4, h5⟩, hindex⟩

end Backbook
