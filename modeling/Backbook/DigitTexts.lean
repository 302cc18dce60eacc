import Backbook.DecimalPoints

namespace DecimalText

def fixedNumeral : ℕ → ℕ → List UInt8
  | 0, _ => []
  | length + 1, n => digitChar (n / 10 ^ length % 10) :: fixedNumeral length n

def stripLeadingZeros : List UInt8 → List UInt8
  | c :: d :: rest =>
    if c = zeroDigit ∧ isDigit d = true then stripLeadingZeros (d :: rest) else c :: d :: rest
  | text => text

theorem value_cons (c : UInt8) (text : List UInt8) :
    value (c :: text) = digitValue c * 10 ^ text.length + value text := by
  rw [← List.singleton_append, value_append, value_singleton]

theorem value_lt {text : List UInt8} (h : ∀ c ∈ text, isDigit c = true) :
    value text < 10 ^ text.length := by
  have hlt := Nat.ofDigits_lt_base_pow_length (by decide) (digitValues_lt h)
  rwa [List.length_reverse, List.length_map] at hlt

/-- Reading digit by digit, each of them moves the others up one place. -/
theorem value_eq_foldl (text : List UInt8) :
    value text = text.foldl (fun result c => result * 10 + digitValue c) 0 := by
  induction text using List.reverseRecOn with
  | nil => rfl
  | append_singleton text c ih =>
    rw [value_append, value_singleton, List.foldl_append, ← ih, List.length_singleton, pow_one]
    rfl

theorem numeral_leading (n : ℕ) :
    numeral n = [zeroDigit] ∨ (numeral n).head? ≠ some zeroDigit := by
  by_cases hn : n = 0
  · rw [hn]
    exact Or.inl rfl
  · exact Or.inr fun hc => numeral_head hn hc rfl

/-- The integer part of a canonical text is the numeral of some number. -/
theorem Decimal.Canonical.exists_numeral {places : ℕ} {d : Decimal} (h : d.Canonical places) :
    ∃ n, d.integer = numeral n := by
  rw [exists_numeral_iff]
  rcases h.leading with hzero | hhead
  · exact Or.inl hzero
  · obtain ⟨c, rest, hinteger⟩ := List.exists_cons_of_ne_nil h.integer_ne
    have hc : c ≠ zeroDigit := by
      rintro rfl
      exact hhead (by rw [hinteger, List.head?_cons])
    exact Or.inr ⟨c, rest, hinteger, hc, h.integer_digits⟩

theorem Decimal.canonical_numeral {places n : ℕ} {negative : Bool} {fraction : List UInt8}
    (hdigits : ∀ c ∈ fraction, isDigit c = true) (hlength : fraction.length ≤ places) :
    Decimal.Canonical places ⟨negative, numeral n, fraction⟩ where
  integer_ne := numeral_ne_nil n
  integer_digits := numeral_digits
  leading := numeral_leading n
  fraction_digits := hdigits
  fraction_length := hlength

@[simp] theorem fixedNumeral_length (length n : ℕ) : (fixedNumeral length n).length = length := by
  induction length with
  | zero => rfl
  | succ length ih => rw [fixedNumeral, List.length_cons, ih]

theorem fixedNumeral_digits (length n : ℕ) : ∀ c ∈ fixedNumeral length n, isDigit c = true := by
  induction length with
  | zero => exact List.forall_mem_nil _
  | succ length ih =>
    rw [fixedNumeral, List.forall_mem_cons]
    exact ⟨isDigit_digitChar (Nat.mod_lt _ (by decide)), ih⟩

theorem value_fixedNumeral (length n : ℕ) : value (fixedNumeral length n) = n % 10 ^ length := by
  induction length with
  | zero => rw [pow_zero, Nat.mod_one, fixedNumeral, value_nil]
  | succ length ih =>
    have hdigit : n / 10 ^ length % 10 < 10 := Nat.mod_lt _ (by decide)
    rw [fixedNumeral, value_cons, ih, fixedNumeral_length, digitValue_digitChar hdigit,
      pow_succ, Nat.mod_mul]
    ring

theorem digitValue_lt_iff {a b : UInt8} (ha : isDigit a = true) (hb : isDigit b = true) :
    digitValue a < digitValue b ↔ a < b := by
  have hla := isDigit_iff.mp ha
  have hlb := isDigit_iff.mp hb
  rw [UInt8.lt_iff_toNat_lt]
  unfold digitValue
  omega

theorem digitValue_inj {a b : UInt8} (ha : isDigit a = true) (hb : isDigit b = true) :
    digitValue a = digitValue b ↔ a = b := by
  constructor
  · intro h
    rw [← digitChar_digitValue ha, h, digitChar_digitValue hb]
  · exact congrArg digitValue

/-- A smaller leading digit makes the smaller number, whatever follows it. -/
theorem leading_lt {x y u v k : ℕ} (hu : u < k) (hxy : x < y) : x * k + u < y * k + v := by
  calc x * k + u < x * k + k := Nat.add_lt_add_left hu _
    _ = (x + 1) * k := by ring
    _ ≤ y * k := Nat.mul_le_mul_right _ hxy
    _ ≤ y * k + v := Nat.le_add_right _ _

theorem leading_lt_iff {x y u v k : ℕ} (hu : u < k) (hv : v < k) :
    x * k + u < y * k + v ↔ x < y ∨ x = y ∧ u < v := by
  rcases lt_trichotomy x y with hlt | heq | hgt
  · exact iff_of_true (leading_lt hu hlt) (Or.inl hlt)
  · simp [heq]
  · have hless : y * k + v < x * k + u := leading_lt hv hgt
    exact iff_of_false hless.not_gt (by omega)

/-- The first digit that differs decides between two texts of one length. -/
theorem value_lt_value_iff {xs ys : List UInt8} (hx : ∀ c ∈ xs, isDigit c = true)
    (hy : ∀ c ∈ ys, isDigit c = true) (hlength : xs.length = ys.length) :
    value xs < value ys ↔ xs < ys := by
  induction xs generalizing ys with
  | nil =>
    obtain rfl := List.eq_nil_of_length_eq_zero hlength.symm
    simp
  | cons x xs ih =>
    obtain ⟨y, ys, rfl⟩ := List.exists_cons_of_length_eq_add_one hlength.symm
    rw [List.forall_mem_cons] at hx hy
    have htails : xs.length = ys.length := Nat.succ.inj hlength
    -- Both tails are smaller than the weight of the digits in front of them.
    have hxs : value xs < 10 ^ ys.length := htails ▸ value_lt hx.2
    rw [value_cons, value_cons, htails, leading_lt_iff hxs (value_lt hy.2),
      digitValue_lt_iff hx.1 hy.1, digitValue_inj hx.1 hy.1, ih hx.2 hy.2 htails,
      List.cons_lt_cons_iff]

theorem fixedNumeral_lt_iff {length m n : ℕ} (hm : m < 10 ^ length) (hn : n < 10 ^ length) :
    fixedNumeral length m < fixedNumeral length n ↔ m < n := by
  have hlengths : (fixedNumeral length m).length = (fixedNumeral length n).length := by simp
  rw [← value_lt_value_iff (fixedNumeral_digits _ _) (fixedNumeral_digits _ _) hlengths,
    value_fixedNumeral, value_fixedNumeral, Nat.mod_eq_of_lt hm, Nat.mod_eq_of_lt hn]

theorem fixedNumeral_inj {length m n : ℕ} (hm : m < 10 ^ length) (hn : n < 10 ^ length) :
    fixedNumeral length m = fixedNumeral length n ↔ m = n := by
  constructor
  · intro h
    have hvalue := congrArg value h
    rwa [value_fixedNumeral, value_fixedNumeral, Nat.mod_eq_of_lt hm, Nat.mod_eq_of_lt hn]
      at hvalue
  · exact congrArg (fixedNumeral length)

theorem value_inj {xs ys : List UInt8} (hx : ∀ c ∈ xs, isDigit c = true)
    (hy : ∀ c ∈ ys, isDigit c = true) (hlength : xs.length = ys.length)
    (h : value xs = value ys) : xs = ys := by
  have hlengths : (xs.map digitValue).reverse.length = (ys.map digitValue).reverse.length := by
    simp [hlength]
  -- The digits to the base ten, the last one first.
  have hdigits := Nat.ofDigits_inj_of_len_eq (by decide) hlengths (digitValues_lt hx)
    (digitValues_lt hy) h
  have hvalues : xs.map digitValue = ys.map digitValue := List.reverse_injective hdigits
  calc xs = (xs.map digitValue).map digitChar := (map_digitChar_digitValue hx).symm
    _ = (ys.map digitValue).map digitChar := by rw [hvalues]
    _ = ys := map_digitChar_digitValue hy

/-- Digits are the text of their value at their own length. -/
theorem fixedNumeral_value {text : List UInt8} {length : ℕ} (hlength : text.length = length)
    (h : ∀ c ∈ text, isDigit c = true) : fixedNumeral length (value text) = text := by
  subst hlength
  apply value_inj (fixedNumeral_digits _ _) h (fixedNumeral_length _ _)
  rw [value_fixedNumeral, Nat.mod_eq_of_lt (value_lt h)]

theorem Decimal.units_of_nonnegative {places : ℕ} {d : Decimal} (h : d.negative = false) :
    d.units places = value (d.digits places) := by
  simp [Decimal.units, h]

/-- Zeros in front of a numeral bring it to a length that it does not exceed. -/
theorem leftpad_numeral {length n : ℕ} (hlength : 0 < length) (hn : n < 10 ^ length) :
    (numeral n).leftpad length zeroDigit = fixedNumeral length n := by
  have hshort := (numeral_length_le hlength).mpr hn
  apply value_inj
  · intro c hc
    rcases List.mem_append.mp hc with hzero | hdigit
    · rw [List.eq_of_mem_replicate hzero]
      rfl
    · exact numeral_digits c hdigit
  · exact fixedNumeral_digits _ _
  · rw [List.length_leftpad, fixedNumeral_length, Nat.max_eq_left hshort]
  · rw [List.leftpad, value_padded, value_numeral, value_fixedNumeral, Nat.mod_eq_of_lt hn]

/-- Texts with a first part of one length compare by that part first. -/
theorem append_lt_append_iff {α : Type*} [LT α] {xs ys as bs : List α}
    (h : xs.length = ys.length) : xs ++ as < ys ++ bs ↔ xs < ys ∨ xs = ys ∧ as < bs := by
  induction xs generalizing ys with
  | nil =>
    obtain rfl := List.eq_nil_of_length_eq_zero h.symm
    simp
  | cons x xs ih =>
    obtain ⟨y, ys, rfl⟩ := List.exists_cons_of_length_eq_add_one h.symm
    rw [List.cons_append, List.cons_append, List.cons_lt_cons_iff, List.cons_lt_cons_iff,
      ih (Nat.succ.inj h), List.cons.injEq, and_or_left, or_assoc, and_assoc]

/-- What is left of some digits is the numeral of their value. -/
theorem stripLeadingZeros_digits {text : List UInt8} (hne : text ≠ [])
    (h : ∀ c ∈ text, isDigit c = true) : stripLeadingZeros text = numeral (value text) := by
  fun_induction stripLeadingZeros text with
  | case1 c d rest hzero ih =>
    rw [List.forall_mem_cons] at h
    have hvalue : digitValue zeroDigit = 0 := rfl
    rw [ih (List.cons_ne_nil _ _) h.2, hzero.1, value_cons zeroDigit, hvalue, zero_mul, zero_add]
  | case2 c d rest hzero =>
    have hd : isDigit d = true := h d (by simp)
    exact (numeral_value h fun hc => hzero ⟨hc, hd⟩).symm
  | case3 text hshort =>
    -- One digit, which may be the zero, has nothing in front to be removed.
    obtain ⟨c, rest, rfl⟩ := List.exists_cons_of_ne_nil hne
    cases rest with
    | nil =>
      by_cases hc : c = zeroDigit
      · rw [hc]
        rfl
      · exact (numeral_value h hc).symm
    | cons d rest => exact absurd rfl (hshort c d rest)

end DecimalText
