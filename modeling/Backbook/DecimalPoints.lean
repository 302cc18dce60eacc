import Backbook.DecimalTexts

namespace DecimalText

def decimalPoint : UInt8 := 46

@[simp] theorem value_nil : value [] = 0 := rfl

theorem value_append (front back : List UInt8) :
    value (front ++ back) = value front * 10 ^ back.length + value back := by
  unfold value
  rw [List.map_append, List.reverse_append, Nat.ofDigits_append, List.length_reverse,
    List.length_map]
  ring

theorem value_singleton (c : UInt8) : value [c] = digitValue c := by
  simp [value]

theorem value_replicate_zeroDigit (n : ℕ) : value (List.replicate n zeroDigit) = 0 := by
  induction n with
  | zero => rfl
  | succ n ih =>
    rw [List.replicate_succ', value_append, ih, value_singleton]
    rfl

theorem value_padded (n : ℕ) (text : List UInt8) :
    value (List.replicate n zeroDigit ++ text) = value text := by
  rw [value_append, value_replicate_zeroDigit, zero_mul, zero_add]

structure Decimal where
  negative : Bool
  integer : List UInt8
  fraction : List UInt8
deriving DecidableEq

namespace Decimal

variable {places : ℕ} {d : Decimal}

def fractionText (d : Decimal) : List UInt8 :=
  if d.fraction = [] then [] else decimalPoint :: d.fraction

def text (d : Decimal) : List UInt8 :=
  (if d.negative then [minusSign] else []) ++ (d.integer ++ d.fractionText)

structure Canonical (places : ℕ) (d : Decimal) : Prop where
  integer_ne : d.integer ≠ []
  integer_digits : ∀ c ∈ d.integer, isDigit c = true
  leading : d.integer = [zeroDigit] ∨ d.integer.head? ≠ some zeroDigit
  fraction_digits : ∀ c ∈ d.fraction, isDigit c = true
  fraction_length : d.fraction.length ≤ places

def amount (d : Decimal) : ℚ :=
  (if d.negative then -1 else 1) *
    (value d.integer + value d.fraction / 10 ^ d.fraction.length)

def digits (places : ℕ) (d : Decimal) : List UInt8 :=
  d.integer ++ (d.fraction ++ List.replicate (places - d.fraction.length) zeroDigit)

theorem value_digits (places : ℕ) (d : Decimal) : value (d.digits places) =
    (value d.integer * 10 ^ d.fraction.length + value d.fraction) *
      10 ^ (places - d.fraction.length) := by
  unfold digits
  rw [← List.append_assoc, value_append, value_replicate_zeroDigit, List.length_replicate,
    value_append, add_zero]

def units (places : ℕ) (d : Decimal) : ℤ :=
  (if d.negative then -1 else 1) * (value (d.digits places) : ℤ)

/-- Scaled to the smallest units, the denoted number is the one of all digits. -/
theorem amount_scaled (h : d.fraction.length ≤ places) :
    d.amount * 10 ^ places = (d.units places : ℚ) := by
  obtain ⟨padding, rfl⟩ := Nat.exists_eq_add_of_le h
  have hpow : (10 : ℚ) ^ d.fraction.length ≠ 0 := by positivity
  rw [units, value_digits, amount, Nat.add_sub_cancel_left, pow_add]
  push_cast
  field_simp

theorem digits_isDigit (h : d.Canonical places) :
    ∀ c ∈ d.digits places, isDigit c = true := by
  intro c hc
  simp only [digits, List.mem_append] at hc
  rcases hc with hc | hc | hc
  · exact h.integer_digits c hc
  · exact h.fraction_digits c hc
  · rw [List.eq_of_mem_replicate hc]
    rfl

theorem takeWhile_integer (h : d.Canonical places) :
    (d.integer ++ d.fractionText).takeWhile isDigit = d.integer := by
  have hpoint : isDigit decimalPoint = false := rfl
  rw [List.takeWhile_append_of_pos h.integer_digits, fractionText]
  split_ifs <;> simp [hpoint]

theorem dropWhile_integer (h : d.Canonical places) :
    (d.integer ++ d.fractionText).dropWhile isDigit = d.fractionText := by
  have hpoint : isDigit decimalPoint = false := rfl
  rw [List.dropWhile_append_of_pos h.integer_digits, fractionText]
  split_ifs <;> simp [hpoint]

/-- No digit is a minus sign, so only the sign of a text can be one. -/
theorem text_head (h : d.Canonical places) :
    d.text.head? = some minusSign ↔ d.negative = true := by
  obtain ⟨c, rest, hinteger⟩ := List.exists_cons_of_ne_nil h.integer_ne
  have hc : c ≠ minusSign := by
    rintro rfl
    have hdigit := h.integer_digits minusSign (by rw [hinteger]; exact List.mem_cons_self)
    contradiction
  unfold text
  cases d.negative <;> simp [hinteger, hc]

end Decimal

end DecimalText
