import Mathlib

namespace DecimalText

def zeroDigit : UInt8 := 48

def minusSign : UInt8 := 45

def isDigit (character : UInt8) : Bool := 48 ≤ character && character ≤ 57

def digitChar (digit : ℕ) : UInt8 := UInt8.ofNat (48 + digit)

def digitValue (character : UInt8) : ℕ := character.toNat - 48

theorem isDigit_iff {c : UInt8} : isDigit c = true ↔ 48 ≤ c.toNat ∧ c.toNat ≤ 57 := by
  simp [isDigit, UInt8.le_iff_toNat_le]

theorem toNat_digitChar {d : ℕ} (hd : d < 10) : (digitChar d).toNat = 48 + d := by
  have hsize : 48 + d < UInt8.size := by
    change 48 + d < 256
    omega
  exact UInt8.toNat_ofNat_of_lt' hsize

theorem isDigit_digitChar {d : ℕ} (hd : d < 10) : isDigit (digitChar d) = true := by
  rw [isDigit_iff, toNat_digitChar hd]
  omega

theorem digitValue_digitChar {d : ℕ} (hd : d < 10) : digitValue (digitChar d) = d := by
  rw [digitValue, toNat_digitChar hd]
  omega

theorem digitChar_digitValue {c : UInt8} (hc : isDigit c = true) :
    digitChar (digitValue c) = c := by
  have hb := isDigit_iff.mp hc
  have hsum : 48 + (c.toNat - 48) = c.toNat := by omega
  rw [digitChar, digitValue, hsum, UInt8.ofNat_toNat]

theorem digitValue_lt {c : UInt8} (hc : isDigit c = true) : digitValue c < 10 := by
  have hb := isDigit_iff.mp hc
  unfold digitValue
  omega

theorem digitValues_lt {text : List UInt8} (h : ∀ c ∈ text, isDigit c = true) :
    ∀ d ∈ (text.map digitValue).reverse, d < 10 := by
  intro d hd
  obtain ⟨c, hc, rfl⟩ := List.mem_map.mp (List.mem_reverse.mp hd)
  exact digitValue_lt (h c hc)

theorem map_digitChar_digitValue {text : List UInt8} (h : ∀ c ∈ text, isDigit c = true) :
    (text.map digitValue).map digitChar = text := by
  rw [List.map_map]
  apply (List.map_congr_left _).trans (List.map_id _)
  intro c hc
  exact digitChar_digitValue (h c hc)

def value (text : List UInt8) : ℕ := Nat.ofDigits 10 (text.map digitValue).reverse

def numeral (n : ℕ) : List UInt8 :=
  if n = 0 then [zeroDigit] else ((Nat.digits 10 n).map digitChar).reverse

theorem numeral_digits {n : ℕ} : ∀ c ∈ numeral n, isDigit c = true := by
  intro c hc
  unfold numeral at hc
  split_ifs at hc with hn
  · obtain rfl := List.mem_singleton.mp hc
    rfl
  · obtain ⟨d, hd, rfl⟩ := List.mem_map.mp (List.mem_reverse.mp hc)
    exact isDigit_digitChar (Nat.digits_lt_base (by decide) hd)

theorem value_numeral (n : ℕ) : value (numeral n) = n := by
  unfold numeral
  split_ifs with hn
  · rw [hn]
    rfl
  · unfold value
    rw [List.map_reverse, List.reverse_reverse, List.map_map]
    have hid : (Nat.digits 10 n).map (digitValue ∘ digitChar) = Nat.digits 10 n := by
      apply (List.map_congr_left _).trans (List.map_id _)
      intro d hd
      exact digitValue_digitChar (Nat.digits_lt_base (by decide) hd)
    rw [hid, Nat.ofDigits_digits]

theorem numeral_injective : Function.Injective numeral :=
  Function.LeftInverse.injective value_numeral

/-- Digits that do not start with a zero are the numeral of their value. -/
theorem numeral_value {c : UInt8} {rest : List UInt8} (hd : ∀ b ∈ c :: rest, isDigit b = true)
    (hc : c ≠ zeroDigit) : numeral (value (c :: rest)) = c :: rest := by
  have hlast : ∀ h : ((c :: rest).map digitValue).reverse ≠ [],
      ((c :: rest).map digitValue).reverse.getLast h ≠ 0 := by
    intro h hzero
    rw [List.getLast_reverse] at hzero
    have hb := isDigit_iff.mp (hd c List.mem_cons_self)
    simp only [List.map_cons, List.head_cons, digitValue] at hzero
    apply hc
    apply UInt8.toNat_inj.mp
    change c.toNat = 48
    omega
  have hdigits : Nat.digits 10 (value (c :: rest)) = ((c :: rest).map digitValue).reverse :=
    Nat.digits_ofDigits 10 (by decide) _ (digitValues_lt hd) hlast
  have hne : value (c :: rest) ≠ 0 := by
    intro hzero
    rw [hzero] at hdigits
    simp at hdigits
  unfold numeral
  rw [if_neg hne, hdigits, List.map_reverse, List.reverse_reverse, map_digitChar_digitValue hd]

theorem numeral_ne_nil (n : ℕ) : numeral n ≠ [] := by
  unfold numeral
  split_ifs with hn
  · exact List.cons_ne_nil _ _
  · simpa [Nat.digits_eq_nil_iff_eq_zero] using hn

/-- The numeral of a positive number starts with another digit than zero. -/
theorem numeral_head {n : ℕ} (hn : n ≠ 0) {c : UInt8} (hc : (numeral n).head? = some c) :
    c ≠ zeroDigit := by
  unfold numeral at hc
  rw [if_neg hn, List.head?_reverse, List.getLast?_map, Option.map_eq_some_iff] at hc
  obtain ⟨d, hd, rfl⟩ := hc
  obtain ⟨hne, rfl⟩ := List.mem_getLast?_eq_getLast hd
  have hzero := Nat.getLast_digit_ne_zero 10 hn
  have hlt : (Nat.digits 10 n).getLast hne < 10 :=
    Nat.digits_lt_base (by decide) (List.getLast_mem hne)
  intro heq
  have hnat := congrArg UInt8.toNat heq
  rw [toNat_digitChar hlt] at hnat
  change _ = 48 at hnat
  omega

/-- The texts that are numerals. -/
theorem exists_numeral_iff {text : List UInt8} : (∃ n, text = numeral n) ↔
    text = [zeroDigit] ∨ ∃ c rest, text = c :: rest ∧ c ≠ zeroDigit ∧
      ∀ b ∈ text, isDigit b = true := by
  constructor
  · rintro ⟨n, rfl⟩
    by_cases hn : n = 0
    · exact Or.inl (by rw [hn]; rfl)
    · obtain ⟨c, rest, htext⟩ := List.exists_cons_of_ne_nil (numeral_ne_nil n)
      have hhead : (numeral n).head? = some c := by rw [htext]; rfl
      exact Or.inr ⟨c, rest, htext, numeral_head hn hhead, numeral_digits⟩
  · rintro (rfl | ⟨c, rest, rfl, hc, hd⟩)
    · exact ⟨0, rfl⟩
    · exact ⟨value (c :: rest), (numeral_value hd hc).symm⟩

theorem numeral_length_le {n k : ℕ} (hk : 0 < k) : (numeral n).length ≤ k ↔ n < 10 ^ k := by
  unfold numeral
  split_ifs with hn
  · subst hn
    simp [hk, Nat.succ_le_iff]
  · rw [List.length_reverse, List.length_map, Nat.digits_length_le_iff (by decide)]

def signedNumeral (z : ℤ) : List UInt8 :=
  if z < 0 then minusSign :: numeral z.natAbs else numeral z.natAbs

theorem signedNumeral_natCast (n : ℕ) : signedNumeral n = numeral n := by
  unfold signedNumeral
  rw [if_neg (by omega), Int.natAbs_natCast]

theorem signedNumeral_neg {n : ℕ} (hn : n ≠ 0) : signedNumeral (-n) = minusSign :: numeral n := by
  unfold signedNumeral
  rw [if_pos (by omega), Int.natAbs_neg, Int.natAbs_natCast]

theorem numeral_head_ne_minusSign (n : ℕ) : (numeral n).head? ≠ some minusSign := by
  intro hc
  have hdigit := numeral_digits (n := n) minusSign (List.mem_of_mem_head? hc)
  contradiction

/-- A signed numeral is a numeral, or that of a positive number behind a minus sign. -/
theorem exists_signedNumeral_iff {text : List UInt8} : (∃ z, text = signedNumeral z) ↔
    (∃ n, text = numeral n) ∨ ∃ n, n ≠ 0 ∧ text = minusSign :: numeral n := by
  constructor
  · rintro ⟨z, rfl⟩
    by_cases hz : z < 0
    · exact Or.inr ⟨z.natAbs, by omega, if_pos hz⟩
    · exact Or.inl ⟨z.natAbs, if_neg hz⟩
  · rintro (⟨n, rfl⟩ | ⟨n, hn, rfl⟩)
    · exact ⟨n, (signedNumeral_natCast n).symm⟩
    · exact ⟨-n, (signedNumeral_neg hn).symm⟩

theorem signedNumeral_injective : Function.Injective signedNumeral := by
  intro a b h
  unfold signedNumeral at h
  split_ifs at h with ha hb hb
  · have habs := numeral_injective (List.cons.inj h).2
    omega
  · exact absurd (congrArg List.head? h).symm (numeral_head_ne_minusSign _)
  · exact absurd (congrArg List.head? h) (numeral_head_ne_minusSign _)
  · have habs := numeral_injective h
    omega

theorem signedNumeral_length_le {z : ℤ} {k : ℕ} (hk : 0 < k) (hz : z.natAbs < 10 ^ k) :
    (signedNumeral z).length ≤ k + 1 := by
  have hlen := (numeral_length_le hk).mpr hz
  unfold signedNumeral
  split_ifs
  · rw [List.length_cons]
    omega
  · omega

inductive Errc
  | invalidArgument | resultOutOfRange
deriving DecidableEq, Repr

/-- The digits at the front of a text and what follows them. A value beyond the
largest one of the type is refused. -/
def fromChars (maximum : ℕ) (text : List UInt8) : Except Errc (ℕ × List UInt8) :=
  let digits := text.takeWhile isDigit
  if digits = [] then .error .invalidArgument
  else if maximum < value digits then .error .resultOutOfRange
  else .ok (value digits, text.dropWhile isDigit)

def fromCharsSigned (minimum maximum : ℤ) (text : List UInt8) : Except Errc (ℤ × List UInt8) :=
  let negative := text.head? = some minusSign
  let body := if negative then text.tail else text
  let digits := body.takeWhile isDigit
  let number : ℤ := if negative then -value digits else value digits
  if digits = [] then .error .invalidArgument
  else if number < minimum ∨ maximum < number then .error .resultOutOfRange
  else .ok (number, body.dropWhile isDigit)

theorem takeWhile_numeral (n : ℕ) : (numeral n).takeWhile isDigit = numeral n :=
  List.takeWhile_eq_self_iff.mpr fun _ hc => numeral_digits _ hc

theorem dropWhile_numeral (n : ℕ) : (numeral n).dropWhile isDigit = [] :=
  List.dropWhile_eq_nil_iff.mpr fun _ hc => numeral_digits _ hc

theorem fromChars_numeral (maximum n : ℕ) : fromChars maximum (numeral n) =
    if maximum < n then .error .resultOutOfRange else .ok (n, []) := by
  simp only [fromChars, takeWhile_numeral, dropWhile_numeral, value_numeral,
    if_neg (numeral_ne_nil n)]

theorem fromCharsSigned_signedNumeral (minimum maximum z : ℤ) :
    fromCharsSigned minimum maximum (signedNumeral z) =
      if z < minimum ∨ maximum < z then .error .resultOutOfRange else .ok (z, []) := by
  by_cases hz : z < 0
  · have htext : signedNumeral z = minusSign :: numeral z.natAbs := if_pos hz
    have hval : -(z.natAbs : ℤ) = z := by omega
    unfold fromCharsSigned
    rw [htext]
    simp only [List.head?_cons, List.tail_cons, if_true, takeWhile_numeral, dropWhile_numeral,
      value_numeral, hval, if_neg (numeral_ne_nil _)]
  · have htext : signedNumeral z = numeral z.natAbs := if_neg hz
    have hval : (z.natAbs : ℤ) = z := by omega
    unfold fromCharsSigned
    rw [htext]
    simp only [numeral_head_ne_minusSign, if_false, takeWhile_numeral, dropWhile_numeral,
      value_numeral, hval, if_neg (numeral_ne_nil _)]

end DecimalText
