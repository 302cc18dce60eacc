import Mathlib

/-! Cyclic redundancy checks by shifting a register. Each step of the register
can be undone when the polynomial has its top bit set, so a check over equal
lengths tells apart any two messages that differ at one place, or only within a
stretch no longer than the register. -/
namespace CyclicCheck

variable {w : ℕ}

def shiftStep (poly crc : BitVec w) : BitVec w :=
  (crc >>> 1) ^^^ (if crc.getLsbD 0 then poly else 0)

theorem shiftStep_msb {poly : BitVec w} (hp : poly.msb = true) (crc : BitVec w) :
    (shiftStep poly crc).msb = crc.getLsbD 0 := by
  have hw : 0 < w := by
    by_contra hw
    obtain rfl : w = 0 := by omega
    simp [BitVec.of_length_zero] at hp
  have hshift : (crc >>> 1).msb = false := by
    rw [BitVec.msb_eq_getLsbD_last, BitVec.getLsbD_ushiftRight]
    apply BitVec.getLsbD_of_ge
    omega
  unfold shiftStep
  rw [BitVec.msb_xor, hshift]
  -- The low bit decides whether the polynomial, and so its top bit, comes in.
  cases crc.getLsbD 0 <;> simp [hp]

theorem shiftStep_injective {poly : BitVec w} (hp : poly.msb = true) :
    Function.Injective (shiftStep poly) := by
  intro a b h
  -- The bit that was shifted out shows in the top bit.
  have hlow : a.getLsbD 0 = b.getLsbD 0 := by
    rw [← shiftStep_msb hp a, ← shiftStep_msb hp b, h]
  have hhigh : a >>> 1 = b >>> 1 := by
    unfold shiftStep at h
    rw [hlow] at h
    exact (BitVec.xor_left_inj _).mp h
  apply BitVec.eq_of_getLsbD_eq
  intro i _
  cases i with
  | zero => exact hlow
  | succ i =>
    have hi := congrArg (fun v => v.getLsbD i) hhigh
    simpa only [BitVec.getLsbD_ushiftRight, Nat.add_comm 1 i] using hi

section Folds

variable {σ α : Type*} {step : σ → α → σ}

theorem foldl_injective (hs : ∀ a, Function.Injective fun s => step s a) (as : List α) :
    Function.Injective fun s => as.foldl step s := by
  induction as with
  | nil => exact fun _ _ h => h
  | cons a as ih =>
    intro s t h
    exact hs a (ih h)

def OneChange (as bs : List α) : Prop :=
  ∃ (front back : List α) (a b : α), a ≠ b ∧ as = front ++ a :: back ∧ bs = front ++ b :: back

theorem OneChange.length_eq {as bs : List α} (h : OneChange as bs) : as.length = bs.length := by
  obtain ⟨front, back, a, b, _, rfl, rfl⟩ := h
  simp

theorem OneChange.ne {as bs : List α} (h : OneChange as bs) : as ≠ bs := by
  obtain ⟨front, back, a, b, hab, rfl, rfl⟩ := h
  intro heq
  have htail := List.append_cancel_left heq
  exact hab (List.cons.inj htail).1

theorem OneChange.append_right {as bs : List α} (h : OneChange as bs) (cs : List α) :
    OneChange (as ++ cs) (bs ++ cs) := by
  obtain ⟨front, back, a, b, hab, rfl, rfl⟩ := h
  exact ⟨front, back ++ cs, a, b, hab, by simp, by simp⟩

/-- The one change lies in one of two parts. -/
theorem OneChange.split {as bs cs ds : List α} (hlen : as.length = bs.length)
    (h : OneChange (as ++ cs) (bs ++ ds)) :
    OneChange as bs ∧ cs = ds ∨ as = bs ∧ OneChange cs ds := by
  induction as generalizing bs with
  | nil =>
    obtain rfl : bs = [] := by simpa using hlen.symm
    exact Or.inr ⟨rfl, h⟩
  | cons x as ih =>
    cases bs with
    | nil => simp at hlen
    | cons y bs =>
      obtain ⟨front, back, a, b, hab, hleft, hright⟩ := h
      cases front with
      | nil =>
        simp only [List.cons_append, List.nil_append, List.cons.injEq] at hleft hright
        obtain ⟨rfl, hl⟩ := hleft
        obtain ⟨rfl, hr⟩ := hright
        have htails := List.append_inj (hl.trans hr.symm) (by simpa using hlen)
        obtain ⟨rfl, rfl⟩ := htails
        exact Or.inl ⟨⟨[], as, x, y, hab, rfl, rfl⟩, rfl⟩
      | cons z front =>
        simp only [List.cons_append, List.cons.injEq] at hleft hright
        obtain ⟨rfl, hl⟩ := hleft
        obtain ⟨rfl, hr⟩ := hright
        rcases ih (by simpa using hlen) ⟨front, back, a, b, hab, hl, hr⟩ with ⟨hc, hd⟩ | ⟨rfl, hc⟩
        · obtain ⟨front', back', a', b', hab', rfl, rfl⟩ := hc
          exact Or.inl ⟨⟨_ :: front', back', a', b', hab', rfl, rfl⟩, hd⟩
        · exact Or.inr ⟨rfl, hc⟩

/-- Two messages that differ at one place have different checks. -/
theorem OneChange.foldl_ne {as bs : List α} (h : OneChange as bs)
    (hs : ∀ a, Function.Injective fun s => step s a) (ha : ∀ s, Function.Injective (step s))
    (s : σ) : as.foldl step s ≠ bs.foldl step s := by
  obtain ⟨front, back, a, b, hab, rfl, rfl⟩ := h
  intro heq
  simp only [List.foldl_append, List.foldl_cons] at heq
  exact hab (ha _ (foldl_injective hs back heq))

end Folds

section Windows

variable {α : Type*} {as bs : List α} {start width : ℕ}

def AgreeOutside (start width : ℕ) (as bs : List α) : Prop :=
  ∀ i, i < start ∨ start + width ≤ i → as[i]? = bs[i]?

theorem AgreeOutside.take_eq (h : AgreeOutside start width as bs) {k : ℕ} (hk : k ≤ start) :
    as.take k = bs.take k := by
  apply List.ext_getElem?
  intro i
  rw [List.getElem?_take, List.getElem?_take]
  split_ifs with hi
  · exact h i (.inl (by omega))
  · rfl

theorem AgreeOutside.drop_eq (h : AgreeOutside start width as bs) {k : ℕ}
    (hk : start + width ≤ k) : as.drop k = bs.drop k := by
  apply List.ext_getElem?
  intro i
  rw [List.getElem?_drop, List.getElem?_drop]
  exact h (k + i) (.inr (by omega))

theorem AgreeOutside.take (h : AgreeOutside start width as bs) (k : ℕ) :
    AgreeOutside start width (as.take k) (bs.take k) := by
  intro i hi
  rw [List.getElem?_take, List.getElem?_take, h i hi]

theorem AgreeOutside.drop (h : AgreeOutside start width as bs) {k : ℕ} (hk : k ≤ start) :
    AgreeOutside (start - k) width (as.drop k) (bs.drop k) := by
  intro i hi
  rw [List.getElem?_drop, List.getElem?_drop]
  exact h (k + i) (by omega)

/-- Such strings are one front and one back around what the window shows. -/
theorem AgreeOutside.parts (h : AgreeOutside start width as bs) (hlen : as.length = bs.length) :
    ∃ front mid mid' back, as = front ++ (mid ++ back) ∧ bs = front ++ (mid' ++ back) ∧
      mid.length = mid'.length ∧ mid.length ≤ width := by
  have hsplit (cs : List α) :
      cs = cs.take start ++ ((cs.drop start).take width ++ cs.drop (start + width)) := by
    rw [← List.drop_drop, List.take_append_drop, List.take_append_drop]
  refine ⟨as.take start, (as.drop start).take width, (bs.drop start).take width,
    as.drop (start + width), hsplit as, ?_, by simp [hlen], List.length_take_le _ _⟩
  rw [h.take_eq le_rfl, h.drop_eq le_rfl]
  exact hsplit bs

end Windows

section Bursts

variable {poly : BitVec w} {v : ℕ}

theorem shiftStep_xor (poly a b : BitVec w) :
    shiftStep poly (a ^^^ b) = shiftStep poly a ^^^ shiftStep poly b := by
  -- The polynomial comes in twice, and so not at all, when both low bits are set.
  have hmask (x y : Bool) : (if (x ^^ y) = true then poly else 0) =
      (if x = true then poly else 0) ^^^ (if y = true then poly else 0) := by
    cases x <;> cases y <;> simp
  unfold shiftStep
  rw [BitVec.ushiftRight_xor_distrib, BitVec.getLsbD_xor, hmask]
  ac_rfl

theorem iterate_shiftStep_xor (poly : BitVec w) (n : ℕ) (a b : BitVec w) :
    (shiftStep poly)^[n] (a ^^^ b) = (shiftStep poly)^[n] a ^^^ (shiftStep poly)^[n] b := by
  induction n generalizing a b with
  | zero => rfl
  | succ n ih => rw [Function.iterate_succ_apply, Function.iterate_succ_apply,
      Function.iterate_succ_apply, shiftStep_xor, ih]

/-- A register whose low bit is clear is only shifted. -/
theorem shiftStep_shiftLeft {x : BitVec w} (hx : x.getLsbD (w - 1) = false) :
    shiftStep poly (x <<< 1) = x := by
  apply BitVec.eq_of_getLsbD_eq
  intro i hi
  have hlow : (x <<< 1).getLsbD 0 = false := by simp
  rw [shiftStep, hlow]
  by_cases hlast : i = w - 1
  · subst hlast
    rw [hx]
    simp
    omega
  · have hlt : 1 + i < w := by omega
    simp [hlt, BitVec.getLsbD_eq_getElem hi]

def ClearFrom (n : ℕ) (x : BitVec w) : Prop := ∀ i, n ≤ i → x.getLsbD i = false

/-- Shifting undoes a shift the other way that loses nothing. -/
theorem iterate_shiftStep_shiftLeft {n : ℕ} {x : BitVec w} (hn : n ≤ w)
    (hx : ClearFrom (w - n) x) : (shiftStep poly)^[n] (x <<< n) = x := by
  induction n with
  | zero => simp
  | succ n ih =>
    have hlast : (x <<< n).getLsbD (w - 1) = false := by
      have hclear := hx (w - 1 - n) (by omega)
      simp [hclear]
    rw [Function.iterate_succ_apply, BitVec.shiftLeft_add, shiftStep_shiftLeft hlast]
    exact ih (by omega) fun i hi => hx i (by omega)

def absorb (poly crc : BitVec w) (symbol : BitVec v) : BitVec w :=
  (shiftStep poly)^[v] (crc ^^^ symbol.setWidth w)

def pack : List (BitVec v) → BitVec w
  | [] => 0#w
  | symbol :: symbols => symbol.setWidth w ^^^ (pack symbols <<< v)

theorem pack_clearFrom (symbols : List (BitVec v)) :
    ClearFrom (v * symbols.length) (pack symbols : BitVec w) := by
  induction symbols with
  | nil =>
    intro i _
    simp [pack]
  | cons symbol symbols ih =>
    intro i hi
    rw [List.length_cons, Nat.mul_succ] at hi
    have hrest := ih (i - v) (by omega)
    have hsymbol : symbol.getLsbD i = false := BitVec.getLsbD_of_ge _ _ (by omega)
    simp [pack, hsymbol, hrest]

/-- While all symbols fit into the register side by side, taking them in one by
one is the same as taking in all of them and shifting afterwards. -/
theorem foldl_absorb {symbols : List (BitVec v)} (hfit : v * symbols.length ≤ w)
    (crc : BitVec w) : symbols.foldl (absorb poly) crc =
      (shiftStep poly)^[v * symbols.length] (crc ^^^ pack symbols) := by
  induction symbols generalizing crc with
  | nil => simp [pack]
  | cons symbol symbols ih =>
    rw [List.length_cons, Nat.mul_succ] at hfit
    have hclear : ClearFrom (w - v) (pack symbols : BitVec w) :=
      fun i hi => pack_clearFrom symbols i (by omega)
    calc (symbol :: symbols).foldl (absorb poly) crc
        = (shiftStep poly)^[v * symbols.length] (absorb poly crc symbol ^^^ pack symbols) := by
          rw [List.foldl_cons, ih (by omega)]
      _ = (shiftStep poly)^[v * symbols.length] ((shiftStep poly)^[v]
            ((crc ^^^ symbol.setWidth w) ^^^ (pack symbols <<< v))) := by
          rw [iterate_shiftStep_xor poly v, iterate_shiftStep_shiftLeft (by omega) hclear, absorb]
      _ = _ := by
          rw [← Function.iterate_add_apply, List.length_cons, Nat.mul_succ, pack, BitVec.xor_assoc]

theorem pack_injective {as bs : List (BitVec v)} (hlen : as.length = bs.length)
    (hfit : v * as.length ≤ w) (h : (pack as : BitVec w) = pack bs) : as = bs := by
  induction as generalizing bs with
  | nil => exact (List.length_eq_zero_iff.mp hlen.symm).symm
  | cons a as ih =>
    obtain ⟨b, bs, rfl⟩ : ∃ b bs', bs = b :: bs' := List.exists_cons_of_length_eq_add_one hlen.symm
    rw [List.length_cons, List.length_cons, Nat.add_right_cancel_iff] at hlen
    rw [List.length_cons, Nat.mul_succ] at hfit
    -- The first symbol is what the low bits hold.
    have hhead : a = b := by
      apply BitVec.eq_of_getLsbD_eq
      intro i hi
      have hbit := congrArg (fun x => x.getLsbD i) h
      have hiw : i < w := by omega
      simpa [pack, hi, hiw] using hbit
    subst hhead
    have hrest := (BitVec.xor_right_inj _).mp h
    have hclear (cs : List (BitVec v)) (hcs : cs.length = as.length) :
        ClearFrom (w - v) (pack cs : BitVec w) := by
      intro i hi
      exact pack_clearFrom cs i (by rw [hcs]; omega)
    -- Any register undoes the shift of the remaining ones.
    have hback (x : BitVec w) (hx : ClearFrom (w - v) x) :
        (shiftStep 0#w)^[v] (x <<< v) = x := iterate_shiftStep_shiftLeft (by omega) hx
    have hpack : (pack as : BitVec w) = pack bs := by
      rw [← hback _ (hclear as rfl), hrest, hback _ (hclear bs hlen.symm)]
    rw [ih hlen (by omega) hpack]

/-- From one register, strings of one length that fit into it side by side are
told apart. -/
theorem foldl_absorb_injective (hp : poly.msb = true) {as bs : List (BitVec v)}
    (hlen : as.length = bs.length) (hfit : v * as.length ≤ w) {crc : BitVec w}
    (h : as.foldl (absorb poly) crc = bs.foldl (absorb poly) crc) : as = bs := by
  rw [foldl_absorb hfit, foldl_absorb (hlen ▸ hfit), ← hlen] at h
  have hxor := (shiftStep_injective hp).iterate _ h
  exact pack_injective hlen hfit ((BitVec.xor_right_inj _).mp hxor)

theorem absorb_state_injective (hp : poly.msb = true) (symbol : BitVec v) :
    Function.Injective fun crc => absorb poly crc symbol := by
  intro a b h
  exact (BitVec.xor_left_inj _).mp ((shiftStep_injective hp).iterate v h)

/-- Messages that differ only within a stretch no longer than the register have
different checks. -/
theorem foldl_absorb_ne (hp : poly.msb = true) {front as bs back : List (BitVec v)}
    (hlen : as.length = bs.length) (hfit : v * as.length ≤ w) (hne : as ≠ bs) (crc : BitVec w) :
    (front ++ (as ++ back)).foldl (absorb poly) crc ≠
      (front ++ (bs ++ back)).foldl (absorb poly) crc := by
  intro h
  simp only [List.foldl_append] at h
  have hstretch := foldl_injective (absorb_state_injective hp) back h
  exact hne (foldl_absorb_injective hp hlen hfit hstretch)

end Bursts

end CyclicCheck
