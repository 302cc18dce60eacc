import Mathlib

/-! Walks along a line with an end: step by step, until the steps are used up.
A walk that follows an order searches it, so that what it stops at is the first
element in that order with the property it looks for. -/

structure Walk (ε α : Type*) where
  step : α → Except ε α
  rank : α → ℕ
  rank_lt : ∀ {a b}, step a = .ok b → rank b < rank a

namespace Walk

variable {ε α : Type*}

def search (walk : Walk ε α) (stays found : α → Bool) (a : α) : Option α :=
  match _hstep : walk.step a with
  | .error _ => none
  | .ok b =>
    if stays b = false then none
    else if found b then some b
    else walk.search stays found b
termination_by walk.rank a
decreasing_by exact walk.rank_lt _hstep

def advance (walk : Walk ε α) (counted : α → Bool) (lag elapsed : ℕ) (a : α) : Except ε α :=
  if elapsed < lag then
    match h : walk.step a with
    | .error e => .error e
    | .ok b => walk.advance counted lag (if counted b then elapsed + 1 else elapsed) b
  else .ok a
termination_by walk.rank a
decreasing_by exact walk.rank_lt h

structure Follows (walk : Walk ε α) (later : α → α → Prop) : Prop where
  trans : ∀ {a b c}, later a b → later b c → later a c
  irrefl : ∀ a, ¬later a a
  step_ok : ∀ {a b}, walk.step a = .ok b → later a b ∧ ∀ c, later a c → c = b ∨ later b c
  step_error : ∀ {a e}, walk.step a = .error e → ∀ c, ¬later a c

def IsFirst (later : α → α → Prop) (p : α → Prop) (a b : α) : Prop :=
  later a b ∧ p b ∧ ∀ c, later a c → later c b → ¬p c

variable {walk : Walk ε α} {later : α → α → Prop} {stays found counted : α → Bool}

theorem search_error {a : α} {e : ε} (h : walk.step a = .error e) :
    walk.search stays found a = none := by
  rw [search]
  split
  · rfl
  · rename_i b hb
    rw [h] at hb
    contradiction

theorem search_ok {a b : α} (h : walk.step a = .ok b) : walk.search stays found a =
    if stays b = false then none
    else if found b then some b else walk.search stays found b := by
  rw [search]
  split
  · rename_i e he
    rw [h] at he
    contradiction
  · rename_i c hc
    rw [h] at hc
    obtain rfl := Except.ok.inj hc
    rfl

theorem advance_done {lag elapsed : ℕ} (h : lag ≤ elapsed) (a : α) :
    walk.advance counted lag elapsed a = .ok a := by
  rw [advance, if_neg (by omega)]

theorem advance_error {lag elapsed : ℕ} (hlag : elapsed < lag) {a : α} {e : ε}
    (h : walk.step a = .error e) : walk.advance counted lag elapsed a = .error e := by
  rw [advance, if_pos hlag]
  split
  · rename_i d hd
    rw [h] at hd
    rw [Except.error.inj hd]
  · rename_i b hb
    rw [h] at hb
    contradiction

theorem advance_ok {lag elapsed : ℕ} (hlag : elapsed < lag) {a b : α} (h : walk.step a = .ok b) :
    walk.advance counted lag elapsed a =
      walk.advance counted lag (if counted b then elapsed + 1 else elapsed) b := by
  rw [advance, if_pos hlag]
  split
  · rename_i d hd
    rw [h] at hd
    contradiction
  · rename_i c hc
    rw [h] at hc
    rw [Except.ok.inj hc]

/-- Induction along a walk, from its end. -/
theorem walk_induction {motive : α → Prop} (walk : Walk ε α)
    (stop : ∀ a e, walk.step a = .error e → motive a)
    (next : ∀ a b, walk.step a = .ok b → motive b → motive a) (a : α) : motive a := by
  induction hrank : walk.rank a using Nat.strong_induction_on generalizing a with
  | h n ih =>
    cases hstep : walk.step a with
    | error e => exact stop a e hstep
    | ok b => exact next a b hstep (ih _ (hrank ▸ walk.rank_lt hstep) b rfl)

theorem Follows.asymm (hw : walk.Follows later) {a b : α} (h : later a b) : ¬later b a :=
  fun h' => hw.irrefl a (hw.trans h h')

/-- Nothing lies between an element and the next one. -/
theorem Follows.not_between (hw : walk.Follows later) {a b c : α} (hstep : walk.step a = .ok b)
    (hac : later a c) : ¬later c b := by
  rcases (hw.step_ok hstep).2 c hac with rfl | hbc
  · exact hw.irrefl c
  · exact hw.asymm hbc

/-- The next element is the first one, if it has the property. -/
theorem Follows.isFirst_next (hw : walk.Follows later) {p : α → Prop} {a b : α}
    (hstep : walk.step a = .ok b) (hp : p b) {c : α} : IsFirst later p a c ↔ c = b := by
  have hab := (hw.step_ok hstep).1
  constructor
  · rintro ⟨hac, hc, hnone⟩
    rcases (hw.step_ok hstep).2 c hac with rfl | hbc
    · rfl
    · exact absurd hp (hnone b hab hbc)
  · rintro rfl
    exact ⟨hab, hp, fun d had hdc => absurd hdc (hw.not_between hstep had)⟩

/-- Otherwise the first element is the same from the next one on. -/
theorem Follows.isFirst_skip (hw : walk.Follows later) {p : α → Prop} {a b : α}
    (hstep : walk.step a = .ok b) (hp : ¬p b) {c : α} :
    IsFirst later p a c ↔ IsFirst later p b c := by
  obtain ⟨hab, hcover⟩ := hw.step_ok hstep
  constructor
  · rintro ⟨hac, hc, hnone⟩
    rcases hcover c hac with rfl | hbc
    · exact absurd hc hp
    · exact ⟨hbc, hc, fun d hbd hdc => hnone d (hw.trans hab hbd) hdc⟩
  · rintro ⟨hbc, hc, hnone⟩
    refine ⟨hw.trans hab hbc, hc, ?_⟩
    intro d had hdc
    rcases hcover d had with rfl | hbd
    · exact hp
    · exact hnone d hbd hdc

/-- A search finds the first later element with its property, if all elements up
to it stay in bounds. -/
theorem Follows.search_eq_some_iff (hw : walk.Follows later) {a b : α} :
    walk.search stays found a = some b ↔ IsFirst later (fun c => found c = true) a b ∧
      ∀ c, later a c → (c = b ∨ later c b) → stays c = true := by
  induction a using walk_induction walk with
  | stop a e hstep =>
    rw [search_error hstep]
    refine ⟨nofun, ?_⟩
    rintro ⟨⟨hlater, _⟩, _⟩
    exact absurd hlater (hw.step_error hstep b)
  | next a c hstep ih =>
    obtain ⟨hac, hcover⟩ := hw.step_ok hstep
    rw [search_ok hstep]
    split_ifs with hstays hfound
    · refine ⟨nofun, ?_⟩
      rintro ⟨⟨hab, _⟩, hall⟩
      -- The next element is out of bounds, and no later one is found without it.
      have hc := hall c hac ((hcover b hab).imp Eq.symm id)
      rw [hstays] at hc
      contradiction
    · rw [hw.isFirst_next hstep hfound, Option.some.injEq]
      constructor
      · rintro rfl
        refine ⟨rfl, ?_⟩
        rintro d had (rfl | hdc)
        · exact Bool.eq_true_of_not_eq_false hstays
        · exact absurd hdc (hw.not_between hstep had)
      · exact fun h => h.1.symm
    · rw [ih, ← hw.isFirst_skip hstep hfound]
      refine and_congr_right fun hfirst => ⟨?_, ?_⟩
      · intro hall d had hdb
        rcases hcover d had with rfl | hcd
        · exact Bool.eq_true_of_not_eq_false hstays
        · exact hall d hcd hdb
      · exact fun hall d hcd hdb => hall d (hw.trans hac hcd) hdb

/-- A search fails when every element with its property lies behind one that is
out of bounds. -/
theorem Follows.search_eq_none_iff (hw : walk.Follows later) {a : α} :
    walk.search stays found a = none ↔ ∀ b, later a b → found b = true →
      ∃ c, later a c ∧ (c = b ∨ later c b) ∧ stays c = false := by
  induction a using walk_induction walk with
  | stop a e hstep =>
    rw [search_error hstep]
    exact ⟨fun _ b hab => absurd hab (hw.step_error hstep b), fun _ => rfl⟩
  | next a c hstep ih =>
    obtain ⟨hac, hcover⟩ := hw.step_ok hstep
    rw [search_ok hstep]
    split_ifs with hstays hfound
    · exact ⟨fun _ b hab _ => ⟨c, hac, (hcover b hab).imp Eq.symm id, hstays⟩, fun _ => rfl⟩
    · refine ⟨nofun, ?_⟩
      intro h
      obtain ⟨d, had, hdc, hd⟩ := h c hac hfound
      rcases hdc with rfl | hdc
      · exact absurd hd hstays
      · exact absurd hdc (hw.not_between hstep had)
    · rw [ih]
      constructor
      · intro h b hab hb
        rcases hcover b hab with rfl | hcb
        · exact absurd hb hfound
        · obtain ⟨d, hcd, hdb, hd⟩ := h b hcb hb
          exact ⟨d, hw.trans hac hcd, hdb, hd⟩
      · intro h b hcb hb
        obtain ⟨d, had, hdb, hd⟩ := h b (hw.trans hac hcb) hb
        rcases hcover d had with rfl | hcd
        · exact absurd hd hstays
        · exact ⟨d, hcd, hdb, hd⟩

section Bounds

variable {a : α} {bound : α → Prop}

/-- Where staying in bounds up to an element says that the element is within a
bound, a search finds the first element within that bound. -/
theorem Follows.search_within_eq_some_iff (hw : walk.Follows later)
    (hbound : ∀ b, later a b →
      ((∀ c, later a c → (c = b ∨ later c b) → stays c = true) ↔ bound b)) {b : α} :
    walk.search stays found a = some b ↔
      IsFirst later (fun c => bound c ∧ found c = true) a b := by
  rw [hw.search_eq_some_iff]
  constructor
  · rintro ⟨⟨hab, hb, hnone⟩, hstays⟩
    exact ⟨hab, ⟨(hbound b hab).mp hstays, hb⟩, fun c hac hcb hc => hnone c hac hcb hc.2⟩
  · rintro ⟨hab, ⟨hin, hb⟩, hnone⟩
    have hstays := (hbound b hab).mpr hin
    refine ⟨⟨hab, hb, ?_⟩, hstays⟩
    intro c hac hcb hc
    -- What is between is within the bound as well.
    refine hnone c hac hcb ⟨(hbound c hac).mp ?_, hc⟩
    rintro d had (rfl | hdc)
    · exact hstays d hac (.inr hcb)
    · exact hstays d had (.inr (hw.trans hdc hcb))

theorem Follows.search_within_eq_none_iff (hw : walk.Follows later)
    (hbound : ∀ b, later a b →
      ((∀ c, later a c → (c = b ∨ later c b) → stays c = true) ↔ bound b)) :
    walk.search stays found a = none ↔ ∀ b, later a b → bound b → ¬found b = true := by
  constructor
  · intro h b hab hin hb
    obtain ⟨c, hac, hcb, hc⟩ := hw.search_eq_none_iff.mp h b hab hb
    rw [(hbound b hab).mpr hin c hac hcb] at hc
    contradiction
  · intro h
    cases hsearch : walk.search stays found a with
    | none => rfl
    | some b =>
      obtain ⟨hab, ⟨hin, hb⟩, _⟩ := (hw.search_within_eq_some_iff hbound).mp hsearch
      exact absurd hb (h b hab hin)

end Bounds

/-- Where a later element has a property, there is a first one that has it. -/
theorem Follows.exists_isFirst (hw : walk.Follows later) {p : α → Prop} {a b : α}
    (hab : later a b) (hb : p b) : ∃ c, IsFirst later p a c := by
  classical
  cases hsearch : walk.search (fun _ => true) (fun c => decide (p c)) a with
  | none =>
    obtain ⟨_, _, _, hstays⟩ := hw.search_eq_none_iff.mp hsearch b hab (decide_eq_true hb)
    contradiction
  | some c =>
    obtain ⟨⟨hac, hc, hnone⟩, _⟩ := hw.search_eq_some_iff.mp hsearch
    refine ⟨c, hac, of_decide_eq_true hc, ?_⟩
    exact fun d had hdc hd => hnone d had hdc (decide_eq_true hd)

/-- Passing one more element is walking to the first one and going on from it. -/
theorem Follows.advance_eq_ok_iff (hw : walk.Follows later) {lag elapsed : ℕ}
    (hlag : elapsed < lag) {a b : α} : walk.advance counted lag elapsed a = .ok b ↔
      ∃ c, IsFirst later (fun d => counted d = true) a c ∧
        walk.advance counted lag (elapsed + 1) c = .ok b := by
  induction a using walk_induction walk with
  | stop a e hstep =>
    rw [advance_error hlag hstep]
    refine ⟨nofun, ?_⟩
    rintro ⟨c, ⟨hac, _⟩, _⟩
    exact absurd hac (hw.step_error hstep c)
  | next a c hstep ih =>
    rw [advance_ok hlag hstep]
    by_cases hcounted : counted c = true
    · simp only [hw.isFirst_next (p := fun d => counted d = true) hstep hcounted, if_pos hcounted,
        exists_eq_left]
    · simp only [hw.isFirst_skip (p := fun d => counted d = true) hstep hcounted]
      rw [if_neg hcounted]
      exact ih

/-- An advance fails with the error of a step that has no next element. -/
theorem advance_eq_error {lag elapsed : ℕ} {a : α} {e : ε}
    (h : walk.advance counted lag elapsed a = .error e) : ∃ b, walk.step b = .error e := by
  induction a using walk_induction walk generalizing elapsed with
  | stop a d hstep =>
    by_cases hlag : elapsed < lag
    · rw [advance_error hlag hstep] at h
      exact ⟨a, hstep.trans h⟩
    · rw [advance_done (not_lt.mp hlag)] at h
      contradiction
  | next a c hstep ih =>
    by_cases hlag : elapsed < lag
    · rw [advance_ok hlag hstep] at h
      exact ih h
    · rw [advance_done (not_lt.mp hlag)] at h
      contradiction

section Least

variable {β : Type*} [LinearOrder β] {p : β → Prop} {a b c : β}

def IsSecondLeast (s : Set β) (b : β) : Prop := ∃ a, IsLeast s a ∧ IsLeast (s \ {a}) b

theorem isFirst_lt_iff : IsFirst (· < ·) p a b ↔ IsLeast {c | a < c ∧ p c} b := by
  constructor
  · rintro ⟨hab, hb, hnone⟩
    exact ⟨⟨hab, hb⟩, fun c hc => not_lt.mp fun hlt => hnone c hc.1 hlt hc.2⟩
  · rintro ⟨⟨hab, hb⟩, hleast⟩
    exact ⟨hab, hb, fun c hac hcb hc => absurd hcb (not_lt.mpr (hleast ⟨hac, hc⟩))⟩

theorem isFirst_gt_iff : IsFirst (· > ·) p a b ↔ IsGreatest {c | c < a ∧ p c} b := by
  constructor
  · rintro ⟨hba, hb, hnone⟩
    exact ⟨⟨hba, hb⟩, fun c hc => not_lt.mp fun hlt => hnone c hc.1 hlt hc.2⟩
  · rintro ⟨⟨hba, hb⟩, hgreatest⟩
    exact ⟨hba, hb, fun c hca hbc hc => absurd hbc (not_lt.mpr (hgreatest ⟨hca, hc⟩))⟩

/-- The second one is the first one after the first one. -/
theorem isSecondLeast_iff : IsSecondLeast {c | a < c ∧ p c} b ↔
    ∃ c, IsFirst (· < ·) p a c ∧ IsFirst (· < ·) p c b := by
  have hrest (c : β) (hc : IsLeast {d | a < d ∧ p d} c) :
      {d | a < d ∧ p d} \ {c} = {d | c < d ∧ p d} := by
    ext d
    constructor
    · rintro ⟨hd, hne⟩
      exact ⟨lt_of_le_of_ne (hc.2 hd) fun h => hne h.symm, hd.2⟩
    · rintro ⟨hcd, hd⟩
      exact ⟨⟨hc.1.1.trans hcd, hd⟩, hcd.ne'⟩
  constructor
  · rintro ⟨c, hc, hb⟩
    rw [hrest c hc] at hb
    exact ⟨c, isFirst_lt_iff.mpr hc, isFirst_lt_iff.mpr hb⟩
  · rintro ⟨c, hc, hb⟩
    have hleast := isFirst_lt_iff.mp hc
    refine ⟨c, hleast, ?_⟩
    rw [hrest c hleast]
    exact isFirst_lt_iff.mp hb

/-- A smaller set has no smaller second element. -/
theorem IsSecondLeast.mono {s t : Set β} (h : t ⊆ s) (ha : IsSecondLeast s a)
    (hb : IsSecondLeast t b) : a ≤ b := by
  obtain ⟨c, hc, ha⟩ := ha
  obtain ⟨d, hd, hb⟩ := hb
  have hdb : d < b := lt_of_le_of_ne (hd.2 hb.1.1) fun heq => hb.1.2 heq.symm
  exact ha.2 ⟨h hb.1.1, ((hc.2 (h hd.1)).trans_lt hdb).ne'⟩

end Least

end Walk
