import Mathlib

/-! Ordered finite maps seen through their lookups: when two ways to write a
binding agree, and sums over all bindings with how one insertion changes them.
The order of the keys never matters to a sum. -/
namespace OrderedMap

open Std

variable {κ υ : Type*} {cmp : κ → κ → Ordering} [TransCmp cmp] [LawfulEqCmp cmp]
variable {M : Type*} [AddCommMonoid M]

/-- Two spellings of a lookup after an insertion, for comparisons that decide
equality. -/
theorem getElem?_insert_eq (m : ExtTreeMap κ υ cmp) (k a : κ) (v : υ) [Decidable (a = k)] :
    (m.insert k v)[a]? = if a = k then some v else m[a]? := by
  rw [ExtTreeMap.getElem?_insert]
  by_cases h : a = k
  · subst h
    simp
  · rw [if_neg h, if_neg]
    exact fun he => h (LawfulEqCmp.eq_of_compare he).symm

omit [LawfulEqCmp cmp] in
/-- An insertion loses no key. -/
theorem exists_getElem?_insert {m : ExtTreeMap κ υ cmp} {a : κ} {w : υ} (h : m[a]? = some w)
    (k : κ) (v : υ) : ∃ u, (m.insert k v)[a]? = some u := by
  rw [ExtTreeMap.getElem?_insert]
  split_ifs
  · exact ⟨v, rfl⟩
  · exact ⟨w, h⟩

/-- Storing at a bound key. -/
theorem modify_const_eq_insert (m : ExtTreeMap κ υ cmp) (k : κ) (v w : υ) (hk : m[k]? = some w) :
    m.modify k (fun _ => v) = m.insert k v := by
  apply ExtTreeMap.ext_getElem?
  intro a
  rw [ExtTreeMap.getElem?_modify, ExtTreeMap.getElem?_insert]
  split_ifs with ha
  · rw [hk]
    rfl
  · rfl

/-- Inserting at a fresh key. -/
theorem insertIfNew_eq_insert (m : ExtTreeMap κ υ cmp) (k : κ) (v : υ) (hk : m[k]? = none) :
    m.insertIfNew k v = m.insert k v := by
  have hout : k ∉ m := by
    rw [ExtTreeMap.mem_iff_isSome_getElem?, hk]
    exact Bool.false_ne_true
  apply ExtTreeMap.ext_getElem?
  intro a
  rw [ExtTreeMap.getElem?_insertIfNew, ExtTreeMap.getElem?_insert]
  by_cases ha : cmp k a = .eq
  · simp [ha, hout]
  · simp [ha]

/-- A binding that a filter drops before and after an insertion leaves no trace. -/
theorem filter_insert_eq (m : ExtTreeMap κ υ cmp) (p : κ → υ → Bool) (k : κ) (v : υ)
    (hv : p k v = false) (hm : ∀ w, m[k]? = some w → p k w = false) :
    (m.insert k v).filter p = m.filter p := by
  apply ExtTreeMap.ext_getElem?
  intro a
  rw [ExtTreeMap.getElem?_filter', ExtTreeMap.getElem?_filter', ExtTreeMap.getElem?_insert]
  by_cases ha : cmp k a = .eq
  · obtain rfl := LawfulEqCmp.eq_of_compare ha
    have hold : m[k]?.filter (p k) = none := by
      cases hk : m[k]? with
      | none => rfl
      | some w => simp [hm w hk]
    rw [if_pos ha, hold]
    simp [hv]
  · rw [if_neg ha]

theorem toList_nodup (m : ExtTreeMap κ υ cmp) : m.toList.Nodup := by
  refine (ExtTreeMap.distinct_keys_toList (t := m)).imp ?_
  rintro a b hab rfl
  exact hab ReflCmp.compare_self

/-- A binding for a fresh key joins the list of bindings once. -/
theorem toList_insert_perm (m : ExtTreeMap κ υ cmp) (k : κ) (v : υ) (hk : k ∉ m) :
    (m.insert k v).toList.Perm ((k, v) :: m.toList) := by
  have hnone : m[k]? = none := ExtTreeMap.getElem?_eq_none hk
  have hfresh : (k, v) ∉ m.toList := by
    rw [ExtTreeMap.mem_toList_iff_getElem?_eq_some, hnone]
    exact nofun
  rw [List.perm_ext_iff_of_nodup (toList_nodup _) (List.nodup_cons.mpr ⟨hfresh, toList_nodup m⟩)]
  rintro ⟨a, b⟩
  rw [ExtTreeMap.mem_toList_iff_getElem?_eq_some, ExtTreeMap.getElem?_insert, List.mem_cons,
    ExtTreeMap.mem_toList_iff_getElem?_eq_some, Prod.mk.injEq]
  by_cases ha : k = a
  · subst ha
    simp [ReflCmp.compare_self, hnone, eq_comm]
  · simp [LawfulEqCmp.compare_eq_iff_eq, ha, Ne.symm ha]

def total (m : ExtTreeMap κ υ cmp) (f : κ → υ → M) : M :=
  (m.toList.map fun p => f p.1 p.2).sum

omit [LawfulEqCmp cmp] in
@[simp] theorem total_empty (f : κ → υ → M) : total (∅ : ExtTreeMap κ υ cmp) f = 0 := by
  have he : (∅ : ExtTreeMap κ υ cmp).toList = [] := ExtTreeMap.toList_eq_nil_iff.mpr rfl
  simp [total, he]

theorem total_insert_fresh (m : ExtTreeMap κ υ cmp) (f : κ → υ → M) (k : κ) (v : υ)
    (hk : k ∉ m) : total (m.insert k v) f = f k v + total m f := by
  have hp := (toList_insert_perm m k v hk).map fun p => f p.1 p.2
  simpa [total] using hp.sum_eq

/-- Replacing the value of a bound key trades one summand for another. -/
theorem total_insert_bound (m : ExtTreeMap κ υ cmp) (f : κ → υ → M) (k : κ) (v w : υ)
    (hk : m[k]? = some w) : total (m.insert k v) f + f k w = total m f + f k v := by
  have hout : k ∉ m.erase k := by simp
  -- Both maps are the one without the key and one binding more.
  have hback (u : υ) : (m.erase k).insert k u = m.insert k u := by
    apply ExtTreeMap.ext_getElem?
    intro a
    simp only [ExtTreeMap.getElem?_insert, ExtTreeMap.getElem?_erase]
    split_ifs <;> rfl
  have hsame : m.insert k w = m := by
    apply ExtTreeMap.ext_getElem?
    intro a
    rw [ExtTreeMap.getElem?_insert]
    split_ifs with ha
    · rw [← LawfulEqCmp.eq_of_compare ha, hk]
    · rfl
  have hv := total_insert_fresh (m.erase k) f k v hout
  have hw := total_insert_fresh (m.erase k) f k w hout
  rw [hback] at hv hw
  rw [hsame] at hw
  rw [hv, hw]
  abel

/-- One insertion, whether or not the key was bound. -/
theorem total_insert (m : ExtTreeMap κ υ cmp) (f : κ → υ → M) (k : κ) (v : υ) :
    total (m.insert k v) f + m[k]?.elim 0 (f k) = total m f + f k v := by
  cases hk : m[k]? with
  | none =>
    have hout : k ∉ m := by
      rw [ExtTreeMap.mem_iff_isSome_getElem?, hk]
      exact Bool.false_ne_true
    simp [total_insert_fresh m f k v hout, add_comm]
  | some w => exact total_insert_bound m f k v w hk

/-- The sum after an insertion, from what stood at the key before. -/
theorem total_insert_eq {G : Type*} [AddCommGroup G] (m : ExtTreeMap κ υ cmp) (f : κ → υ → G)
    (k : κ) (v : υ) (old : G) (ho : m[k]?.elim 0 (f k) = old) :
    total (m.insert k v) f = total m f + f k v - old := by
  rw [← total_insert m f k v, ho, add_sub_cancel_right]

/-- The sum after one value was updated in place. -/
theorem total_modify {G : Type*} [AddCommGroup G] (m : ExtTreeMap κ υ cmp) (f : κ → υ → G)
    (k : κ) (g : υ → υ) :
    total (m.modify k g) f = total m f + m[k]?.elim 0 fun v => f k (g v) - f k v := by
  cases hk : m[k]? with
  | none =>
    have hsame : m.modify k g = m := by
      apply ExtTreeMap.ext_getElem?
      intro a
      rw [ExtTreeMap.getElem?_modify]
      split_ifs with ha
      · rw [hk, ← LawfulEqCmp.eq_of_compare ha, hk]
        rfl
      · rfl
    rw [hsame, Option.elim_none, add_zero]
  | some v =>
    have hinsert : m.modify k g = m.insert k (g v) := by
      apply ExtTreeMap.ext_getElem?
      intro a
      rw [ExtTreeMap.getElem?_modify, ExtTreeMap.getElem?_insert, hk]
      rfl
    rw [hinsert, total_insert_eq m f k (g v) (f k v) (by rw [hk]; rfl), Option.elim_some,
      add_sub_assoc]

theorem total_congr (m : ExtTreeMap κ υ cmp) (f g : κ → υ → M)
    (h : ∀ k v, m[k]? = some v → f k v = g k v) : total m f = total m g := by
  unfold total
  congr 1
  apply List.map_congr_left
  rintro ⟨k, v⟩ hm
  exact h k v (ExtTreeMap.mem_toList_iff_getElem?_eq_some.mp hm)

/-- With no negative summand, one summand is at most the whole sum. -/
theorem single_le_total (m : ExtTreeMap κ υ cmp) (f : κ → υ → ℤ)
    (hn : ∀ k v, m[k]? = some v → 0 ≤ f k v) (k : κ) (v : υ) (hk : m[k]? = some v) :
    f k v ≤ total m f := by
  apply List.single_le_sum
  · intro x hx
    obtain ⟨⟨a, b⟩, hm, rfl⟩ := List.mem_map.mp hx
    exact hn a b (ExtTreeMap.mem_toList_iff_getElem?_eq_some.mp hm)
  · exact List.mem_map.mpr ⟨(k, v), ExtTreeMap.mem_toList_iff_getElem?_eq_some.mpr hk, rfl⟩

omit [LawfulEqCmp cmp] in
/-- A sum over selected values, written as a sum over all bindings. -/
theorem sum_filter_values (m : ExtTreeMap κ υ cmp) (p : υ → Bool) (g : υ → M) :
    (((m.toList.map Prod.snd).filter p).map g).sum =
      total m fun _ v => if p v then g v else 0 := by
  unfold total
  induction m.toList with
  | nil => rfl
  | cons q xs ih =>
    by_cases hq : p q.2 = true
    · simp [hq, ih]
    · simp [hq, ih]

end OrderedMap
