import Backbook.OrderedMaps

namespace KeyedMap

open Std

variable {κ υ : Type*} {cmp : κ → κ → Ordering} [TransCmp cmp] [LawfulEqCmp cmp] [DecidableEq υ]

def Carries (m : ExtTreeMap κ υ cmp) (key : υ → κ) : Prop :=
  ∀ (k : κ) (v : υ), m[k]? = some v → key v = k

def values (m : ExtTreeMap κ υ cmp) : Finset υ := (m.toList.map Prod.snd).toFinset

variable {m n : ExtTreeMap κ υ cmp} {key : υ → κ} {k : κ} {v w : υ}

theorem mem_values : v ∈ values m ↔ ∃ k : κ, m[k]? = some v := by
  simp only [values, List.mem_toFinset, List.mem_map, Prod.exists, exists_eq_right,
    ExtTreeMap.mem_toList_iff_getElem?_eq_some]

theorem mem_values_of_getElem? (h : m[k]? = some v) : v ∈ values m := mem_values.mpr ⟨k, h⟩

theorem Carries.mem_values (h : Carries m key) : v ∈ values m ↔ m[key v]? = some v := by
  rw [KeyedMap.mem_values]
  constructor
  · intro hv
    obtain ⟨k, hk⟩ := hv
    rwa [h k v hk]
  · intro hv
    exact ⟨key v, hv⟩

/-- No two members carry one key. -/
theorem Carries.eq_of_key_eq (h : Carries m key) (hv : v ∈ values m) (hw : w ∈ values m)
    (he : key v = key w) : v = w := by
  rw [h.mem_values] at hv hw
  rw [he, hw] at hv
  exact (Option.some.inj hv).symm

/-- A sum over the members is a sum over the bindings. -/
theorem Carries.sum_values {M : Type*} [AddCommMonoid M] (h : Carries m key) (f : υ → M) :
    ∑ v ∈ values m, f v = OrderedMap.total m fun _ v => f v := by
  have hnodup : (m.toList.map Prod.snd).Nodup := by
    refine (OrderedMap.toList_nodup m).map_on ?_
    intro p hp q hq he
    have hkp := h p.1 p.2 (ExtTreeMap.mem_toList_iff_getElem?_eq_some.mp hp)
    have hkq := h q.1 q.2 (ExtTreeMap.mem_toList_iff_getElem?_eq_some.mp hq)
    exact Prod.ext (by rw [← hkp, ← hkq, he]) he
  rw [values, List.sum_toFinset f hnodup, List.map_map]
  rfl

theorem values_insert_fresh (hk : m[k]? = none) : values (m.insert k v) = insert v (values m) := by
  ext w
  simp only [mem_values, Finset.mem_insert]
  constructor
  · intro hw
    obtain ⟨a, ha⟩ := hw
    rw [ExtTreeMap.getElem?_insert] at ha
    split_ifs at ha with hka
    · exact Or.inl (Option.some.inj ha).symm
    · exact Or.inr ⟨a, ha⟩
  · intro hw
    rcases hw with rfl | ⟨a, ha⟩
    · exact ⟨k, by simp⟩
    · refine ⟨a, ?_⟩
      rw [ExtTreeMap.getElem?_insert, if_neg]
      · exact ha
      · intro hka
        rw [LawfulEqCmp.eq_of_compare hka, ha] at hk
        cases hk

/-- A write over a binding takes the old value out and puts the new one in. -/
theorem Carries.values_insert (h : Carries m key) (hk : m[k]? = some w) :
    values (m.insert k v) = insert v ((values m).erase w) := by
  ext u
  simp only [KeyedMap.mem_values, Finset.mem_insert, Finset.mem_erase]
  constructor
  · intro hu
    obtain ⟨a, ha⟩ := hu
    rw [ExtTreeMap.getElem?_insert] at ha
    split_ifs at ha with hka
    · exact Or.inl (Option.some.inj ha).symm
    · refine Or.inr ⟨?_, a, ha⟩
      -- The old value stands under one key only, and this is another one.
      intro huw
      apply hka
      rw [← h a u ha, huw, h k w hk]
      exact ReflCmp.compare_self
  · intro hu
    rcases hu with rfl | ⟨hne, a, ha⟩
    · exact ⟨k, by simp⟩
    · refine ⟨a, ?_⟩
      rw [ExtTreeMap.getElem?_insert, if_neg]
      · exact ha
      · intro hka
        rw [← LawfulEqCmp.eq_of_compare hka, hk] at ha
        exact hne (Option.some.inj ha).symm

theorem values_map (f : υ → υ) : values (m.map fun _ v => f v) = (values m).image f := by
  ext v
  simp only [mem_values, Finset.mem_image, ExtTreeMap.getElem?_map, Option.map_eq_some_iff]
  constructor
  · intro hv
    obtain ⟨k, w, hw, he⟩ := hv
    exact ⟨w, ⟨k, hw⟩, he⟩
  · intro hv
    obtain ⟨w, ⟨k, hw⟩, he⟩ := hv
    exact ⟨k, w, hw, he⟩

/-- Maps with the same members are the same map. -/
theorem Carries.ext (hm : Carries m key) (hn : Carries n key) (h : values m = values n) :
    m = n := by
  have hhalf {a b : ExtTreeMap κ υ cmp} (ha : Carries a key) (hb : Carries b key)
      (hab : values a = values b) {k : κ} {v : υ} (hk : a[k]? = some v) : b[k]? = some v := by
    have hv : v ∈ values b := by
      rw [← hab]
      exact mem_values_of_getElem? hk
    have hkey := hb.mem_values.mp hv
    rwa [ha k v hk] at hkey
  apply ExtTreeMap.ext_getElem?
  intro k
  cases hk : m[k]? with
  | none =>
    rw [eq_comm, Option.eq_none_iff_forall_not_mem]
    intro v hv
    rw [hhalf hn hm h.symm hv] at hk
    cases hk
  | some v => exact (hhalf hm hn h hk).symm

end KeyedMap
