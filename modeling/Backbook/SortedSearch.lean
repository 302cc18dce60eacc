import Mathlib

namespace SortedSearch

variable {α : Type*} [LinearOrder α]

def lowerBound (xs : List α) (key : α) (first length : ℕ) : ℕ :=
  if length = 0 then first
  else
    let half := length / 2
    match xs[first + half]? with
    | none => first
    | some x =>
      if x < key then lowerBound xs key (first + half + 1) (length - half - 1)
      else lowerBound xs key first half
termination_by length

def binarySearch (xs : List α) (key : α) : Bool :=
  match xs[lowerBound xs key 0 xs.length]? with
  | none => false
  | some x => !decide (key < x)

structure Separates (xs : List α) (key : α) (position : ℕ) : Prop where
  below : ∀ i x, i < position → xs[i]? = some x → x < key
  above : ∀ i x, position ≤ i → xs[i]? = some x → key ≤ x

theorem getElem?_le {xs : List α} (hs : xs.Pairwise (· ≤ ·)) {i j : ℕ} {x y : α} (hij : i ≤ j)
    (hx : xs[i]? = some x) (hy : xs[j]? = some y) : x ≤ y := by
  obtain ⟨hi, rfl⟩ := List.getElem?_eq_some_iff.mp hx
  obtain ⟨hj, rfl⟩ := List.getElem?_eq_some_iff.mp hy
  rcases hij.eq_or_lt with rfl | hlt
  · exact le_rfl
  · exact List.pairwise_iff_getElem.mp hs i j hi hj hlt

/-- Each round keeps what lies before the range below the key, and what lies
behind it not below. -/
theorem lowerBound_separates {xs : List α} (hs : xs.Pairwise (· ≤ ·)) {key : α}
    {first length : ℕ} (hrange : first + length ≤ xs.length)
    (hbelow : ∀ i x, i < first → xs[i]? = some x → x < key)
    (habove : ∀ i x, first + length ≤ i → xs[i]? = some x → key ≤ x) :
    Separates xs key (lowerBound xs key first length) := by
  induction length using Nat.strong_induction_on generalizing first with
  | h length ih =>
    rw [lowerBound]
    split_ifs with hzero
    · subst hzero
      exact ⟨hbelow, habove⟩
    · have hhalf : first + length / 2 < xs.length := by omega
      have hmiddle := List.getElem?_eq_getElem hhalf
      simp only [hmiddle]
      split_ifs with hlt
      · -- The middle is below the key, and so is all before it.
        refine ih _ (by omega) (by omega) ?_ ?_
        · intro i x hi hx
          exact (getElem?_le hs (by omega) hx hmiddle).trans_lt hlt
        · intro i x hi hx
          exact habove i x (by omega) hx
      · -- Nothing from the middle on is below the key.
        refine ih _ (by omega) (by omega) hbelow ?_
        intro i x hi hx
        exact (not_lt.mp hlt).trans (getElem?_le hs hi hmiddle hx)

/-- On a sorted list, binary search decides membership. -/
theorem binarySearch_iff {xs : List α} (hs : xs.Pairwise (· ≤ ·)) {key : α} :
    binarySearch xs key = true ↔ key ∈ xs := by
  have hsep : Separates xs key (lowerBound xs key 0 xs.length) := by
    apply lowerBound_separates hs (by omega)
    · intro i x hi _
      exact absurd hi (Nat.not_lt_zero i)
    · intro i x hi hx
      rw [List.getElem?_eq_none (by omega)] at hx
      contradiction
  unfold binarySearch
  constructor
  · intro h
    split at h
    · contradiction
    · rename_i x hx
      have hge := hsep.above _ x le_rfl hx
      have hle : x ≤ key := by simpa using h
      rw [le_antisymm hge hle]
      exact List.mem_of_getElem? hx
  · intro hmem
    obtain ⟨i, hi⟩ := List.getElem?_of_mem hmem
    -- The key itself cannot lie before the position, so the element there is not above it.
    have hpos : lowerBound xs key 0 xs.length ≤ i := by
      by_contra hlt
      exact lt_irrefl _ (hsep.below i key (not_le.mp hlt) hi)
    have hlength := (List.getElem?_eq_some_iff.mp hi).1
    have hsome := List.getElem?_eq_getElem (hpos.trans_lt hlength)
    rw [hsome]
    simpa using getElem?_le hs hpos hsome hi

/-- A sorted list ends with its greatest element. -/
theorem getLast?_eq_some_iff {xs : List α} (hs : xs.Pairwise (· ≤ ·)) {x : α} :
    xs.getLast? = some x ↔ IsGreatest {y | y ∈ xs} x := by
  have hgreatest : ∀ y, xs.getLast? = some y → IsGreatest {y | y ∈ xs} y := by
    intro y hlast
    obtain ⟨front, rfl⟩ := List.getLast?_eq_some_iff.mp hlast
    have hbelow := (List.pairwise_append.mp hs).2.2
    refine ⟨by simp, ?_⟩
    intro z hz
    rcases List.mem_append.mp hz with hfront | hend
    · exact hbelow z hfront y List.mem_cons_self
    · exact (List.mem_singleton.mp hend).le
  refine ⟨hgreatest x, ?_⟩
  intro hx
  have hlast := List.getLast?_eq_some_getLast (List.ne_nil_of_mem hx.1)
  rw [hlast, (hgreatest _ hlast).unique hx]

end SortedSearch
