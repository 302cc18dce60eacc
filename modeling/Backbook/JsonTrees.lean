import Mathlib

namespace JsonTree

open Std

inductive Value (τ : Type)
  | null
  | boolean (value : Bool)
  | numberInteger (value : ℤ)
  | numberUnsigned (value : ℕ)
  | numberFloat (bits : BitVec 64)
  | string (text : τ)
  | array (elements : List (Value τ))
  | object (members : List (τ × Value τ))

variable {τ : Type} [Ord τ]

def Ascending (members : List (τ × Value τ)) : Prop :=
  members.Pairwise fun a b => compare a.1 b.1 = .lt

inductive Value.Sorted : Value τ → Prop
  | null : Sorted .null
  | boolean (value : Bool) : Sorted (.boolean value)
  | numberInteger (value : ℤ) : Sorted (.numberInteger value)
  | numberUnsigned (value : ℕ) : Sorted (.numberUnsigned value)
  | numberFloat (bits : BitVec 64) : Sorted (.numberFloat bits)
  | string (text : τ) : Sorted (.string text)
  | array {elements : List (Value τ)} (he : ∀ v ∈ elements, Sorted v) : Sorted (.array elements)
  | object {members : List (τ × Value τ)} (ha : Ascending members)
      (hm : ∀ m ∈ members, Sorted m.2) : Sorted (.object members)

def Value.isObject : Value τ → Bool
  | .object _ => true
  | _ => false

def Value.members : Value τ → List (τ × Value τ)
  | .object members => members
  | _ => []

theorem Value.Sorted.ascending {value : Value τ} (h : value.Sorted) : Ascending value.members := by
  cases h with
  | object ha _ => exact ha
  | _ => exact List.Pairwise.nil

theorem Value.Sorted.member {value : Value τ} (h : value.Sorted) {m : τ × Value τ}
    (hm : m ∈ value.members) : m.2.Sorted := by
  cases h with
  | object _ hs => exact hs m hm
  | _ => exact absurd hm List.not_mem_nil

section Lookups

variable [TransOrd τ]

theorem Ascending.nodup {members : List (τ × Value τ)} (h : Ascending members) :
    members.Nodup := by
  refine h.imp fun hlt heq => ?_
  rw [heq] at hlt
  exact OrientedCmp.not_lt_of_lt hlt hlt

variable [DecidableEq τ]

/-- In an ascending list the lookup finds each member. -/
theorem Ascending.lookup_eq_some_iff {members : List (τ × Value τ)} (h : Ascending members)
    {name : τ} {v : Value τ} : members.lookup name = some v ↔ (name, v) ∈ members := by
  rw [List.lookup_eq_some_iff]
  constructor
  · rintro ⟨front, back, rfl, -⟩
    simp
  · intro hm
    obtain ⟨front, back, rfl⟩ := List.append_of_mem hm
    refine ⟨front, back, rfl, fun m hfront => ?_⟩
    have hlt : compare m.1 name = .lt :=
      (List.pairwise_append.mp h).2.2 m hfront (name, v) List.mem_cons_self
    rw [bne_iff_ne]
    rintro rfl
    exact OrientedCmp.not_lt_of_lt hlt hlt

/-- Ascending lists are equal when they answer every lookup alike. -/
theorem Ascending.ext {as bs : List (τ × Value τ)} (ha : Ascending as) (hb : Ascending bs)
    (h : ∀ name, as.lookup name = bs.lookup name) : as = bs := by
  have hperm : as.Perm bs := by
    rw [List.perm_ext_iff_of_nodup ha.nodup hb.nodup]
    rintro ⟨name, v⟩
    rw [← ha.lookup_eq_some_iff, h, hb.lookup_eq_some_iff]
  -- No two members come before each other.
  have hasymm : ∀ a b : τ × Value τ, compare a.1 b.1 = .lt → ¬compare b.1 a.1 = .lt :=
    fun _ _ hab => OrientedCmp.not_lt_of_lt hab
  exact hperm.eq_of_pairwise (fun a b _ _ hab hba => absurd hba (hasymm a b hab)) ha hb

def Value.find (value : Value τ) (name : τ) : Option (Value τ) := value.members.lookup name

theorem Value.Sorted.find {value v : Value τ} (h : value.Sorted) {name : τ}
    (hv : value.find name = some v) : v.Sorted :=
  h.member (h.ascending.lookup_eq_some_iff.mp hv)

end Lookups

def NameOrder (a b : τ × Value τ) : Prop := (compare a.1 b.1).isLE

instance : DecidableRel (NameOrder (τ := τ)) :=
  fun _ _ => inferInstanceAs (Decidable (_ = true))

def ofTable (table : List (τ × Option (Value τ))) : Value τ :=
  .object ((table.filterMap fun m => m.2.map (m.1, ·)).insertionSort NameOrder)

theorem mem_members_ofTable {table : List (τ × Option (Value τ))} {name : τ} {v : Value τ} :
    (name, v) ∈ (ofTable table).members ↔ (name, some v) ∈ table := by
  change (name, v) ∈ List.insertionSort NameOrder _ ↔ _
  rw [List.mem_insertionSort, List.mem_filterMap]
  constructor
  · rintro ⟨⟨name', v'⟩, hm, heq⟩
    obtain ⟨w, rfl, hw⟩ := Option.map_eq_some_iff.mp heq
    obtain ⟨rfl, rfl⟩ := Prod.mk.inj hw
    exact hm
  · exact fun hm => ⟨(name, some v), hm, rfl⟩

section Tables

variable [TransOrd τ] [LawfulEqOrd τ]

instance : IsTrans (τ × Value τ) NameOrder := ⟨fun _ _ _ => TransCmp.isLE_trans⟩

instance : Std.Total (NameOrder (τ := τ)) :=
  ⟨fun a b => by
    have hswap : compare b.1 a.1 = (compare a.1 b.1).swap := OrientedCmp.eq_swap
    unfold NameOrder
    rw [hswap]
    cases compare a.1 b.1 <;> simp⟩

variable {table : List (τ × Option (Value τ))}

theorem ascending_ofTable (hn : (table.map Prod.fst).Nodup) :
    Ascending (ofTable table).members := by
  have hsorted : ((ofTable table).members).Pairwise NameOrder := List.pairwise_insertionSort _ _
  have hdistinct : ((ofTable table).members).Pairwise fun a b => a.1 ≠ b.1 := by
    have hfilter : (table.filterMap fun m => m.2.map (m.1, ·)).Pairwise fun a b => a.1 ≠ b.1 := by
      rw [List.pairwise_filterMap]
      refine (List.pairwise_map.mp hn).imp fun hne x hx y hy => ?_
      obtain ⟨_, -, rfl⟩ := Option.map_eq_some_iff.mp hx
      obtain ⟨_, -, rfl⟩ := Option.map_eq_some_iff.mp hy
      exact hne
    exact (List.perm_insertionSort NameOrder _).symm.pairwise hfilter fun h => h.symm
  refine (hsorted.and hdistinct).imp fun {a b} h => ?_
  obtain ⟨hle, hne⟩ := h
  unfold NameOrder at hle
  cases hc : compare a.1 b.1 with
  | lt => rfl
  | eq => exact absurd (LawfulEqCmp.eq_of_compare hc) hne
  | gt =>
    rw [hc] at hle
    contradiction

theorem sorted_ofTable (hn : (table.map Prod.fst).Nodup)
    (hv : ∀ m ∈ table, ∀ v ∈ m.2, v.Sorted) : (ofTable table).Sorted := by
  apply Value.Sorted.object (ascending_ofTable hn)
  intro m hm
  exact hv _ (mem_members_ofTable.mp hm) m.2 rfl

variable [DecidableEq τ]

theorem find_ofTable (hn : (table.map Prod.fst).Nodup) {m : τ × Option (Value τ)}
    (hm : m ∈ table) : (ofTable table).find m.1 = m.2 := by
  have ha := ascending_ofTable hn
  cases hv : m.2 with
  | some v =>
    apply ha.lookup_eq_some_iff.mpr
    rw [mem_members_ofTable, ← hv]
    exact hm
  | none =>
    rw [Option.eq_none_iff_forall_ne_some]
    intro v hfind
    have hmem := mem_members_ofTable.mp (ha.lookup_eq_some_iff.mp hfind)
    have heq := congrArg Prod.snd (List.inj_on_of_nodup_map hn hmem hm rfl)
    rw [hv] at heq
    exact Option.some_ne_none v heq

/-- Tables of the same names are told apart by their objects. -/
theorem ofTable_inj {other : List (τ × Option (Value τ))} (hn : (table.map Prod.fst).Nodup)
    (hnames : table.map Prod.fst = other.map Prod.fst) :
    ofTable table = ofTable other ↔ table = other := by
  constructor
  · intro h
    have hlength : table.length = other.length := by
      simpa only [List.length_map] using congrArg List.length hnames
    apply List.ext_getElem hlength
    intro i hi hi'
    have hname : table[i].1 = other[i].1 := by
      have hmap := List.getElem_of_eq hnames (i := i) (by simpa using hi)
      simpa only [List.getElem_map] using hmap
    -- Both values are what the one object has under the name.
    have hfind : (ofTable table).find table[i].1 = table[i].2 :=
      find_ofTable hn (List.getElem_mem hi)
    have hfind' : (ofTable other).find other[i].1 = other[i].2 :=
      find_ofTable (hnames ▸ hn) (List.getElem_mem hi')
    rw [h, hname, hfind'] at hfind
    exact Prod.ext hname hfind.symm
  · rintro rfl
    rfl

/-- A record is told by its object when it is told by its table of members. -/
theorem ofTable_injective {α : Type*} (tableOf : α → List (τ × Option (Value τ)))
    (hn : ∀ a, ((tableOf a).map Prod.fst).Nodup)
    (hnames : ∀ a b, (tableOf a).map Prod.fst = (tableOf b).map Prod.fst)
    (h : Function.Injective tableOf) : Function.Injective fun a => ofTable (tableOf a) := by
  intro a b hab
  apply h
  exact (ofTable_inj (hn a) (hnames a b)).mp hab

/-- An object is the object of a table when it has no other names than the table
and agrees with it on each of them. -/
theorem eq_ofTable_iff (hn : (table.map Prod.fst).Nodup) {value : Value τ} (hs : value.Sorted) :
    value = ofTable table ↔ (value.isObject = true ∧
      ∀ m ∈ value.members, m.1 ∈ table.map Prod.fst) ∧ ∀ m ∈ table, value.find m.1 = m.2 := by
  constructor
  · rintro rfl
    refine ⟨⟨rfl, fun m hm => ?_⟩, fun m hm => find_ofTable hn hm⟩
    exact List.mem_map_of_mem (mem_members_ofTable.mp hm)
  · rintro ⟨⟨hobject, hnames⟩, hfind⟩
    have hmembers : value.members = (ofTable table).members := by
      apply hs.ascending.ext (ascending_ofTable hn)
      intro name
      by_cases hname : name ∈ table.map Prod.fst
      · obtain ⟨m, hm, rfl⟩ := List.mem_map.mp hname
        exact (hfind m hm).trans (find_ofTable hn hm).symm
      · -- A name outside the table is bound on neither side.
        have hnone : ∀ members : List (τ × Value τ), (∀ m ∈ members, m.1 ∈ table.map Prod.fst) →
            members.lookup name = none := by
          intro members hsub
          rw [List.lookup_eq_none_iff]
          intro m hm
          rw [bne_iff_ne]
          rintro rfl
          exact hname (hsub m hm)
        rw [hnone _ hnames, hnone]
        exact fun m hm => List.mem_map_of_mem (mem_members_ofTable.mp hm)
    cases value with
    | object members => exact congrArg Value.object hmembers
    | _ => contradiction

end Tables

end JsonTree
