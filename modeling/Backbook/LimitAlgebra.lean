import Backbook.DomainLimits

namespace Backbook

open Std

def LimitNode.parent : LimitNode → Option LimitNode
  | .group => none
  | .counterparty _ => some .group
  | .nettingSet c _ => some (.counterparty c)
  | .book c n _ => some (.nettingSet c n)

/-- What the defined nodes right below a node reserve in a currency. -/
def LimitHierarchy.reservedBelow (self : LimitHierarchy) (node : LimitNode) (currency : Currency) :
    ℤ :=
  OrderedMap.total self.balances fun key balance =>
    if key.node.parent = some node ∧ key.currency = currency then balance.reserved else 0

variable {self next : LimitHierarchy} {path : LimitPath} {outgoing : Money}

/-- The path through a node that is not a leaf goes on to one of its children. -/
theorem LimitPath.child_on_path (path : LimitPath) {node : LimitNode} (hl : node.level ≠ 3)
    (delta : ℤ) : (path.nodes.map fun child => if child.parent = some node then delta else 0).sum =
      if node ∈ path.nodes then delta else 0 := by
  cases node with
  | group => simp [LimitPath.nodes, LimitNode.parent]
  | counterparty c => simp [LimitPath.nodes, LimitNode.parent, eq_comm]
  | nettingSet c n => simp [LimitPath.nodes, LimitNode.parent, eq_comm]
  | book c n b => exact absurd rfl hl

/-- An adjustment moves a sum over the nodes by the share of those it passes. -/
theorem LimitHierarchy.adjust_total (self : LimitHierarchy) (nodes : List LimitNode)
    (currency : Currency) (delta : ℤ) (P : LimitKey → Prop) [DecidablePred P]
    (hd : ∀ node ∈ nodes, ∃ found, self.balances[(⟨node, currency⟩ : LimitKey)]? = some found) :
    (OrderedMap.total (self.adjust nodes currency delta).balances fun key balance =>
      if P key then balance.reserved else 0) =
    (OrderedMap.total self.balances fun key balance => if P key then balance.reserved else 0) +
      (nodes.map fun node => if P ⟨node, currency⟩ then delta else 0).sum := by
  unfold LimitHierarchy.adjust
  obtain ⟨balances⟩ := self
  simp only at hd ⊢
  induction nodes generalizing balances with
  | nil => simp
  | cons node rest ih =>
    obtain ⟨found, hf⟩ := hd node List.mem_cons_self
    -- The keys of the rest stay bound behind the first step.
    have hrest : ∀ other ∈ rest, ∃ found', (balances.modify ⟨node, currency⟩ fun balance =>
        { balance with reserved := balance.reserved + delta })[
          (⟨other, currency⟩ : LimitKey)]? = some found' := by
      intro other hmem
      obtain ⟨old, hold⟩ := hd other (List.mem_cons_of_mem _ hmem)
      rw [ExtTreeMap.getElem?_modify]
      split_ifs
      · rw [hf]
        exact ⟨_, rfl⟩
      · exact ⟨old, hold⟩
    rw [List.foldl_cons, ih _ hrest, OrderedMap.total_modify, hf, List.map_cons, List.sum_cons,
      Option.elim_some]
    simp only
    split_ifs <;> ring

/-- Both passes move a node that is not a leaf as they move its children. -/
theorem LimitHierarchy.adjust_reservedBelow (self : LimitHierarchy) (path : LimitPath)
    (currency : Currency) (delta : ℤ) {node : LimitNode} (hl : node.level ≠ 3)
    (hd : ∀ child ∈ path.nodes, ∃ found,
      self.balances[(⟨child, currency⟩ : LimitKey)]? = some found)
    (h : ∀ c, self.reservedAt ⟨node, c⟩ = self.reservedBelow node c) (c : Currency) :
    (self.adjust path.nodes currency delta).reservedAt ⟨node, c⟩ =
      (self.adjust path.nodes currency delta).reservedBelow node c := by
  have hbelow := self.adjust_total path.nodes currency delta
    (fun key => key.node.parent = some node ∧ key.currency = c) hd
  unfold LimitHierarchy.reservedBelow at h ⊢
  rw [self.adjust_reservedAt delta hd, hbelow, h c]
  congr 1
  by_cases hc : c = currency
  · subst hc
    simp only [and_true]
    exact (path.child_on_path hl delta).symm
  · simp [hc, Ne.symm hc]

/-- What a node reserves, its children reserve together. -/
theorem LimitHierarchy.Built.reservedAt_eq (h : self.Built) {node : LimitNode}
    (hl : node.level ≠ 3) (currency : Currency) :
    self.reservedAt ⟨node, currency⟩ = self.reservedBelow node currency := by
  induction h generalizing currency with
  | @create definitions self hc =>
    have hzero (key : LimitKey) (balance : LimitBalance)
        (hk : self.balances[key]? = some balance) : balance.reserved = 0 :=
      (LimitHierarchy.create_getElem? hc key balance hk).1
    have hbelow : self.reservedBelow node currency =
        OrderedMap.total self.balances fun _ _ => (0 : ℤ) := by
      apply OrderedMap.total_congr
      intro key balance hk
      rw [hzero key balance hk, ite_self]
    rw [hbelow, OrderedMap.total, List.map_const', List.sum_replicate, smul_zero]
    unfold LimitHierarchy.reservedAt
    cases hk : self.balances[(⟨node, currency⟩ : LimitKey)]? with
    | none => rfl
    | some balance => exact hzero _ balance hk
  | reserve _ hres ih =>
    obtain ⟨_, hall, rfl⟩ := LimitHierarchy.reserve_ok_iff.mp hres
    exact LimitHierarchy.adjust_reservedBelow _ _ _ _ hl
      (fun child hmem => (hall child hmem).imp fun _ hf => hf.1) ih currency
  | release _ hrel ih =>
    obtain ⟨_, hall, rfl⟩ := LimitHierarchy.release_ok_iff.mp hrel
    exact LimitHierarchy.adjust_reservedBelow _ _ _ _ hl
      (fun child hmem => (hall child hmem).imp fun _ hf => hf.1) ih currency

/-- Capacities stay what they were created with, so they fit. -/
theorem LimitHierarchy.Built.capacity_lt (h : self.Built) (key : LimitKey)
    (balance : LimitBalance) (hk : self.balances[key]? = some balance) :
    balance.capacity < 2 ^ 63 := by
  induction h generalizing key balance with
  | create hc => exact (LimitHierarchy.create_getElem? hc key balance hk).2.2
  | reserve _ hres ih =>
    obtain ⟨_, _, rfl⟩ := LimitHierarchy.reserve_ok_iff.mp hres
    obtain ⟨found, hf, hcapacity, _⟩ := LimitHierarchy.adjust_origin hk
    rw [hcapacity]
    exact ih key found hf
  | release _ hrel ih =>
    obtain ⟨_, _, rfl⟩ := LimitHierarchy.release_ok_iff.mp hrel
    obtain ⟨found, hf, hcapacity, _⟩ := LimitHierarchy.adjust_origin hk
    rw [hcapacity]
    exact ih key found hf

def LimitHierarchy.Refuses (self : LimitHierarchy) (outgoing : Money) (node : LimitNode)
    (e : LimitError) : Prop :=
  (self.balances[(⟨node, outgoing.currency⟩ : LimitKey)]? = none ∧
    e = ⟨.unknownNode, node, outgoing.currency, outgoing.minorUnits, 0⟩) ∨
  ∃ found, self.balances[(⟨node, outgoing.currency⟩ : LimitKey)]? = some found ∧
    found.capacity - found.reserved < outgoing.minorUnits ∧
    e = ⟨.breach, node, outgoing.currency, outgoing.minorUnits, found.capacity - found.reserved⟩

def LimitHierarchy.Allows (self : LimitHierarchy) (outgoing : Money) (node : LimitNode) : Prop :=
  ∃ found, self.balances[(⟨node, outgoing.currency⟩ : LimitKey)]? = some found ∧
    outgoing.minorUnits ≤ found.capacity - found.reserved

/-- The error of a path is that of its first node that is short. -/
theorem LimitHierarchy.checkHeadroom_error {nodes : List LimitNode} {e : LimitError}
    (h : self.checkHeadroom outgoing nodes = .error e) : ∃ before node after,
      nodes = before ++ node :: after ∧ (∀ passed ∈ before, self.Allows outgoing passed) ∧
      self.Refuses outgoing node e := by
  induction nodes with
  | nil => cases h
  | cons node rest ih =>
    unfold LimitHierarchy.checkHeadroom LimitHierarchy.checkPath at h
    cases hf : self.balances[(⟨node, outgoing.currency⟩ : LimitKey)]? with
    | none =>
      simp only [hf] at h
      exact ⟨[], node, rest, rfl, List.forall_mem_nil _,
        Or.inl ⟨hf, (Except.error.inj h).symm⟩⟩
    | some found =>
      simp only [hf] at h
      split_ifs at h with hshort
      · exact ⟨[], node, rest, rfl, List.forall_mem_nil _,
          Or.inr ⟨found, hf, hshort, (Except.error.inj h).symm⟩⟩
      · obtain ⟨before, first, after, rfl, hpass, hrefuse⟩ := ih h
        refine ⟨node :: before, first, after, rfl, ?_, hrefuse⟩
        intro passed hmem
        rcases List.mem_cons.mp hmem with rfl | hmem
        · exact ⟨found, hf, Int.not_lt.mp hshort⟩
        · exact hpass passed hmem

theorem LimitHierarchy.reserve_error {e : LimitError} (hpos : 0 < outgoing.minorUnits)
    (h : self.reserve path outgoing = .error e) : ∃ before node after,
      path.nodes = before ++ node :: after ∧ (∀ passed ∈ before, self.Allows outgoing passed) ∧
      self.Refuses outgoing node e := by
  unfold LimitHierarchy.reserve at h
  rw [if_neg (Int.not_le.mpr hpos)] at h
  rcases Outcome.bind_error_iff.mp h with h | ⟨_, _, h⟩
  · exact LimitHierarchy.checkHeadroom_error h
  · cases h

/-- A release gives back what the reservation of the same amount took. -/
theorem LimitHierarchy.reserve_release (hb : self.Built)
    (h : self.reserve path outgoing = .ok next) : next.release path outgoing = .ok self := by
  obtain ⟨hpos, hall, rfl⟩ := LimitHierarchy.reserve_ok_iff.mp h
  have hstep := self.adjust_getElem? path.nodes_nodup outgoing.currency outgoing.minorUnits
  refine LimitHierarchy.release_ok_iff.mpr ⟨hpos, fun node hmem => ?_, ?_⟩
  · obtain ⟨found, hf, _⟩ := hall node hmem
    have hnonneg := (hb.within _ found hf).1
    refine ⟨_, by rw [hstep, if_pos ⟨hmem, rfl⟩, hf]; rfl, ?_⟩
    simp only
    omega
  · apply LimitHierarchy.ext
    apply ExtTreeMap.ext_getElem?
    intro key
    rw [LimitHierarchy.adjust_getElem? _ path.nodes_nodup, hstep]
    split_ifs
    · cases self.balances[key]? with
      | none => rfl
      | some balance => simp
    · rfl

/-- Adjustments of any two paths can change places. -/
theorem LimitHierarchy.adjust_comm (self : LimitHierarchy) (p q : LimitPath)
    (c d : Currency) (x y : ℤ) :
    (self.adjust p.nodes c x).adjust q.nodes d y =
      (self.adjust q.nodes d y).adjust p.nodes c x := by
  apply LimitHierarchy.ext
  apply ExtTreeMap.ext_getElem?
  intro key
  rw [LimitHierarchy.adjust_getElem? _ q.nodes_nodup,
    LimitHierarchy.adjust_getElem? _ p.nodes_nodup, LimitHierarchy.adjust_getElem? _ p.nodes_nodup,
    LimitHierarchy.adjust_getElem? _ q.nodes_nodup]
  split_ifs
  · cases self.balances[key]? with
    | none => rfl
    | some balance =>
      simp only [Option.map_some, Option.some.injEq, LimitBalance.mk.injEq, true_and]
      ring
  · rfl
  · rfl
  · rfl

/-- Two reservations that succeed in one order succeed in the other. -/
theorem LimitHierarchy.reserve_comm {p q : LimitPath} {m k : Money} {first last : LimitHierarchy}
    (hp : self.reserve p m = .ok first) (hq : first.reserve q k = .ok last) :
    ∃ other, self.reserve q k = .ok other ∧ other.reserve p m = .ok last := by
  obtain ⟨hm, hallp, rfl⟩ := LimitHierarchy.reserve_ok_iff.mp hp
  obtain ⟨hk, hallq, rfl⟩ := LimitHierarchy.reserve_ok_iff.mp hq
  have hstepp := self.adjust_getElem? p.nodes_nodup m.currency m.minorUnits
  have hstepq := self.adjust_getElem? q.nodes_nodup k.currency k.minorUnits
  refine ⟨self.adjust q.nodes k.currency k.minorUnits, LimitHierarchy.reserve_ok_iff.mpr
    ⟨hk, fun node hmem => ?_, rfl⟩, LimitHierarchy.reserve_ok_iff.mpr
    ⟨hm, fun node hmem => ?_, self.adjust_comm p q _ _ _ _⟩⟩
  · -- Before the first reservation there was at least as much room.
    obtain ⟨found, hf, hroom⟩ := hallq node hmem
    rw [hstepp] at hf
    split_ifs at hf
    · obtain ⟨old, hold, rfl⟩ := Option.map_eq_some_iff.mp hf
      refine ⟨old, hold, ?_⟩
      simp only at hroom
      omega
    · exact ⟨found, hf, hroom⟩
  · obtain ⟨old, hold, hroom⟩ := hallp node hmem
    rw [hstepq]
    split_ifs with hshared
    · -- A shared node had room for both amounts, in one order or the other.
      obtain ⟨hnode, hcurrency⟩ := hshared
      simp only at hnode hcurrency
      obtain ⟨found, hf, hboth⟩ := hallq node hnode
      rw [← hcurrency, hstepp, if_pos ⟨hmem, rfl⟩, hold] at hf
      obtain rfl := Option.some.inj hf
      refine ⟨_, by rw [hold]; rfl, ?_⟩
      simp only at hboth ⊢
      omega
    · exact ⟨old, hold, hroom⟩

/-- Amounts that a check subtracts and an update leaves are 64-bit integers. -/
theorem LimitHierarchy.Built.fits (h : self.Built) (key : LimitKey) (balance : LimitBalance)
    (hk : self.balances[key]? = some balance) :
    FitsInt64 balance.reserved ∧ FitsInt64 (balance.capacity - balance.reserved) := by
  obtain ⟨hnonneg, hle⟩ := h.within key balance hk
  have hlt := h.capacity_lt key balance hk
  unfold FitsInt64
  omega

/-- The limit hierarchy: reserved amounts lie within the capacities and no check or
update overflows; what a node with children reserves is what these reserve; a
reservation succeeds just when every node of its path can take the amount, and
otherwise names the first that cannot; it moves the four keys of its path alone, is
undone by its release, and commutes with any other. -/
theorem limit_hierarchy_algebra (self : LimitHierarchy) (h : self.Built) :
    (∀ (key : LimitKey) (balance : LimitBalance), self.balances[key]? = some balance →
      0 ≤ balance.reserved ∧ balance.reserved ≤ balance.capacity ∧
      FitsInt64 (balance.capacity - balance.reserved)) ∧
    (∀ path outgoing next, self.reserve path outgoing = .ok next ∨
        self.release path outgoing = .ok next →
      ∀ (key : LimitKey) (balance : LimitBalance), next.balances[key]? = some balance →
        FitsInt64 balance.reserved) ∧
    (∀ (child node : LimitNode) (currency : Currency), child.parent = some node →
      self.reservedAt ⟨node, currency⟩ = self.reservedBelow node currency) ∧
    (∀ path outgoing,
      ((∃ next, self.reserve path outgoing = .ok next) ↔
        0 < outgoing.minorUnits ∧ ∀ node ∈ path.nodes, self.Allows outgoing node) ∧
      (∀ e, 0 < outgoing.minorUnits → self.reserve path outgoing = .error e →
        ∃ before node after, path.nodes = before ++ node :: after ∧
          (∀ passed ∈ before, self.Allows outgoing passed) ∧ self.Refuses outgoing node e) ∧
      ∀ next, self.reserve path outgoing = .ok next →
        (∀ key : LimitKey, next.balances[key]? =
          if key.node ∈ path.nodes ∧ key.currency = outgoing.currency then
            self.balances[key]?.map fun balance =>
              { balance with reserved := balance.reserved + outgoing.minorUnits }
          else self.balances[key]?) ∧
        next.release path outgoing = .ok self) ∧
    ∀ (p q : LimitPath) (m k : Money) (first last : LimitHierarchy),
      self.reserve p m = .ok first → first.reserve q k = .ok last →
      ∃ other, self.reserve q k = .ok other ∧ other.reserve p m = .ok last := by
  refine ⟨fun key balance hk => ?_, fun path outgoing next hnext key balance hk => ?_,
    fun child node currency hparent => h.reservedAt_eq ?_ currency,
    fun path outgoing => ⟨?_, ?_, fun next hres => ⟨fun key => ?_, ?_⟩⟩,
    fun p q m k first last hp hq => LimitHierarchy.reserve_comm hp hq⟩
  · obtain ⟨hnonneg, hle⟩ := h.within key balance hk
    exact ⟨hnonneg, hle, (h.fits key balance hk).2⟩
  · have hbuilt : next.Built := by
      rcases hnext with hres | hrel
      · exact h.reserve hres
      · exact h.release hrel
    exact (hbuilt.fits key balance hk).1
  · cases child <;> cases hparent <;> simp [LimitNode.level]
  · constructor
    · rintro ⟨next, hres⟩
      obtain ⟨hpos, hall, _⟩ := LimitHierarchy.reserve_ok_iff.mp hres
      exact ⟨hpos, hall⟩
    · rintro ⟨hpos, hall⟩
      exact ⟨_, LimitHierarchy.reserve_ok_iff.mpr ⟨hpos, hall, rfl⟩⟩
  · intro e hpos he
    exact LimitHierarchy.reserve_error hpos he
  · obtain ⟨_, _, rfl⟩ := LimitHierarchy.reserve_ok_iff.mp hres
    exact self.adjust_getElem? path.nodes_nodup _ _ key
  · exact LimitHierarchy.reserve_release h hres

def sampleLimitPath : LimitPath :=
  ⟨⟨[65], by decide⟩, ⟨[66], by decide⟩, ⟨[67], by decide⟩⟩

theorem limit_hierarchy_algebra_sample : ∃ self next : LimitHierarchy,
    self.reserve sampleLimitPath ⟨.usd, 7, by decide⟩ = .ok next ∧
      next.release sampleLimitPath ⟨.usd, 7, by decide⟩ = .ok self := by
  let definitions : List LimitDefinition :=
    sampleLimitPath.nodes.map fun node => ⟨node, ⟨.usd, 10, by decide⟩⟩
  have hrun : ((LimitHierarchy.create definitions).bind fun self =>
      self.reserve sampleLimitPath ⟨.usd, 7, by decide⟩).isOk = true := by decide +kernel
  cases hc : LimitHierarchy.create definitions with
  | error e =>
    rw [hc] at hrun
    cases hrun
  | ok self =>
    cases hr : self.reserve sampleLimitPath ⟨.usd, 7, by decide⟩ with
    | error e =>
      rw [hc] at hrun
      simp only [Except.bind] at hrun
      rw [hr] at hrun
      cases hrun
    | ok next =>
      have halgebra := limit_hierarchy_algebra self (.create hc)
      exact ⟨self, next, hr, ((halgebra.2.2.2.1 sampleLimitPath _).2.2 next hr).2⟩

end Backbook
