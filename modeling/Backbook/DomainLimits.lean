import Backbook.DomainValues
import Backbook.OutcomeRules
import Backbook.OrderedMaps

/-! The settlement limit hierarchy: four nodes from the group down to one book,
each with a capacity and a reserved amount for each currency. A reservation
passes every node of its path before it changes any of them. -/
namespace Backbook

open Std

/-- The four factories of the source. Its constructor is private, so nothing
else can be built. -/
inductive LimitNode
  | group
  | counterparty (counterpartyId : CounterpartyId)
  | nettingSet (counterpartyId : CounterpartyId) (nettingSetId : NettingSetId)
  | book (counterpartyId : CounterpartyId) (nettingSetId : NettingSetId) (bookId : BookId)
deriving DecidableEq

def LimitNode.level : LimitNode → UInt8
  | .group => 0
  | .counterparty _ => 1
  | .nettingSet _ _ => 2
  | .book _ _ _ => 3

def LimitNode.counterpartyId : LimitNode → Option CounterpartyId
  | .group => none
  | .counterparty c => some c
  | .nettingSet c _ => some c
  | .book c _ _ => some c

def LimitNode.nettingSetId : LimitNode → Option NettingSetId
  | .group => none
  | .counterparty _ => none
  | .nettingSet _ n => some n
  | .book _ n _ => some n

def LimitNode.bookId : LimitNode → Option BookId
  | .group => none
  | .counterparty _ => none
  | .nettingSet _ _ => none
  | .book _ _ b => some b

theorem LimitNode.ext_members {a b : LimitNode} (hl : a.level = b.level)
    (hc : a.counterpartyId = b.counterpartyId) (hn : a.nettingSetId = b.nettingSetId)
    (hb : a.bookId = b.bookId) : a = b := by
  cases a <;> cases b <;>
    simp_all [LimitNode.level, LimitNode.counterpartyId, LimitNode.nettingSetId, LimitNode.bookId]

def compareNodes : LimitNode → LimitNode → Ordering :=
  compareLex (compareOn LimitNode.level) (compareLex (compareOn LimitNode.counterpartyId)
    (compareLex (compareOn LimitNode.nettingSetId) (compareOn LimitNode.bookId)))

instance : Ord LimitNode := ⟨compareNodes⟩

instance : TransOrd LimitNode := inferInstanceAs (TransCmp (compareLex (compareOn LimitNode.level)
  (compareLex (compareOn LimitNode.counterpartyId)
    (compareLex (compareOn LimitNode.nettingSetId) (compareOn LimitNode.bookId)))))

instance : LawfulEqOrd LimitNode where
  eq_of_compare {a b} h := by
    have hlex : compareNodes a b = .eq := h
    simp only [compareNodes, compareLex_eq_eq, compareOn, LawfulEqCmp.compare_eq_iff_eq] at hlex
    exact LimitNode.ext_members hlex.1 hlex.2.1 hlex.2.2.1 hlex.2.2.2

structure LimitPath where
  counterpartyId : CounterpartyId
  nettingSetId : NettingSetId
  bookId : BookId
deriving DecidableEq

def LimitPath.nodes (path : LimitPath) : List LimitNode :=
  [.group, .counterparty path.counterpartyId, .nettingSet path.counterpartyId path.nettingSetId,
    .book path.counterpartyId path.nettingSetId path.bookId]

theorem LimitPath.nodes_nodup (path : LimitPath) : path.nodes.Nodup := by
  simp [LimitPath.nodes]

structure LimitDefinition where
  node : LimitNode
  capacity : Money
deriving DecidableEq

inductive LimitErrorCode
  | invalidCapacity | duplicateDefinition | unsupportedCurrency | unknownNode
  | nonPositiveReservation | breach | releaseExceedsReservation
deriving DecidableEq, Repr

structure LimitError where
  code : LimitErrorCode
  node : LimitNode
  currency : Currency
  requiredMinorUnits : ℤ
  remainingMinorUnits : ℤ
deriving DecidableEq

structure LimitKey where
  node : LimitNode
  currency : Currency
deriving DecidableEq

instance : Ord LimitKey := ⟨compareLex (compareOn LimitKey.node) (compareOn LimitKey.currency)⟩

instance : TransOrd LimitKey :=
  inferInstanceAs (TransCmp (compareLex (compareOn LimitKey.node) (compareOn LimitKey.currency)))

instance : LawfulEqOrd LimitKey where
  eq_of_compare {a b} h := by
    have hlex : compareLex (compareOn LimitKey.node) (compareOn LimitKey.currency) a b = .eq := h
    simp only [compareLex_eq_eq, compareOn, LawfulEqCmp.compare_eq_iff_eq] at hlex
    cases a
    cases b
    simp_all

structure LimitBalance where
  capacity : ℤ
  reserved : ℤ
deriving DecidableEq

@[ext] structure LimitHierarchy where
  balances : ExtTreeMap LimitKey LimitBalance

structure LimitBalanceSnapshot where
  node : LimitNode
  currency : Currency
  capacityMinorUnits : ℤ
  reservedMinorUnits : ℤ
deriving DecidableEq

def createBalances : List LimitDefinition → ExtTreeMap LimitKey LimitBalance →
    Except LimitError (ExtTreeMap LimitKey LimitBalance)
  | [], balances => .ok balances
  | definition :: rest, balances =>
    let currency := definition.capacity.currency
    let capacity := definition.capacity.minorUnits
    let key : LimitKey := ⟨definition.node, currency⟩
    -- The source checks the capacity before the key.
    if capacity < 0 then .error ⟨.invalidCapacity, definition.node, currency, capacity, 0⟩
    else if key ∈ balances then .error ⟨.duplicateDefinition, definition.node, currency, 0, 0⟩
    else createBalances rest (balances.insert key ⟨capacity, 0⟩)

def LimitHierarchy.create (definitions : List LimitDefinition) :
    Except LimitError LimitHierarchy :=
  (createBalances definitions ∅).map LimitHierarchy.mk

/-- The first pass over a path: every node must be defined and have the amount
available in the way that is asked for. -/
def LimitHierarchy.checkPath (self : LimitHierarchy) (outgoing : Money)
    (available : LimitBalance → ℤ) (failure : LimitErrorCode) :
    List LimitNode → Except LimitError Unit
  | [] => .ok ()
  | node :: rest =>
    match self.balances[(⟨node, outgoing.currency⟩ : LimitKey)]? with
    | none => .error ⟨.unknownNode, node, outgoing.currency, outgoing.minorUnits, 0⟩
    | some found =>
      if outgoing.minorUnits > available found then
        .error ⟨failure, node, outgoing.currency, outgoing.minorUnits, available found⟩
      else self.checkPath outgoing available failure rest

def LimitHierarchy.checkHeadroom (self : LimitHierarchy) (outgoing : Money) :
    List LimitNode → Except LimitError Unit :=
  self.checkPath outgoing (fun found => found.capacity - found.reserved) .breach

def LimitHierarchy.checkReserved (self : LimitHierarchy) (outgoing : Money) :
    List LimitNode → Except LimitError Unit :=
  self.checkPath outgoing LimitBalance.reserved .releaseExceedsReservation

/-- The second pass of either: every node of the path moves by the same amount. -/
def LimitHierarchy.adjust (self : LimitHierarchy) (nodes : List LimitNode) (currency : Currency)
    (delta : ℤ) : LimitHierarchy :=
  ⟨nodes.foldl (fun balances node => balances.modify ⟨node, currency⟩ fun balance =>
    { balance with reserved := balance.reserved + delta }) self.balances⟩

def LimitHierarchy.reserve (self : LimitHierarchy) (path : LimitPath) (outgoing : Money) :
    Except LimitError LimitHierarchy :=
  if outgoing.minorUnits ≤ 0 then
    .error ⟨.nonPositiveReservation, .group, outgoing.currency, outgoing.minorUnits, 0⟩
  -- No node is changed before all of them have passed.
  else do
    self.checkHeadroom outgoing path.nodes
    .ok (self.adjust path.nodes outgoing.currency outgoing.minorUnits)

def LimitHierarchy.release (self : LimitHierarchy) (path : LimitPath) (outgoing : Money) :
    Except LimitError LimitHierarchy :=
  if outgoing.minorUnits ≤ 0 then
    .error ⟨.nonPositiveReservation, .group, outgoing.currency, outgoing.minorUnits, 0⟩
  else do
    self.checkReserved outgoing path.nodes
    .ok (self.adjust path.nodes outgoing.currency (-outgoing.minorUnits))

def LimitHierarchy.snapshots (self : LimitHierarchy) : List LimitBalanceSnapshot :=
  self.balances.toList.map fun (key, balance) =>
    ⟨key.node, key.currency, balance.capacity, balance.reserved⟩

theorem LimitHierarchy.checkPath_ok_iff {self : LimitHierarchy} {outgoing : Money}
    {available : LimitBalance → ℤ} {failure : LimitErrorCode} {nodes : List LimitNode} :
    self.checkPath outgoing available failure nodes = .ok () ↔
      ∀ node ∈ nodes, ∃ found, self.balances[(⟨node, outgoing.currency⟩ : LimitKey)]? = some found ∧
        outgoing.minorUnits ≤ available found := by
  induction nodes with
  | nil => simp [LimitHierarchy.checkPath]
  | cons node rest ih =>
    unfold LimitHierarchy.checkPath
    cases hf : self.balances[(⟨node, outgoing.currency⟩ : LimitKey)]? with
    | none => simp [hf]
    | some found =>
      by_cases hb : outgoing.minorUnits > available found
      · -- The first node that is short decides against the whole path.
        simp only [hb, if_true, List.mem_cons, forall_eq_or_imp, hf, Option.some.injEq,
          exists_eq_left', reduceCtorEq, false_iff, not_and]
        omega
      · have hle : outgoing.minorUnits ≤ available found := Int.not_lt.mp hb
        simp only [hb, if_false, ih, List.mem_cons, forall_eq_or_imp, hf, Option.some.injEq,
          exists_eq_left', hle, true_and]

/-- Adjusting a path changes exactly the reserved amounts of its nodes. -/
theorem LimitHierarchy.adjust_getElem? (self : LimitHierarchy) {nodes : List LimitNode}
    (hn : nodes.Nodup) (currency : Currency) (delta : ℤ) (key : LimitKey) :
    (self.adjust nodes currency delta).balances[key]? =
      if key.node ∈ nodes ∧ key.currency = currency then
        self.balances[key]?.map fun balance => { balance with reserved := balance.reserved + delta }
      else self.balances[key]? := by
  unfold LimitHierarchy.adjust
  obtain ⟨balances⟩ := self
  simp only
  induction nodes generalizing balances with
  | nil => simp
  | cons node rest ih =>
    obtain ⟨hout, hrest⟩ := List.nodup_cons.mp hn
    -- The head of the path is adjusted first, and no later node is the same.
    rw [List.foldl_cons, ih hrest, ExtTreeMap.getElem?_modify]
    rcases key with ⟨knode, kcurrency⟩
    simp only [LawfulEqCmp.compare_eq_iff_eq, LimitKey.mk.injEq, List.mem_cons]
    by_cases hk : knode = node
    · subst hk
      by_cases hc : kcurrency = currency
      · subst hc
        simp [hout]
      · simp [hc, Ne.symm hc]
    · simp [hk, Ne.symm hk]

theorem LimitHierarchy.reserve_ok_iff {self next : LimitHierarchy} {path : LimitPath}
    {outgoing : Money} : self.reserve path outgoing = .ok next ↔
      0 < outgoing.minorUnits ∧
      (∀ node ∈ path.nodes, ∃ found,
        self.balances[(⟨node, outgoing.currency⟩ : LimitKey)]? = some found ∧
        outgoing.minorUnits ≤ found.capacity - found.reserved) ∧
      next = self.adjust path.nodes outgoing.currency outgoing.minorUnits := by
  unfold LimitHierarchy.reserve
  split_ifs with hp
  · simp [Int.not_lt.mpr hp]
  · rw [Outcome.check_ok_iff, LimitHierarchy.checkHeadroom, LimitHierarchy.checkPath_ok_iff]
    simp [Int.not_le.mp hp, @eq_comm _ next]

theorem LimitHierarchy.release_ok_iff {self next : LimitHierarchy} {path : LimitPath}
    {outgoing : Money} : self.release path outgoing = .ok next ↔
      0 < outgoing.minorUnits ∧
      (∀ node ∈ path.nodes, ∃ found,
        self.balances[(⟨node, outgoing.currency⟩ : LimitKey)]? = some found ∧
        outgoing.minorUnits ≤ found.reserved) ∧
      next = self.adjust path.nodes outgoing.currency (-outgoing.minorUnits) := by
  unfold LimitHierarchy.release
  split_ifs with hp
  · simp [Int.not_lt.mpr hp]
  · rw [Outcome.check_ok_iff, LimitHierarchy.checkReserved, LimitHierarchy.checkPath_ok_iff]
    simp [Int.not_le.mp hp, @eq_comm _ next]

def LimitHierarchy.reservedAt (self : LimitHierarchy) (key : LimitKey) : ℤ :=
  (self.balances[key]?.map LimitBalance.reserved).getD 0

def LimitHierarchy.capacityAt (self : LimitHierarchy) (key : LimitKey) : Option ℤ :=
  self.balances[key]?.map LimitBalance.capacity

@[simp] theorem LimitHierarchy.adjust_capacityAt (self : LimitHierarchy) {path : LimitPath}
    (currency : Currency) (delta : ℤ) (key : LimitKey) :
    (self.adjust path.nodes currency delta).capacityAt key = self.capacityAt key := by
  unfold LimitHierarchy.capacityAt
  rw [self.adjust_getElem? path.nodes_nodup]
  split_ifs
  · cases self.balances[key]? <;> rfl
  · rfl

/-- Where the whole path is defined, its nodes move by the amount. -/
theorem LimitHierarchy.adjust_reservedAt (self : LimitHierarchy) {path : LimitPath}
    {currency : Currency} (delta : ℤ)
    (hd : ∀ node ∈ path.nodes, ∃ found, self.balances[(⟨node, currency⟩ : LimitKey)]? = some found)
    (key : LimitKey) : (self.adjust path.nodes currency delta).reservedAt key =
      self.reservedAt key +
        if key.node ∈ path.nodes ∧ key.currency = currency then delta else 0 := by
  unfold LimitHierarchy.reservedAt
  rw [self.adjust_getElem? path.nodes_nodup]
  split_ifs with hk
  · obtain ⟨found, hf⟩ := hd key.node hk.1
    rw [← hk.2] at hf
    simp [hf]
  · simp

theorem createBalances_getElem? {definitions : List LimitDefinition}
    {balances result : ExtTreeMap LimitKey LimitBalance}
    (h : createBalances definitions balances = .ok result)
    (hb : ∀ (key : LimitKey) (balance : LimitBalance), balances[key]? = some balance →
      balance.reserved = 0 ∧ 0 ≤ balance.capacity ∧ balance.capacity < 2 ^ 63)
    (key : LimitKey) (balance : LimitBalance) (hk : result[key]? = some balance) :
    balance.reserved = 0 ∧ 0 ≤ balance.capacity ∧ balance.capacity < 2 ^ 63 := by
  induction definitions generalizing balances with
  | nil =>
    obtain rfl := Except.ok.inj h
    exact hb key balance hk
  | cons definition rest ih =>
    simp only [createBalances] at h
    split_ifs at h with hneg hdup
    refine ih h ?_
    intro k b hkb
    rw [ExtTreeMap.getElem?_insert] at hkb
    split_ifs at hkb with he
    · obtain rfl := Option.some.inj hkb
      exact ⟨rfl, Int.not_lt.mp hneg, definition.capacity.inRange.2⟩
    · exact hb k b hkb

/-- A new hierarchy reserves nothing, under capacities that are not negative. -/
theorem LimitHierarchy.create_getElem? {definitions : List LimitDefinition} {self : LimitHierarchy}
    (h : LimitHierarchy.create definitions = .ok self) (key : LimitKey) (balance : LimitBalance)
    (hk : self.balances[key]? = some balance) :
    balance.reserved = 0 ∧ 0 ≤ balance.capacity ∧ balance.capacity < 2 ^ 63 := by
  obtain ⟨result, hr, rfl⟩ := Outcome.map_ok_iff.mp h
  -- The loop starts from a map without keys.
  refine createBalances_getElem? hr ?_ key balance hk
  intro k b hkb
  simp at hkb

/-- Every hierarchy that the interface of the source can produce. -/
inductive LimitHierarchy.Built : LimitHierarchy → Prop
  | create {definitions : List LimitDefinition} {self : LimitHierarchy}
      (h : LimitHierarchy.create definitions = .ok self) : Built self
  | reserve {self next : LimitHierarchy} {path : LimitPath} {outgoing : Money} (hb : Built self)
      (h : self.reserve path outgoing = .ok next) : Built next
  | release {self next : LimitHierarchy} {path : LimitPath} {outgoing : Money} (hb : Built self)
      (h : self.release path outgoing = .ok next) : Built next

/-- An adjusted balance comes from the balance of its key, and only a node of the
path has another amount reserved. -/
theorem LimitHierarchy.adjust_origin {self : LimitHierarchy} {path : LimitPath}
    {currency : Currency} {delta : ℤ} {key : LimitKey} {balance : LimitBalance}
    (hk : (self.adjust path.nodes currency delta).balances[key]? = some balance) :
    ∃ found, self.balances[key]? = some found ∧ balance.capacity = found.capacity ∧
      (balance.reserved = found.reserved ∨ key.node ∈ path.nodes ∧ key.currency = currency ∧
        balance.reserved = found.reserved + delta) := by
  rw [LimitHierarchy.adjust_getElem? _ path.nodes_nodup] at hk
  split_ifs at hk with hin
  · obtain ⟨found, hf, rfl⟩ := Option.map_eq_some_iff.mp hk
    exact ⟨found, hf, rfl, Or.inr ⟨hin.1, hin.2, rfl⟩⟩
  · exact ⟨balance, hk, rfl, Or.inl rfl⟩

/-- Where every node of the path has room for the adjustment, it stays within capacity. -/
theorem LimitHierarchy.adjust_within {self : LimitHierarchy} {path : LimitPath}
    {currency : Currency} {delta : ℤ}
    (hold : ∀ (key : LimitKey) (balance : LimitBalance), self.balances[key]? = some balance →
      0 ≤ balance.reserved ∧ balance.reserved ≤ balance.capacity)
    (hroom : ∀ node ∈ path.nodes, ∃ found,
      self.balances[(⟨node, currency⟩ : LimitKey)]? = some found ∧
        0 ≤ found.reserved + delta ∧ found.reserved + delta ≤ found.capacity)
    (key : LimitKey) (balance : LimitBalance)
    (hk : (self.adjust path.nodes currency delta).balances[key]? = some balance) :
    0 ≤ balance.reserved ∧ balance.reserved ≤ balance.capacity := by
  obtain ⟨found, hf, hcapacity, hkept | ⟨hnode, hcurrency, hmoved⟩⟩ :=
    LimitHierarchy.adjust_origin hk
  · rw [hcapacity, hkept]
    exact hold key found hf
  · obtain ⟨found', hf', hfits⟩ := hroom key.node hnode
    rw [← hcurrency, hf] at hf'
    obtain rfl := Option.some.inj hf'
    rw [hcapacity, hmoved]
    exact hfits

/-- Reserved amounts lie between zero and their capacity. -/
theorem LimitHierarchy.Built.within {self : LimitHierarchy} (h : self.Built) (key : LimitKey)
    (balance : LimitBalance) (hk : self.balances[key]? = some balance) :
    0 ≤ balance.reserved ∧ balance.reserved ≤ balance.capacity := by
  induction h generalizing key balance with
  | create hc =>
    obtain ⟨hr, hcap, _⟩ := LimitHierarchy.create_getElem? hc key balance hk
    omega
  | @reserve self next path outgoing _ hres ih =>
    obtain ⟨hpos, hall, rfl⟩ := LimitHierarchy.reserve_ok_iff.mp hres
    refine LimitHierarchy.adjust_within ih (fun node hnode => ?_) key balance hk
    obtain ⟨found, hf, hroom⟩ := hall node hnode
    have hold := ih _ found hf
    exact ⟨found, hf, by omega, by omega⟩
  | @release self next path outgoing _ hrel ih =>
    obtain ⟨hpos, hall, rfl⟩ := LimitHierarchy.release_ok_iff.mp hrel
    refine LimitHierarchy.adjust_within ih (fun node hnode => ?_) key balance hk
    obtain ⟨found, hf, hroom⟩ := hall node hnode
    have hold := ih _ found hf
    exact ⟨found, hf, by omega, by omega⟩

end Backbook
