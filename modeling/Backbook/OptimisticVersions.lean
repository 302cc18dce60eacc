import Backbook.HistoryFrames

namespace Backbook

open Std Relation

def State.attempt (state : State) (operation : Operation) : State :=
  match operation.apply state with
  | .ok next => next
  | .error _ => state

def State.before (limits : LimitHierarchy) (operations : List Operation) (i : ℕ) : State :=
  (operations.take i).foldl State.attempt (State.initial limits)

def Operation.Names (key : TradeVersionKey) : Operation → Prop
  | .confirmTrade tradeId expectedVersion _ => (⟨tradeId, expectedVersion⟩ : TradeVersionKey) = key
  | .amendTrade tradeId expectedVersion _ _ _ =>
    (⟨tradeId, expectedVersion⟩ : TradeVersionKey) = key
  | .cancelTrade tradeId expectedVersion _ => (⟨tradeId, expectedVersion⟩ : TradeVersionKey) = key
  | _ => False

section Successes

variable (key : TradeVersionKey) (state : State) (operation : Operation)

def Operation.Confirms : Prop :=
  ∃ postingIds next, operation = .confirmTrade key.tradeId key.version postingIds ∧
    operation.apply state = .ok next

def Operation.Amends : Prop :=
  ∃ terms reversalIds postingIds next,
    operation = .amendTrade key.tradeId key.version terms reversalIds postingIds ∧
    operation.apply state = .ok next

def Operation.Cancels : Prop :=
  ∃ reversalIds next, operation = .cancelTrade key.tradeId key.version reversalIds ∧
    operation.apply state = .ok next

def Operation.Settles : Prop :=
  ∃ asOfDate next, operation = .runEod asOfDate ∧ operation.apply state = .ok next ∧
    (∀ old, state.trades[key]? = some old → old.state ≠ .settled) ∧
    ∃ new, next.trades[key]? = some new ∧ new.state = .settled

def Operation.Ends : Prop :=
  operation.Amends key state ∨ operation.Cancels key state ∨ operation.Settles key state

end Successes

section Runs

variable {limits : LimitHierarchy} {operations : List Operation} {state later next : State}
  {operation : Operation} {key : TradeVersionKey} {trade : Trade} {i j : ℕ}

theorem State.attempt_reaches (state : State) (operation : Operation) :
    ReflTransGen State.Step state (state.attempt operation) := by
  unfold State.attempt
  cases h : operation.apply state with
  | error e => exact .refl
  | ok next => exact .single ⟨operation, h⟩

theorem State.before_succ (h : operations[i]? = some operation) :
    State.before limits operations (i + 1) =
      (State.before limits operations i).attempt operation := by
  unfold State.before
  rw [List.take_add_one, h, Option.toList_some, List.foldl_append]
  rfl

theorem State.before_reaches (limits : LimitHierarchy) (operations : List Operation) (h : i ≤ j) :
    ReflTransGen State.Step (State.before limits operations i)
      (State.before limits operations j) := by
  induction j, h using Nat.le_induction with
  | base => exact .refl
  | succ j _ ih =>
    cases hj : operations[j]? with
    | none =>
      have hend : operations.length ≤ j := List.getElem?_eq_none_iff.mp hj
      have hsame : State.before limits operations (j + 1) = State.before limits operations j := by
        unfold State.before
        rw [List.take_of_length_le hend, List.take_of_length_le (by omega)]
      rw [hsame]
      exact ih
    | some operation =>
      rw [State.before_succ hj]
      exact ih.trans (State.attempt_reaches _ operation)

theorem State.before_reachable (limits : LimitHierarchy) (operations : List Operation) (i : ℕ) :
    (State.before limits operations i).Reachable limits :=
  State.before_reaches limits operations (Nat.zero_le i)

/-- What a success at one position leaves is where every later attempt comes from. -/
theorem State.reaches_before (hi : operations[i]? = some operation)
    (happly : operation.apply (State.before limits operations i) = .ok next) (hij : i < j) :
    ReflTransGen State.Step next (State.before limits operations j) := by
  have hrun := State.before_reaches limits operations (Nat.succ_le_of_lt hij)
  rw [State.before_succ hi, State.attempt, happly] at hrun
  exact hrun

/-- What every operation keeps of a stored version, a run keeps. -/
theorem State.Reachable.version_kept {P : Trade → Prop}
    (hP : ∀ old new, P old → old.Continues new → P new) (h : state.Reachable limits)
    (hrun : ReflTransGen State.Step state later) (ht : state.trades[key]? = some trade)
    (hp : P trade) : ∃ new, later.trades[key]? = some new ∧ P new := by
  induction hrun with
  | refl => exact ⟨trade, ht, hp⟩
  | @tail before after hpath hstep ih =>
    obtain ⟨operation, happly⟩ := hstep
    obtain ⟨old, hold, hpo⟩ := ih
    have hs : before.Coherent := State.Reachable.coherent (h.trans hpath)
    obtain ⟨new, hnew, hcont⟩ := (Operation.extends hs happly).trades key old hold
    exact ⟨new, hnew, hP old new hpo hcont⟩

/-- A version in a final state is never touched again. -/
theorem State.Reachable.final_kept (h : state.Reachable limits)
    (hrun : ReflTransGen State.Step state later) (ht : state.trades[key]? = some trade)
    (hf : trade.state.Final) : later.trades[key]? = some trade := by
  obtain ⟨new, hnew, rfl⟩ := h.version_kept (P := fun t => t = trade)
    (fun old new ho hc => by subst ho; exact hc.closed hf) hrun ht rfl
  exact hnew

/-- No run takes a version back to captured. -/
theorem State.Reachable.captured_left (h : state.Reachable limits)
    (hrun : ReflTransGen State.Step state later) (ht : state.trades[key]? = some trade)
    (hc : trade.state ≠ .captured) :
    ∃ new, later.trades[key]? = some new ∧ new.state ≠ .captured := by
  refine h.version_kept (P := fun t => t.state ≠ .captured) ?_ hrun ht hc
  intro old new ho hcont
  rcases hcont.moved with hsame | hmove
  · rwa [hsame]
  · exact hmove.not_captured

theorem State.Reachable.current_grows (h : state.Reachable limits)
    (hrun : ReflTransGen State.Step state later) {tradeId : TradeId} {version : UInt32}
    (hc : state.currentVersions[tradeId]? = some version) :
    ∃ current, later.currentVersions[tradeId]? = some current ∧ version ≤ current := by
  induction hrun with
  | refl => exact ⟨version, hc, UInt32.le_refl version⟩
  | @tail before after hpath hstep ih =>
    obtain ⟨operation, happly⟩ := hstep
    obtain ⟨old, hold, hle⟩ := ih
    have hs : before.Coherent := State.Reachable.coherent (h.trans hpath)
    obtain ⟨current, hcur, hle'⟩ := (Operation.extends hs happly).current tradeId old hold
    exact ⟨current, hcur, UInt32.le_trans hle hle'⟩

end Runs

section Attempts

variable {state next : State} {operation : Operation} {key : TradeVersionKey} {trade : Trade}

/-- Every operation that names a version first asks whether it is current. One
that is cancelled or settled gets no further. -/
theorem Operation.Names.guarded (hn : operation.Names key) (state : State) :
    ∃ rest : Trade → Except StateError State,
      operation.apply state = (state.requireCurrent key.tradeId key.version >>= rest) ∧
      ∀ current : Trade, current.state = .cancelled ∨ current.state = .settled →
        rest current = .error (.illegalTransition .illegalTransition) := by
  cases operation with
  | bookTrade => cases hn
  | runEod => cases hn
  | confirmTrade tradeId expectedVersion postingIds =>
    subst hn
    refine ⟨_, rfl, fun current hst => ?_⟩
    have happ : current.apply .confirmTrade = .error .illegalTransition := by
      rcases hst with hst | hst <;> simp [Trade.apply, transition, transitions, hst]
    simp only [happ, Except.mapError, Outcome.error_bind]
  | amendTrade tradeId expectedVersion terms reversalIds postingIds =>
    subst hn
    refine ⟨_, rfl, fun current hst => ?_⟩
    have hconf : current.state ≠ .confirmed := by
      rcases hst with hst | hst <;> simp [hst]
    rw [if_pos hconf]
  | cancelTrade tradeId expectedVersion reversalIds =>
    subst hn
    refine ⟨_, rfl, fun current hst => ?_⟩
    have happ : current.apply .cancelTrade = .error .illegalTransition := by
      rcases hst with hst | hst <;> simp [Trade.apply, transition, transitions, hst]
    simp only [happ, Except.mapError, Outcome.error_bind]

/-- A command that names a version which is not current at that moment fails. -/
theorem Operation.current_of_names (hs : state.Coherent) (hn : operation.Names key)
    (h : operation.apply state = .ok next) :
    state.currentVersions[key.tradeId]? = some key.version := by
  obtain ⟨rest, heq, _⟩ := hn.guarded state
  rw [heq] at h
  obtain ⟨current, hcur, _⟩ := Outcome.bind_ok_iff.mp h
  exact (State.requireCurrent_ok hs.chain hcur).1

/-- The version check refuses an old version and reports the current one. -/
theorem Operation.conflict (hs : state.Coherent) {actual : UInt32} (hn : operation.Names key)
    (hc : state.currentVersions[key.tradeId]? = some actual) (hne : actual ≠ key.version) :
    operation.apply state = .error (.versionConflict key.version actual) := by
  obtain ⟨hge, hall⟩ := hs.chain.complete key.tradeId actual hc
  obtain ⟨current, ht⟩ := hall actual hge (UInt32.le_refl actual)
  have hversion : current.version = actual := (hs.chain.stored_version ht).1
  have hcur : state.currentTrade key.tradeId = some current :=
    State.currentTrade_eq_some_iff.mpr ⟨actual, hc, ht⟩
  have hreq : state.requireCurrent key.tradeId key.version =
      .error (.versionConflict key.version actual) := by
    unfold State.requireCurrent
    simp only [hcur]
    rw [hversion, if_pos hne]
  obtain ⟨rest, heq, _⟩ := hn.guarded state
  rw [heq, hreq, Outcome.error_bind]

/-- A cancelled or settled version is current for good, and nothing may follow. -/
theorem Operation.refused (hs : state.Coherent) (hn : operation.Names key)
    (ht : state.trades[key]? = some trade)
    (hst : trade.state = .cancelled ∨ trade.state = .settled) :
    operation.apply state = .error (.illegalTransition .illegalTransition) := by
  have hns : trade.state ≠ .superseded := by
    rcases hst with hst | hst <;> simp [hst]
  have hcur := hs.chain.current_of_not_superseded ht hns
  have hversion : trade.version = key.version := (hs.chain.stored_version ht).1
  have hreq : state.requireCurrent key.tradeId key.version = .ok trade :=
    State.requireCurrent_ok_iff.mpr
      ⟨State.currentTrade_eq_some_iff.mpr ⟨key.version, hcur, ht⟩, hversion⟩
  obtain ⟨rest, heq, hrest⟩ := hn.guarded state
  rw [heq, hreq, Outcome.ok_bind, hrest trade hst]

/-- A confirmation finds its version captured and leaves it confirmed. -/
theorem Operation.Confirms.effect (hs : state.Coherent) (h : operation.Confirms key state) :
    ∃ old next new, state.trades[key]? = some old ∧ old.state = .captured ∧
      operation.apply state = .ok next ∧ next.trades[key]? = some new ∧
      new.state ≠ .captured := by
  obtain ⟨postingIds, next, rfl, happly⟩ := h
  obtain ⟨current, limits, entry, totals, hrun⟩ := confirmTrade_ok hs.chain happly
  refine ⟨current, next, { current with state := .confirmed }, hrun.stored, hrun.captured, happly,
    ?_, by simp⟩
  rw [hrun.next_eq]
  exact ExtTreeMap.getElem?_insert_self

/-- An amendment leaves its version superseded, under a later current version. -/
theorem Operation.Amends.effect (hs : state.Coherent) (h : operation.Amends key state) :
    ∃ old next new, state.trades[key]? = some old ∧ old.state = .confirmed ∧
      operation.apply state = .ok next ∧ next.trades[key]? = some new ∧
      new.state = .superseded ∧
      ∃ later, next.currentVersions[key.tradeId]? = some later ∧ key.version < later := by
  obtain ⟨terms, reversalIds, postingIds, next, rfl, happly⟩ := h
  obtain ⟨current, index, original, reversal, replacement, released, limits, totals, totals',
    hrun⟩ := amendTrade_ok hs.chain happly
  have hmax := hrun.key_ne
  refine ⟨current, next, current.asSuperseded, hrun.stored, hrun.confirmed, happly, ?_, rfl,
    key.version + 1, ?_, ?_⟩
  · have hne : key ≠ ⟨key.tradeId, key.version + 1⟩ := by
      intro he
      have hv := congrArg TradeVersionKey.version he
      simp at hv
    rw [hrun.next_eq, OrderedMap.getElem?_insert_eq, if_neg hne]
    exact ExtTreeMap.getElem?_insert_self
  · rw [hrun.next_eq]
    exact ExtTreeMap.getElem?_insert_self
  · simp only at hmax
    grind

theorem Operation.Cancels.effect (hs : state.Coherent) (h : operation.Cancels key state) :
    ∃ old next new, state.trades[key]? = some old ∧ ¬old.state.Final ∧
      operation.apply state = .ok next ∧ next.trades[key]? = some new ∧
      new.state = .cancelled := by
  obtain ⟨reversalIds, next, rfl, happly⟩ := h
  obtain ⟨current, ht, _, hcase⟩ := cancelTrade_ok hs.chain happly
  rcases hcase with ⟨hst, hnext⟩ | ⟨_, _, _, _, _, _, _, hrun⟩
  · refine ⟨current, next, { current with state := .cancelled }, ht,
      by simp [hst, TradeState.Final], happly, ?_, rfl⟩
    rw [hnext]
    exact ExtTreeMap.getElem?_insert_self
  · refine ⟨current, next, { current with state := .cancelled }, ht,
      by simp [hrun.confirmed, TradeState.Final], happly, ?_, rfl⟩
    rw [hrun.next_eq]
    exact ExtTreeMap.getElem?_insert_self

theorem Operation.Settles.effect (hs : state.Coherent) (h : operation.Settles key state) :
    ∃ old next new, state.trades[key]? = some old ∧ ¬old.state.Final ∧
      operation.apply state = .ok next ∧ next.trades[key]? = some new ∧
      new.state = .settled := by
  obtain ⟨asOfDate, next, rfl, happly, hopen, new, hnew, hst⟩ := h
  have hfound := hnew
  rw [runEod_trades hs happly, ExtTreeMap.getElem?_map] at hfound
  obtain ⟨old, hold, rfl⟩ := Option.map_eq_some_iff.mp hfound
  refine ⟨old, next, _, hold, ?_, happly, hnew, hst⟩
  -- Only a confirmed version becomes settled by a run.
  unfold Trade.endOfDay at hst
  split_ifs at hst with hsel
  · simp [hsel.1, TradeState.Final]
  · exact absurd hst (hopen old hold)

/-- Whatever ends a version finds it open and leaves it in a final state. -/
theorem Operation.Ends.effect (hs : state.Coherent) (h : operation.Ends key state) :
    ∃ old next new, state.trades[key]? = some old ∧ ¬old.state.Final ∧
      operation.apply state = .ok next ∧ next.trades[key]? = some new ∧ new.state.Final := by
  rcases h with h | h | h
  · obtain ⟨old, next, new, hold, hst, happly, hnew, hst', _⟩ := h.effect hs
    exact ⟨old, next, new, hold, by simp [hst, TradeState.Final], happly, hnew, Or.inl hst'⟩
  · obtain ⟨old, next, new, hold, hst, happly, hnew, hst'⟩ := h.effect hs
    exact ⟨old, next, new, hold, hst, happly, hnew, Or.inr (Or.inl hst')⟩
  · obtain ⟨old, next, new, hold, hst, happly, hnew, hst'⟩ := h.effect hs
    exact ⟨old, next, new, hold, hst, happly, hnew, Or.inr (Or.inr hst')⟩

end Attempts

section Orders

variable {limits : LimitHierarchy} {operations : List Operation} {first second : Operation}
  {key : TradeVersionKey} {i j : ℕ}

/-- The state that a success at one position leaves, with the run from there to a
later attempt. -/
theorem State.next_before (hi : operations[i]? = some first) {next : State}
    (happly : first.apply (State.before limits operations i) = .ok next) (hij : i < j) :
    next.Reachable limits ∧ ReflTransGen State.Step next (State.before limits operations j) := by
  have hr := State.before_reachable limits operations i
  exact ⟨hr.tail ⟨first, happly⟩, State.reaches_before hi happly hij⟩

/-- A version in a final state is what every later attempt finds. -/
theorem State.final_before (hi : operations[i]? = some first) {next : State} {new : Trade}
    (happly : first.apply (State.before limits operations i) = .ok next) (hij : i < j)
    (hnew : next.trades[key]? = some new) (hfinal : new.state.Final) :
    (State.before limits operations j).trades[key]? = some new := by
  obtain ⟨hnext, hrun⟩ := State.next_before hi happly hij
  exact hnext.final_kept hrun hnew hfinal

/-- A version that was confirmed is not confirmed again. -/
theorem Operation.Confirms.once (hi : operations[i]? = some first)
    (h : first.Confirms key (State.before limits operations i)) (hij : i < j) :
    ¬second.Confirms key (State.before limits operations j) := by
  intro h'
  have hr := State.before_reachable limits operations i
  obtain ⟨_, next, new, _, _, happly, hnew, hleft⟩ := h.effect hr.coherent
  obtain ⟨hnext, hrun⟩ := State.next_before hi happly hij
  obtain ⟨kept, hkept, hst⟩ := hnext.captured_left hrun hnew hleft
  have hr' := State.before_reachable limits operations j
  obtain ⟨old, _, _, hold, hcap, _⟩ := h'.effect hr'.coherent
  obtain rfl := Option.some.inj (hkept.symm.trans hold)
  exact hst hcap

/-- A version that ended does not end again. -/
theorem Operation.Ends.once (hi : operations[i]? = some first)
    (h : first.Ends key (State.before limits operations i)) (hij : i < j) :
    ¬second.Ends key (State.before limits operations j) := by
  intro h'
  have hr := State.before_reachable limits operations i
  obtain ⟨_, next, new, _, _, happly, hnew, hfinal⟩ := h.effect hr.coherent
  have hkept := State.final_before hi happly hij hnew hfinal
  have hr' := State.before_reachable limits operations j
  obtain ⟨old, _, _, hold, hopen, _⟩ := h'.effect hr'.coherent
  obtain rfl := Option.some.inj (hkept.symm.trans hold)
  exact hopen hfinal

/-- After an amendment, its version is refused with the version current by then. -/
theorem Operation.Amends.later (hi : operations[i]? = some first)
    (h : first.Amends key (State.before limits operations i)) (hij : i < j)
    (hn : second.Names key) :
    ∃ actual, (State.before limits operations j).currentVersions[key.tradeId]? = some actual ∧
      second.apply (State.before limits operations j) =
        .error (.versionConflict key.version actual) := by
  have hr := State.before_reachable limits operations i
  obtain ⟨_, next, _, _, _, happly, _, _, version, hversion, hlt⟩ := h.effect hr.coherent
  obtain ⟨hnext, hrun⟩ := State.next_before hi happly hij
  obtain ⟨actual, hactual, hle⟩ := hnext.current_grows hrun hversion
  have hne : actual ≠ key.version := by
    rintro rfl
    exact absurd (UInt32.lt_of_lt_of_le hlt hle) (UInt32.lt_irrefl _)
  have hs := (State.before_reachable limits operations j).coherent
  exact ⟨actual, hactual, Operation.conflict hs hn hactual hne⟩

/-- After a cancellation or a settlement, every command on the version is illegal. -/
theorem Operation.later_illegal (hi : operations[i]? = some first)
    (h : first.Cancels key (State.before limits operations i) ∨
      first.Settles key (State.before limits operations i)) (hij : i < j)
    (hn : second.Names key) :
    second.apply (State.before limits operations j) =
      .error (.illegalTransition .illegalTransition) := by
  have hr := State.before_reachable limits operations i
  obtain ⟨next, new, happly, hnew, hst⟩ : ∃ next new,
      first.apply (State.before limits operations i) = .ok next ∧
      next.trades[key]? = some new ∧ (new.state = .cancelled ∨ new.state = .settled) := by
    rcases h with h | h
    · obtain ⟨_, next, new, _, _, happly, hnew, hst⟩ := h.effect hr.coherent
      exact ⟨next, new, happly, hnew, Or.inl hst⟩
    · obtain ⟨_, next, new, _, _, happly, hnew, hst⟩ := h.effect hr.coherent
      exact ⟨next, new, happly, hnew, Or.inr hst⟩
  have hkept := State.final_before hi happly hij hnew (Or.inr hst)
  have hs := (State.before_reachable limits operations j).coherent
  exact Operation.refused hs hn hkept hst

end Orders

/-- No update is lost, whatever the order of the attempts. A version is confirmed
at most once. At most one of its amendments, cancellations and settlements
succeeds. What comes after an amendment conflicts with the version current by
then, and what comes after a cancellation or a settlement is illegal. Nothing
succeeds on a version that is not current. -/
theorem no_update_lost (limits : LimitHierarchy) (operations : List Operation)
    (key : TradeVersionKey) (i j : ℕ) (first second : Operation)
    (hi : operations[i]? = some first) (hj : operations[j]? = some second) :
    (first.Confirms key (State.before limits operations i) →
      second.Confirms key (State.before limits operations j) → i = j) ∧
    (first.Ends key (State.before limits operations i) →
      second.Ends key (State.before limits operations j) → i = j) ∧
    (first.Amends key (State.before limits operations i) → i < j → second.Names key →
      ∃ actual, (State.before limits operations j).currentVersions[key.tradeId]? = some actual ∧
        second.apply (State.before limits operations j) =
          .error (.versionConflict key.version actual)) ∧
    (first.Cancels key (State.before limits operations i) ∨
        first.Settles key (State.before limits operations i) → i < j → second.Names key →
      second.apply (State.before limits operations j) =
        .error (.illegalTransition .illegalTransition)) ∧
    (∀ next, second.Names key →
      second.apply (State.before limits operations j) = .ok next →
      (State.before limits operations j).currentVersions[key.tradeId]? = some key.version) := by
  refine ⟨fun h h' => ?_, fun h h' => ?_, fun h hij hn => h.later hi hij hn,
    fun h hij hn => Operation.later_illegal hi h hij hn, fun next hn happly => ?_⟩
  · rcases Nat.lt_trichotomy i j with hij | he | hji
    · exact absurd h' (h.once hi hij)
    · exact he
    · exact absurd h (h'.once hj hji)
  · rcases Nat.lt_trichotomy i j with hij | he | hji
    · exact absurd h' (h.once hi hij)
    · exact he
    · exact absurd h (h'.once hj hji)
  · exact Operation.current_of_names (State.before_reachable limits operations j).coherent hn happly

section Sample

def sampleAttempts : List Operation :=
  [.confirmTrade (sampleId .trade) 1 samplePostingIds, sampleOperations[0], sampleOperations[1],
    .confirmTrade (sampleId .trade) 1 samplePostingIds]

theorem no_update_lost_sample : ∃ (limits : LimitHierarchy) (state : State),
    LimitHierarchy.create sampleDefinitions = .ok limits ∧
    state = State.before limits sampleAttempts 2 ∧
    state.currentVersions[sampleId .trade]? = some 1 := by
  have hrun : (do
      let limits ← (LimitHierarchy.create sampleDefinitions).mapError StateError.limitFailure
      let next ← Operation.apply (State.before limits sampleAttempts 2) sampleOperations[1]
      .ok (limits, next) : Except StateError (LimitHierarchy × State)).isOk = true := by
    decide +kernel
  obtain ⟨⟨limits, next⟩, h⟩ := ok_of_isOk hrun
  simp only [Outcome.bind_ok_iff, Outcome.mapError_ok_iff] at h
  obtain ⟨limits', hl, next', happly, _⟩ := h
  have hlost := no_update_lost limits' sampleAttempts ⟨sampleId .trade, 1⟩ 2 2 _ _ rfl rfl
  exact ⟨limits', _, hl, rfl, hlost.2.2.2.2 next' rfl happly⟩

end Sample

end Backbook
