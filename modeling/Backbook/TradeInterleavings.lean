import Backbook.RegisterRefinement

namespace Backbook

open Std VisibleTrace

variable {state next first second : State} {limits : LimitHierarchy}
  {definitions : List LimitDefinition} {history other : List Operation}

def Operation.isEod : Operation → Bool
  | .runEod _ => true
  | _ => false

/-- Every operation concerns some trade. -/
theorem Operation.exists_concerns (operation : Operation) :
    ∃ tradeId, operation.concerns tradeId = true := by
  cases operation with
  | bookTrade named _ _ _ _ => exact ⟨named, decide_eq_true rfl⟩
  | confirmTrade named _ _ => exact ⟨named, decide_eq_true rfl⟩
  | amendTrade named _ _ _ _ => exact ⟨named, decide_eq_true rfl⟩
  | cancelTrade named _ _ => exact ⟨named, decide_eq_true rfl⟩
  | runEod _ => exact ⟨sampleId .trade, rfl⟩

theorem Operation.concerns_of_isEod {operation : Operation} (h : operation.isEod = true)
    (tradeId : TradeId) : operation.concerns tradeId = true := by
  cases operation with
  | runEod _ => rfl
  | _ => cases h

def SameForEachTrade (history other : List Operation) : Prop :=
  ∀ tradeId, history.filter (Operation.concerns tradeId) = other.filter (Operation.concerns tradeId)

/-- Such histories are permutations of each other. -/
theorem SameForEachTrade.perm (h : SameForEachTrade history other) : history.Perm other := by
  rw [List.perm_iff_count]
  intro operation
  obtain ⟨tradeId, hc⟩ := operation.exists_concerns
  calc
    history.count operation = (history.filter (Operation.concerns tradeId)).count operation :=
      (List.count_filter hc).symm
    _ = (other.filter (Operation.concerns tradeId)).count operation := by rw [h tradeId]
    _ = other.count operation := List.count_filter hc

/-- The ends of day come in the same order too. -/
theorem SameForEachTrade.eods (h : SameForEachTrade history other) :
    history.filter Operation.isEod = other.filter Operation.isEod := by
  have hthrough (operations : List Operation) : operations.filter Operation.isEod =
      (operations.filter (Operation.concerns (sampleId .trade))).filter Operation.isEod := by
    rw [List.filter_filter]
    apply List.filter_congr
    intro operation _
    cases he : operation.isEod with
    | false => rfl
    | true => rw [Operation.concerns_of_isEod he, Bool.and_true]
  rw [hthrough history, hthrough other, h (sampleId .trade)]

/-- A list has one way to be split at its last marked element. -/
theorem split_unique {α : Type*} {marked : α → Bool} {e : α} {front front' back back' : List α}
    (h : front ++ e :: back = front' ++ e :: back') (he : marked e = true)
    (hb : back.filter marked = []) (hb' : back'.filter marked = []) :
    front = front' ∧ back = back' := by
  -- A further element before the mark would leave the mark in the other tail.
  have houtside {tail rest : List α} (ht : tail.filter marked = []) : tail ≠ rest ++ e :: back ∧
      tail ≠ rest ++ e :: back' := by
    have hmem : e ∉ tail := by
      intro hin
      exact List.filter_eq_nil_iff.mp ht e hin he
    constructor
    · intro heq
      exact hmem (heq ▸ by simp)
    · intro heq
      exact hmem (heq ▸ by simp)
  induction front generalizing front' with
  | nil =>
    cases front' with
    | nil => exact ⟨rfl, (List.cons.inj h).2⟩
    | cons x xs => exact absurd (List.cons.inj h).2 (houtside hb).2
  | cons x xs ih =>
    cases front' with
    | nil => exact absurd (List.cons.inj h).2.symm (houtside hb').1
    | cons y ys =>
      obtain ⟨rfl, htail⟩ := List.cons.inj h
      obtain ⟨rfl, rfl⟩ := ih htail
      exact ⟨rfl, rfl⟩

/-- The dossier of a trade is a view of the state that only its operations change. -/
theorem State.dossier_local (hc : LimitHierarchy.create definitions = .ok limits)
    (tradeId : TradeId) : Local State.Performs (State.Reachable limits)
      (Operation.concerns tradeId) fun s => s.register.dossier tradeId where
  keeps s event t hs h := by
    obtain ⟨operation, _, hok⟩ := h
    exact hs.tail ⟨operation, hok⟩
  silent s t hs h := by
    obtain ⟨operation, he, _⟩ := h
    cases he
  other s e t hs h hconcerns := by
    obtain ⟨operation, he, hok⟩ := h
    obtain rfl := Option.some.inj he
    exact (Operation.takes hs.coherent (hs.headroom hc) hok).dossier_kept hconcerns
  definite s s' e t t' hs hs' h h' hconcerns hsame := by
    obtain ⟨operation, he, hok⟩ := h
    obtain ⟨operation', he', hok'⟩ := h'
    obtain rfl := Option.some.inj he
    obtain rfl := Option.some.inj he'
    have htakes := Operation.takes hs.coherent (hs.headroom hc) hok
    have htakes' := Operation.takes hs'.coherent (hs'.headroom hc) hok'
    exact htakes.dossier_eq hs'.coherent.definite htakes' hconcerns hsame

theorem State.Reachable.run (hr : state.Reachable limits)
    (h : Run State.Performs state history next) : next.Reachable limits := by
  apply h.invariant hr
  intro s event t hs hstep
  obtain ⟨operation, _, hok⟩ := hstep
  exact hs.tail ⟨operation, hok⟩

/-- Every operation but an end of day makes one new version of the state. -/
theorem State.version_of_run (hc : LimitHierarchy.create definitions = .ok limits)
    (hr : state.Reachable limits) (h : Run State.Performs state history next)
    (hnone : history.filter Operation.isEod = []) :
    next.version.toNat = state.version.toNat + history.length := by
  induction h with
  | nil => rfl
  | @snoc trace s t event h hs ih =>
    have hreach : s.Reachable limits := hr.run h
    obtain ⟨operation, rfl, hok⟩ := hs
    rw [Option.toList_some, List.filter_append, List.append_eq_nil_iff] at hnone
    have hkind : operation.isEod = false := by simpa using hnone.2
    have htakes := Operation.takes hreach.coherent (hreach.headroom hc) hok
    have hcount : t.register.operations = s.register.operations + 1 := by
      cases operation with
      | runEod _ => cases hkind
      | _ =>
        generalize t.register = r at htakes
        cases htakes <;> rfl
    have hstep : t.version.toNat = s.version.toNat + 1 := hcount
    rw [hstep, ih hnone.1, Option.toList_some, List.length_append, List.length_singleton]
    ring

/-- Between two ends of day the order across trades does not show. -/
theorem registers_agree_between (hc : LimitHierarchy.create definitions = .ok limits)
    {start start' : State} (hr : start.Reachable limits) (hr' : start'.Reachable limits)
    (hsame : start.register = start'.register) (hf : Run State.Performs start history first)
    (hs : Run State.Performs start' other second) (h : SameForEachTrade history other)
    (hnone : history.filter Operation.isEod = []) : first.register = second.register := by
  obtain ⟨hversions, hentries⟩ : first.register.versions = second.register.versions ∧
      first.register.entries = second.register.entries := by
    apply Register.members_eq
    intro tradeId
    exact (State.dossier_local hc tradeId).view_eq hf hs hr hr' (by rw [hsame]) (h tradeId)
  have hcount : first.version.toNat = second.version.toNat := by
    have hstart : start.version.toNat = start'.version.toNat :=
      congrArg Register.operations hsame
    have hnone' : other.filter Operation.isEod = [] := h.eods ▸ hnone
    rw [State.version_of_run hc hr hf hnone, State.version_of_run hc hr' hs hnone', hstart,
      h.perm.length_eq]
  exact Register.ext hversions hentries hcount

/-- The registers agree, end of day by end of day. -/
theorem registers_agree (hc : LimitHierarchy.create definitions = .ok limits)
    (hf : Run State.Performs (State.initial limits) history first)
    (hs : Run State.Performs (State.initial limits) other second)
    (h : SameForEachTrade history other) : first.register = second.register := by
  -- By induction on the length of the first history, split at its last end of day.
  induction hn : history.length using Nat.strong_induction_on generalizing history other first
    second with
  | _ n ih =>
    rcases List.eq_nil_or_concat (history.filter Operation.isEod) with hnone | ⟨eods, e, heods⟩
    · exact registers_agree_between hc .refl .refl rfl hf hs h hnone
    · rw [List.concat_eq_append] at heods
      have hsplit {operations : List Operation}
          (ho : operations.filter Operation.isEod = eods ++ [e]) : ∃ front back,
            operations = front ++ e :: back ∧ e.isEod = true ∧
              back.filter Operation.isEod = [] := by
        obtain ⟨front, tail, rfl, _, htail⟩ := List.filter_eq_append_iff.mp ho
        obtain ⟨idle, back, rfl, _, he, hback⟩ := List.filter_eq_cons_iff.mp htail
        exact ⟨front ++ idle, back, by simp, he, hback⟩
      obtain ⟨front, back, rfl, he, hback⟩ := hsplit heods
      obtain ⟨front', back', rfl, _, hback'⟩ := hsplit (h.eods ▸ heods)
      -- Both parts of the histories show each trade the same.
      have hparts (tradeId : TradeId) :
          front.filter (Operation.concerns tradeId) = front'.filter (Operation.concerns tradeId) ∧
            back.filter (Operation.concerns tradeId) =
              back'.filter (Operation.concerns tradeId) := by
        have hboth := h tradeId
        have hconcerns := Operation.concerns_of_isEod he tradeId
        simp only [List.filter_append, List.filter_cons_of_pos hconcerns] at hboth
        refine split_unique hboth he ?_ ?_
        · rw [List.filter_comm, hback, List.filter_nil]
        · rw [List.filter_comm, hback', List.filter_nil]
      obtain ⟨before, after, hbefore, hevent, hafter⟩ := hf.at_event rfl
      obtain ⟨before', after', hbefore', hevent', hafter'⟩ := hs.at_event rfl
      have hmid : before.register = before'.register :=
        ih front.length (by rw [← hn, List.length_append, List.length_cons]; omega) hbefore
          hbefore' (fun tradeId => (hparts tradeId).1) rfl
      have hr := State.Reachable.of_run hbefore
      have hr' := State.Reachable.of_run hbefore'
      obtain ⟨operation, heq, hok⟩ := hevent
      obtain ⟨operation', heq', hok'⟩ := hevent'
      obtain rfl := Option.some.inj heq
      obtain rfl := Option.some.inj heq'
      have htakes := Operation.takes hr.coherent (hr.headroom hc) hok
      have htakes' := Operation.takes hr'.coherent (hr'.headroom hc) hok'
      rw [← hmid] at htakes'
      exact registers_agree_between hc (hr.tail ⟨e, hok⟩) (hr'.tail ⟨e, hok'⟩)
        (htakes.unique hr.coherent.definite htakes') hafter hafter'
        (fun tradeId => (hparts tradeId).2) hback

/-- Two accepted histories that show each trade the same operations in the same
order, with the ends of day in their places, lead to the same state up to the
order of the ledger, and from there every further history has the same outcome. -/
theorem interleavings_agree (hc : LimitHierarchy.create definitions = .ok limits)
    (hf : Run State.Performs (State.initial limits) history first)
    (hs : Run State.Performs (State.initial limits) other second)
    (h : SameForEachTrade history other) :
    first.Same second ∧ ∀ (more : List Operation) (next : State),
      Run State.Performs first more next →
        ∃ next', Run State.Performs second more next' ∧ next.Same next' := by
  have hregisters : first.register = second.register := registers_agree hc hf hs h
  have hr : first.Reachable limits := .of_run hf
  have hr' : second.Reachable limits := .of_run hs
  -- States with one register do what the register does.
  have hsimulates : Simulates State.Performs State.Performs fun s t : State =>
      s.Reachable limits ∧ t.Reachable limits ∧ s.register = t.register := by
    intro s event s' t hst hstep
    obtain ⟨hreach, hreach', hsame⟩ := hst
    have hregister := State.Performs.step hc hreach hstep
    rw [hsame] at hregister
    obtain ⟨t', hperforms, ht'⟩ := hregister.performed hc hreach'
    have hrun : Run State.Performs t event.toList t' := .single hperforms
    obtain ⟨operation, _, hok⟩ := hstep
    obtain ⟨operation', _, hok'⟩ := hperforms
    exact ⟨t', hrun, hreach.tail ⟨operation, hok⟩, hreach'.tail ⟨operation', hok'⟩, ht'.symm⟩
  refine ⟨State.same_of_register hc hr hr' hregisters, ?_⟩
  intro more next hmore
  obtain ⟨next', hrun, hnext, hnext', hsame⟩ := hsimulates.run ⟨hr, hr', hregisters⟩ hmore
  exact ⟨next', hrun, State.same_of_register hc hnext hnext' hsame⟩

section Sample

def sampleOtherPostingIds : ConfirmationPostingIds :=
  ⟨⟨asciiBytes "Q1", by decide⟩, ⟨asciiBytes "Q2", by decide⟩, ⟨asciiBytes "Q3", by decide⟩,
    ⟨asciiBytes "Q4", by decide⟩⟩

def sampleBook (tradeId : TradeId) : Operation :=
  .bookTrade tradeId (sampleId .book) (sampleId .counterparty) (sampleId .nettingSet) sampleTerms

/-- Two trades confirmed in one order, and in the other. -/
theorem interleavings_agree_sample : ∃ first second : State,
    first.ledgerEntries ≠ second.ledgerEntries ∧ first.Same second := by
  let otherId : TradeId := ⟨asciiBytes "B", by decide⟩
  let history := [sampleBook (sampleId .trade), sampleBook otherId,
    .confirmTrade (sampleId .trade) 1 samplePostingIds,
    .confirmTrade otherId 1 sampleOtherPostingIds]
  let other := [sampleBook otherId, .confirmTrade otherId 1 sampleOtherPostingIds,
    sampleBook (sampleId .trade), .confirmTrade (sampleId .trade) 1 samplePostingIds]
  have hrun : (do
      let limits ← (LimitHierarchy.create sampleDefinitions).mapError StateError.limitFailure
      let first ← history.foldlM Operation.apply (State.initial limits)
      let second ← other.foldlM Operation.apply (State.initial limits)
      if first.ledgerEntries ≠ second.ledgerEntries then .ok first
      else .error StateError.tradeNotFound : Except StateError State).isOk = true := by
    decide +kernel
  obtain ⟨_, h⟩ := ok_of_isOk hrun
  simp only [Outcome.bind_ok_iff, Outcome.mapError_ok_iff] at h
  obtain ⟨limits, hl, first, hf, second, hs, h⟩ := h
  split_ifs at h with hne
  have hfold {operations : List Operation} {start next : State}
      (h : operations.foldlM Operation.apply start = .ok next) :
      Run State.Performs start operations next := by
    induction operations generalizing start with
    | nil =>
      obtain rfl := Except.ok.inj h
      exact .nil
    | cons operation operations ih =>
      obtain ⟨mid, hok, hrest⟩ := Outcome.bind_ok_iff.mp h
      have hstep : start.Performs (some operation) mid := ⟨operation, rfl, hok⟩
      exact (Run.single hstep).trans (ih hrest)
  refine ⟨first, second, hne, (interleavings_agree hl (hfold hf) (hfold hs) ?_).1⟩
  intro tradeId
  by_cases hfirst : sampleId .trade = tradeId
  · subst hfirst
    decide
  · by_cases hsecond : otherId = tradeId
    · subst hsecond
      decide
    · simp [history, other, sampleBook, Operation.concerns, hfirst, hsecond]

end Sample

end Backbook
