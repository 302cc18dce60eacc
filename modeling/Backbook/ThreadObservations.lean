import Backbook.ServiceThreads

namespace Backbook

open Std FramedLog Relation VisibleTrace

def FileService.Recalls (service : FileService) (envelope : CommandEnvelope)
    (receipt : CommandReceipt) : Prop :=
  ∃ canonical, canonicalCommandBytes envelope = .ok canonical ∧
    service.idempotency[envelope.commandId]? = some ⟨canonical, receipt.result⟩

section Services

variable {limits : LimitHierarchy} {service next : FileService} {batches : List CommandBatch}
  {frames : List Bytes} {tail : Bytes} {envelope other : CommandEnvelope}
  {receipt receipt' : CommandReceipt}

/-- Every result names a version that the state has reached. -/
theorem replayBatches_versions {state : State} {sequence : UInt64}
    (h : replayBatches batches (State.initial limits) 1 = .ok (state, sequence)) :
    ∀ batch ∈ batches, (resultStateVersion batch.result).toNat ≤ state.version.toNat := by
  induction batches using List.reverseRecOn generalizing state sequence with
  | nil => exact nofun
  | append_singleton batches batch ih =>
    rw [replayBatches_append] at h
    obtain ⟨⟨before, expected⟩, hbefore, hlast⟩ := Outcome.bind_ok_iff.mp h
    obtain ⟨after, hafter, hend⟩ := Outcome.bind_ok_iff.mp hlast
    obtain ⟨rfl, _⟩ := Prod.mk.inj (Except.ok.inj hend)
    have hr : before.Reachable limits := replayBatches_reaches hbefore
    have hle := hr.version_le (.single (replayBatch_step hafter))
    intro other hother
    rcases List.mem_append.mp hother with hother | hother
    · exact (ih hbefore other hother).trans hle
    · obtain rfl := List.mem_singleton.mp hother
      obtain ⟨_, event, _, _, hmatch⟩ := replayBatch_ok_iff.mp hafter
      unfold resultMatches at hmatch
      rw [Bool.and_eq_true, beq_iff_eq] at hmatch
      rw [hmatch.1]

theorem FileService.Standing.version_le (h : service.Standing limits batches frames tail)
    (hrecalls : service.Recalls envelope receipt) :
    (resultStateVersion receipt.result).toNat ≤ service.snapshot.version.toNat := by
  obtain ⟨canonical, _, hrecord⟩ := hrecalls
  rw [h.index, h.accepted.getElem?_indexOf_iff] at hrecord
  obtain ⟨batch, hmem, _, hbatch⟩ := hrecord
  have hle := replayBatches_versions h.accepted.replays batch hmem
  rw [(IdempotencyRecord.mk.inj hbatch).2]
  exact hle

/-- One identifier stands for one request and one result. -/
theorem FileService.Recalls.unique (h : service.Recalls envelope receipt)
    (h' : service.Recalls other receipt') (hid : envelope.commandId = other.commandId) :
    envelope = other ∧ receipt.result = receipt'.result := by
  obtain ⟨canonical, hc, hrecord⟩ := h
  obtain ⟨canonical', hc', hrecord'⟩ := h'
  rw [hid] at hrecord
  have hsame := Option.some.inj (hrecord.symm.trans hrecord')
  obtain ⟨rfl, hresult⟩ := IdempotencyRecord.mk.inj hsame
  exact ⟨canonicalCommandBytes_injective hc hc', hresult⟩

/-- What is answered with success is in the index afterwards, and it was not there
before when it is no replay. -/
theorem FileService.execute_recalls (h : (service.execute envelope).1 = .ok receipt) :
    FileService.Recalls (service.execute envelope).2 envelope receipt ∧
      (receipt.idempotentReplay = false → service.idempotency[envelope.commandId]? = none) := by
  rcases hd : Phase.decide_cases service envelope with ⟨answer, hdecide, hexecute⟩ |
    ⟨canonical, evaluation, batch, frame, hdecide, hp⟩
  · -- Without an append the answer comes from the index.
    rw [hexecute] at h ⊢
    obtain rfl : answer = .ok receipt := h
    unfold Phase.decide at hdecide
    split at hdecide
    · cases (Phase.answered.inj hdecide).2
    · rename_i canonical hc
      split at hdecide
      · rename_i existing hi
        have hanswer := (Phase.answered.inj hdecide).2
        split_ifs at hanswer with hsame
        obtain rfl := Except.ok.inj hanswer
        exact ⟨⟨canonical, hc, by rw [hi, ← hsame]⟩, nofun⟩
      · split at hdecide
        · cases (Phase.answered.inj hdecide).2
        · cases hdecide
  · rcases happend : service.store.appendAndFlush frame with ⟨failure | done, store⟩
    · have hsame : service.withFault service.store.fault = service := rfl
      rw [← hsame] at happend
      have hexecute := execute_refused hp happend
      rw [hsame] at hexecute
      rw [hexecute] at h
      cases h
    · have hsame : service.withFault service.store.fault = service := rfl
      rw [← hsame] at happend
      have hexecute := execute_appended hp happend
      rw [hsame] at hexecute
      rw [hexecute] at h ⊢
      obtain rfl := Except.ok.inj h
      refine ⟨⟨canonical, hp.canonical_eq, ?_⟩, fun _ => hp.fresh⟩
      simp only [OrderedMap.getElem?_insert_eq, if_true]

/-- An execution that is no replay takes an identifier that no answer has yet. -/
theorem FileService.execute_fresh {fault : Option WriteFault}
    {result : CommandResult}
    (hrecalls : service.Recalls other receipt)
    (hexecute : ((service.withFault fault).execute envelope).1 = .ok ⟨result, false⟩) :
    other.commandId ≠ envelope.commandId := by
  obtain ⟨_, hfresh⟩ := FileService.execute_recalls hexecute
  obtain ⟨canonical, _, hrecord⟩ := hrecalls
  intro hid
  have hnone : service.idempotency[envelope.commandId]? = none := hfresh rfl
  rw [hid, hnone] at hrecord
  cases hrecord

/-- A step loses no record, and takes the snapshot forward if anywhere. -/
theorem FileService.Standing.later (h : service.Standing limits batches frames tail)
    (hstep : FileService.Step limits service next) :
    (∀ (id : CommandId) (record : IdempotencyRecord), service.idempotency[id]? = some record →
      next.idempotency[id]? = some record) ∧
    ReflTransGen State.Step service.snapshot next.snapshot := by
  obtain ⟨batches', frames', tail', hprefix, hnext⟩ := h.step hstep
  refine ⟨fun id record => h.index_kept hnext hprefix, ?_⟩
  cases hstep with
  | execute fault envelope =>
    rcases (service.withFault fault).execute_cases envelope with ⟨hsame, _⟩ |
      ⟨canonical, frame, evaluation, batch, hp, ⟨_, store, _, hexec⟩ | ⟨store, _, hexec⟩⟩
    · rw [hsame]
      exact .refl
    · rw [hexec]
      exact .refl
    · rw [hexec]
      obtain ⟨_, happly, _⟩ := evaluateCommand_ok hp.evaluated
      exact .single (applyEvent_step happly)
  | restart hrestart =>
    obtain ⟨restarted, _, _, hrestart', _, _, hsnapshot⟩ := h.restart
    obtain rfl := Except.ok.inj (hrestart.symm.trans hrestart')
    rcases hsnapshot with hsame | ⟨_, envelope, evaluation, hevaluated, hsnapshot⟩
    · rw [hsame]
    · obtain ⟨_, happly, _⟩ := evaluateCommand_ok hevaluated
      rw [hsnapshot]
      exact .single (applyEvent_step happly)

theorem FileService.Recalls.later (h : service.Recalls envelope receipt)
    (hstanding : service.Standing limits batches frames tail)
    (hstep : FileService.Step limits service next) : next.Recalls envelope receipt := by
  obtain ⟨canonical, hc, hrecord⟩ := h
  exact ⟨canonical, hc, (hstanding.later hstep).1 _ _ hrecord⟩

end Services

section Observations

variable {T : Type} [DecidableEq T] {limits : LimitHierarchy} {atomic next : Atomic T}
  {event : Option (Occurrence T)}

def Occurrence.Before : Occurrence T → Occurrence T → Prop
  | .loaded _ earlier, .loaded _ later => ReflTransGen State.Step earlier later
  | .returned _ _ (.ok receipt), .loaded _ later =>
    (resultStateVersion receipt.result).toNat ≤ later.version.toNat
  | .returned _ envelope (.ok receipt), .returned _ envelope' (.ok receipt') =>
    envelope.commandId = envelope'.commandId →
      envelope = envelope' ∧ receipt.result = receipt'.result ∧
        (receipt.idempotentReplay = true ∨ receipt'.idempotentReplay = true)
  | _, _ => True

structure Atomic.Sound (limits : LimitHierarchy) (atomic : Atomic T) : Prop where
  stands : atomic.Stands limits
  recalls : ∀ thread envelope receipt, atomic.call thread = .done envelope (.ok receipt) →
    atomic.service.Recalls envelope receipt
  once : ∀ thread other envelope envelope' result result', thread ≠ other →
    atomic.call thread = .done envelope (.ok ⟨result, false⟩) →
    atomic.call other = .done envelope' (.ok ⟨result', false⟩) →
    envelope.commandId ≠ envelope'.commandId

def Atomic.Remembers (atomic : Atomic T) : Occurrence T → Prop
  | .loaded _ snapshot => ReflTransGen State.Step snapshot atomic.service.snapshot
  | .returned _ envelope (.ok receipt) =>
    atomic.service.Recalls envelope receipt ∧ (receipt.idempotentReplay = false →
      ∀ other envelope' result, atomic.call other = .done envelope' (.ok ⟨result, false⟩) →
        envelope'.commandId ≠ envelope.commandId)
  | _ => True

theorem Atomic.moved_call (atomic : Atomic T) (thread other : T) (call : Call) :
    (atomic.moved thread call).call other = if other = thread then call else atomic.call other := by
  simp [Atomic.moved, Function.update_apply]

/-- A thread that gets no answer changes none. -/
theorem Atomic.Sound.moved (h : atomic.Sound limits) {thread : T} {call : Call}
    (hcall : ∀ envelope answer, call ≠ .done envelope answer) :
    (atomic.moved thread call).Sound limits := by
  have hold {other : T} {envelope : CommandEnvelope}
      {answer : Except CommandServiceError CommandReceipt}
      (hdone : (atomic.moved thread call).call other = .done envelope answer) :
      atomic.call other = .done envelope answer := by
    rw [Atomic.moved_call] at hdone
    split_ifs at hdone
    · exact absurd hdone (hcall envelope answer)
    · exact hdone
  refine ⟨h.stands, ?_, ?_⟩
  · intro other envelope receipt hdone
    exact h.recalls other envelope receipt (hold hdone)
  · intro one other envelope envelope' result result' hne hdone hdone'
    exact h.once one other envelope envelope' result result' hne (hold hdone) (hold hdone')

theorem Atomic.Sound.step (h : atomic.Sound limits)
    (hstep : Atomic.Step limits atomic event next) : next.Sound limits := by
  have hstands := h.stands.step hstep
  cases hstep with
  | call thread envelope _ => exact h.moved (by simp)
  | answer _ => exact h.moved (by simp)
  | load _ => exact h
  | crash _ =>
    refine ⟨hstands, ?_, ?_⟩
    · intro thread envelope receipt hdone
      cases hdone
    · intro thread other envelope envelope' result result' _ hdone
      cases hdone
  | @execute thread envelope fault _ =>
    obtain ⟨_, _, _, hstanding⟩ := h.stands
    have hservice : FileService.Step limits atomic.service _ := .execute _ fault envelope
    refine ⟨hstands, ?_, ?_⟩
    · intro other envelope' receipt hdone
      rw [Atomic.moved_call] at hdone
      split_ifs at hdone
      · obtain ⟨rfl, hanswer⟩ := Call.done.inj hdone
        exact (FileService.execute_recalls hanswer).1
      · exact (h.recalls other envelope' receipt hdone).later hstanding hservice
    · intro one other envelope₁ envelope₂ result₁ result₂ hne hone hother
      rw [Atomic.moved_call] at hone hother
      split_ifs at hone hother with hfirst hsecond hsecond
      · exact absurd (hfirst.trans hsecond.symm) hne
      · obtain ⟨rfl, hanswer⟩ := Call.done.inj hone
        exact (FileService.execute_fresh (h.recalls other _ _ hother) hanswer).symm
      · obtain ⟨rfl, hanswer⟩ := Call.done.inj hother
        exact FileService.execute_fresh (h.recalls one _ _ hone) hanswer
      · exact h.once one other _ _ _ _ hne hone hother

/-- What has been remembered once stays remembered. -/
theorem Atomic.Sound.remembers_step (h : atomic.Sound limits) {seen : Occurrence T}
    (hseen : atomic.Remembers seen) (hstep : Atomic.Step limits atomic event next) :
    next.Remembers seen := by
  obtain ⟨_, _, _, hstanding⟩ := h.stands
  cases seen with
  | called _ _ => trivial
  | crashed => trivial
  | loaded reader snapshot =>
    have hseen : ReflTransGen State.Step snapshot atomic.service.snapshot := hseen
    cases hstep with
    | call _ _ _ => exact hseen
    | answer _ => exact hseen
    | load _ => exact hseen
    | @execute thread envelope fault _ =>
      exact hseen.trans (hstanding.later (.execute _ fault envelope)).2
    | crash hrestart => exact hseen.trans (hstanding.later (.restart hrestart)).2
  | returned thread envelope answer =>
    cases answer with
    | error failure => trivial
    | ok receipt =>
      obtain ⟨hrecalls, honce⟩ := hseen
      cases hstep with
      | call caller envelope' _ =>
        refine ⟨hrecalls, ?_⟩
        intro hfirst other envelope' result hdone
        rw [Atomic.moved_call] at hdone
        split_ifs at hdone
        exact honce hfirst other envelope' result hdone
      | @answer caller _ _ _ =>
        refine ⟨hrecalls, ?_⟩
        intro hfirst other envelope' result hdone
        rw [Atomic.moved_call] at hdone
        split_ifs at hdone
        exact honce hfirst other envelope' result hdone
      | load _ => exact ⟨hrecalls, honce⟩
      | @execute caller envelope' fault _ =>
        refine ⟨hrecalls.later hstanding (.execute _ fault envelope'), ?_⟩
        intro hfirst other envelope₁ result hdone
        rw [Atomic.moved_call] at hdone
        split_ifs at hdone
        · obtain ⟨rfl, hanswer⟩ := Call.done.inj hdone
          exact (FileService.execute_fresh hrecalls hanswer).symm
        · exact honce hfirst other envelope₁ result hdone
      | crash hrestart =>
        refine ⟨hrecalls.later hstanding (.restart hrestart), ?_⟩
        intro _ other envelope' result hdone
        cases hdone

/-- An answer is remembered from its return on. -/
theorem Atomic.Sound.remembers_emitted (h : atomic.Sound limits) {seen : Occurrence T}
    (hstep : Atomic.Step limits atomic (some seen) next) : next.Remembers seen := by
  cases hstep with
  | call _ _ _ => trivial
  | load _ => exact ReflTransGen.refl
  | crash _ => trivial
  | @answer thread envelope answer hdone =>
    cases answer with
    | error failure => trivial
    | ok receipt =>
      obtain ⟨result, replay⟩ := receipt
      refine ⟨h.recalls thread envelope _ hdone, ?_⟩
      rintro rfl other envelope' result' hother
      rw [Atomic.moved_call] at hother
      split_ifs at hother with hne
      exact h.once other thread _ _ _ _ hne hother hdone

/-- What the service remembers binds what is seen next. -/
theorem Atomic.Sound.before (h : atomic.Sound limits) {earlier later : Occurrence T}
    (hearlier : atomic.Remembers earlier) (hstep : Atomic.Step limits atomic (some later) next) :
    earlier.Before later := by
  obtain ⟨_, _, _, hstanding⟩ := h.stands
  cases earlier with
  | called _ _ => trivial
  | crashed => trivial
  | loaded reader snapshot =>
    cases hstep with
    | load _ => exact hearlier
    | call _ _ _ => trivial
    | answer _ => trivial
    | crash _ => trivial
  | returned thread envelope answer =>
    cases answer with
    | error failure => trivial
    | ok receipt =>
      obtain ⟨hrecalls, honce⟩ := hearlier
      cases hstep with
      | load _ => exact hstanding.version_le hrecalls
      | call _ _ _ => trivial
      | crash _ => trivial
      | @answer caller envelope' answer' hdone =>
        cases answer' with
        | error failure => trivial
        | ok receipt' =>
          intro hid
          obtain ⟨henvelope, hresult⟩ := hrecalls.unique (h.recalls _ _ _ hdone) hid
          refine ⟨henvelope, hresult, ?_⟩
          -- Two first answers under one identifier were never given.
          by_contra hboth
          rw [not_or, Bool.not_eq_true, Bool.not_eq_true] at hboth
          obtain ⟨result', replay'⟩ := receipt'
          obtain rfl : replay' = false := hboth.2
          exact honce hboth.1 caller envelope' result' hdone hid.symm

end Observations

/-- Over any bytes that the service comes up on, any interleaving of its threads
and any crashes and restarts: each snapshot that a reader loads is reached by
operations from every snapshot loaded before it; it is no older than the version
of any result answered before it; and of two answers with success under one
identifier, both are for the same command with the same result, and one of them
is a replay. -/
theorem observations_are_consistent {T : Type} [DecidableEq T] (limits : LimitHierarchy)
    (bytes : Bytes) (first : FileService)
    (h : CommandService.create (some (FileJournalStore.opened bytes)) limits = .ok first)
    (trace : List (Occurrence T)) (process : Process T)
    (hrun : Run (Process.Step limits) (Process.started T first) trace process) :
    trace.Pairwise Occurrence.Before := by
  obtain ⟨atomic, hatomic, _⟩ := Process.step_matched.run (Process.started_follows first) hrun
  have hsound : (Atomic.started T first).Sound limits := by
    refine ⟨Atomic.started_stands h, ?_, ?_⟩
    · intro thread envelope receipt hdone
      cases hdone
    · intro thread other envelope envelope' result result' _ hdone
      cases hdone
  have hkeep : ∀ (s : Atomic T) event t seen, s.Sound limits → Atomic.Step limits s event t →
      s.Remembers seen → t.Remembers seen := fun _ _ _ _ hs hstep hseen =>
    hs.remembers_step hseen hstep
  exact hatomic.pairwise hsound (fun _ _ _ hs hstep => hs.step hstep)
    (fun _ _ _ hs hstep => hs.remembers_emitted hstep) hkeep
    (fun _ _ _ _ hs hseen hstep => hs.before hseen hstep)

/-- A reader, the crash of a booking that was appended and not published, and a reader
of the next process, which sees the trade. -/
theorem observations_are_consistent_crash : ∃ restarted : FileService,
    Run (Process.Step ⟨∅⟩) (Process.started Bool (FileService.fresh ⟨∅⟩))
      [.called true ⟨sampleId .command, .bookTrade ⟨sampleId .trade, sampleId .book,
          sampleId .counterparty, sampleId .nettingSet, sampleTerms⟩⟩,
        .loaded false (State.initial ⟨∅⟩), .crashed, .loaded true restarted.snapshot]
      (Process.started Bool restarted) ∧
    restarted.snapshot.version = 1 ∧
    ReflTransGen State.Step (State.initial ⟨∅⟩) restarted.snapshot := by
  let envelope : CommandEnvelope := ⟨sampleId .command, .bookTrade ⟨sampleId .trade,
    sampleId .book, sampleId .counterparty, sampleId .nettingSet, sampleTerms⟩⟩
  have hversion : ((FileService.fresh ⟨∅⟩).execute envelope).2.snapshot.version = 1 := by
    decide +kernel
  have hwritable : ((FileService.fresh ⟨∅⟩).execute envelope).2.store.writable = true := by
    decide +kernel
  obtain ⟨process, hbytes, hsnapshot, happended⟩ :=
    @fresh_run_to_append envelope (by decide +kernel)
  -- The crash leaves the file that the finished command leaves.
  obtain ⟨_, _, hfirst⟩ := FileService.standing_of_create (FileService.create_fresh ⟨∅⟩)
  obtain ⟨_, _, _, _, hafter⟩ := hfirst.execute envelope
  obtain rfl := hafter.tail_nil hwritable
  have hrestart := hafter.restart_whole
  rw [FileService.restart, ← hbytes] at hrestart
  have hload : Process.Step ⟨∅⟩ process (some (.loaded false process.service.snapshot)) process :=
    .load false
  have hcrash : Process.Step ⟨∅⟩ process (some .crashed) (Process.started Bool _) :=
    .crash (Or.inl rfl) hrestart
  rw [hsnapshot] at hload
  have hrun := happended.trans ((Run.single hload).trans
    ((Run.single hcrash).trans (Run.single (.load true))))
  have hpairs := observations_are_consistent ⟨∅⟩ [] _ (FileService.create_fresh ⟨∅⟩) _ _ hrun
  simp only [Option.toList_some, List.cons_append, List.nil_append, List.pairwise_cons] at hpairs
  exact ⟨_, hrun, hversion, hpairs.2.1 (.loaded true _) (by simp [Process.started])⟩

end Backbook
