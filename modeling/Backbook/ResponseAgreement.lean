import Backbook.BrowserViews
import Backbook.ReachableStates

namespace Backbook

open JsonTree DecimalText
open Browser (Decoded decodeMoney)

section Reads

variable {isRealDay : Bytes → Bool} {definitions : List LimitDefinition} {limits : LimitHierarchy}
  {state : State} {fingerprint : UInt64}

theorem readEnvelope_decodes {δ : Type} {decodeData : Json → Bytes → Decoded δ} {data : Json}
    {view : δ} (hf : stateFingerprint state = .ok fingerprint)
    (hd : ∀ path, decodeData data path = .ok view) : ∃ tree, readEnvelope state data = .ok tree ∧
      Browser.decodeEnvelope tree decodeData = .ok (state.envelopeView fingerprint view) := by
  have htext : ∀ path, Browser.decodeFingerprint (.string (fingerprintText fingerprint)) path =
      .ok (fingerprintText fingerprint) :=
    patternText_string (fingerprintPattern_text fingerprint) _
  refine ⟨envelopeJson state.version fingerprint data, by rw [readEnvelope, hf], ?_⟩
  obtain ⟨hrecord, hfields⟩ :=
    record_fields (rfl : envelopeJson state.version fingerprint data = _) (of_decide_eq_true rfl)
  simp only [List.forall_mem_cons] at hfields
  simp only [Browser.decodeEnvelope, hrecord, Outcome.ok_bind, Browser.field, Browser.member,
    hfields, decodeRevision_stateVersionJson, htext, hd, State.envelopeView]

theorem decodeStateData_json (hday : ∀ date : IsoDate, isRealDay date.toString = true)
    (hc : LimitHierarchy.create definitions = .ok limits) (h : state.Reachable limits)
    (path : Bytes) :
    Browser.decodeStateData isRealDay (stateDataJson state) path = .ok state.dataView := by
  have htrades : ∀ path, Browser.decodeArray (Browser.decodeTrade isRealDay)
      (.array (state.trades.toList.map fun stored => tradeJson stored.2)) path =
        .ok (state.trades.toList.map fun stored => stored.2.view) :=
    decodeArray_map fun stored _ => decodeTrade_tradeJson hday stored.2
  have hlimits : ∀ path, Browser.decodeArray Browser.decodeLimit
      (.array (state.limits.snapshots.map limitJson)) path =
        .ok (state.limits.snapshots.map LimitBalanceSnapshot.view) :=
    decodeArray_map fun _ hb => decodeLimit_limitJson (h.snapshot_within hc hb)
  obtain ⟨hrecord, hfields⟩ := record_fields (rfl : stateDataJson state = _) (of_decide_eq_true rfl)
  simp only [List.forall_mem_cons] at hfields
  simp only [Browser.decodeStateData, hrecord, Outcome.ok_bind, Browser.field, Browser.member,
    hfields, htrades, hlimits, State.dataView]

theorem decodeLedgerData_json (hs : state.Coherent) (path : Bytes) :
    Browser.decodeLedgerData (ledgerDataJson (reportedCurrencies.map state.ledgerTotals.total)
      state.ledgerEntries) path = .ok state.ledgerView := by
  have htotals : ∀ path, Browser.decodeArray decodeMoney
      (.array ((reportedCurrencies.map state.ledgerTotals.total).map moneyJson)) path =
        .ok ((reportedCurrencies.map state.ledgerTotals.total).map Money.view) :=
    decodeArray_map fun money _ => decodeMoney_moneyJson money
  have hentries : ∀ path, Browser.decodeArray Browser.decodeLedgerEntry
      (.array (state.ledgerEntries.mapIdx entryJson)) path =
        .ok (state.ledgerEntries.mapIdx LedgerEntry.view) :=
    decodeArray_mapIdx fun index entry _ => decodeLedgerEntry_entryJson index entry
  obtain ⟨hrecord, hfields⟩ := record_fields
    (rfl : ledgerDataJson (reportedCurrencies.map state.ledgerTotals.total)
      state.ledgerEntries = _) (of_decide_eq_true rfl)
  simp only [List.forall_mem_cons] at hfields
  simp only [Browser.decodeLedgerData, hrecord, Outcome.ok_bind, Browser.field, Browser.member,
    hfields, Browser.booleanValue, htotals, hentries, State.ledgerView]
  -- Balanced entries leave every total at zero.
  rw [hs.totals]
  rfl

theorem decodeSettlementData_json (hday : ∀ date : IsoDate, isRealDay date.toString = true)
    (state : State) (path : Bytes) :
    Browser.decodeSettlementData isRealDay (settlementDataJson state.settlements) path =
      .ok state.settlementsView := by
  have hobligations : ∀ path, Browser.decodeArray (Browser.decodeObligation isRealDay)
      (.array (state.settlements.map obligationJson)) path =
        .ok (state.settlements.map SettlementObligation.view) :=
    decodeArray_map fun obligation _ => decodeObligation_obligationJson hday obligation
  obtain ⟨hrecord, hfields⟩ :=
    record_fields (rfl : settlementDataJson state.settlements = _) (of_decide_eq_true rfl)
  simp only [List.forall_mem_cons] at hfields
  simp only [Browser.decodeSettlementData, hrecord, Outcome.ok_bind, Browser.field, Browser.member,
    hfields, hobligations, State.settlementsView]

theorem combineSnapshots_views :
    Browser.combineSnapshots (state.envelopeView fingerprint state.dataView)
      (state.envelopeView fingerprint state.ledgerView)
      (state.envelopeView fingerprint state.settlementsView) = .ok (state.dashboard fingerprint) :=
  if_neg (by simp [State.envelopeView])

end Reads

section Commands

variable {isRealDay : Bytes → Bool}

/-- What stands around the result of a command. -/
theorem commandResponse_fields (idempotentReplay : Bool) (result : Json) :
    (∀ path, Browser.record (commandResponseJson idempotentReplay result) path =
      .ok (commandResponseJson idempotentReplay result)) ∧
    (commandResponseJson idempotentReplay result).find (asciiBytes "idempotentReplay") =
      some (.boolean idempotentReplay) ∧
    (commandResponseJson idempotentReplay result).find (asciiBytes "result") = some result := by
  obtain ⟨hrecord, hfields⟩ := record_fields
    (rfl : commandResponseJson idempotentReplay result = _) (of_decide_eq_true rfl)
  simp only [List.forall_mem_cons] at hfields
  exact ⟨hrecord, hfields.1, hfields.2.1⟩

theorem decodeCommandResponse_versioned {type : Bytes} {shown : Browser.VersionedResult}
    (hlookup : Browser.versionedResults.lookup type = some shown) (idempotentReplay : Bool)
    (tradeId : TradeId) (version : UInt32) (stateVersion : UInt64) :
    Browser.decodeCommandResponse isRealDay (commandResponseJson idempotentReplay
      (versionedResultJson type tradeId version stateVersion)) = .ok ⟨idempotentReplay,
        .versioned shown tradeId.value (versionText version) (stateVersionText stateVersion)⟩ := by
  obtain ⟨hrecord, hreplay, hinner⟩ := commandResponse_fields idempotentReplay
    (versionedResultJson type tradeId version stateVersion)
  obtain ⟨hresult, hmembers⟩ := record_fields
    (rfl : versionedResultJson type tradeId version stateVersion = _) (of_decide_eq_true rfl)
  simp only [List.forall_mem_cons, idJson] at hmembers
  simp only [Browser.decodeCommandResponse, hrecord, hreplay, hinner, hresult, Outcome.ok_bind,
    Browser.field, Browser.member, hmembers, Browser.stringValue, decodeRevision_stateVersionJson,
    hlookup, Browser.booleanValue, Browser.decodeTradeId, identifier_value,
    decodeRevision_versionJson]

theorem decodeCommandResponse_amended (idempotentReplay : Bool) (value : TradeAmendedResult) :
    Browser.decodeCommandResponse isRealDay
      (commandResponseJson idempotentReplay (commandResultJson (.tradeAmended value))) =
        .ok ⟨idempotentReplay, (CommandResult.tradeAmended value).view⟩ := by
  have hlookup : Browser.versionedResults.lookup (asciiBytes "TRADE_AMENDED") = none := rfl
  obtain ⟨hrecord, hreplay, hinner⟩ :=
    commandResponse_fields idempotentReplay (commandResultJson (.tradeAmended value))
  obtain ⟨hresult, hmembers⟩ :=
    record_fields (rfl : commandResultJson (.tradeAmended value) = _) (of_decide_eq_true rfl)
  simp only [List.forall_mem_cons, idJson] at hmembers
  simp only [Browser.decodeCommandResponse, hrecord, hreplay, hinner, hresult, Outcome.ok_bind,
    Browser.field, Browser.member, hmembers, Browser.stringValue, decodeRevision_stateVersionJson,
    hlookup, if_true, Browser.booleanValue, Browser.decodeTradeId, identifier_value,
    decodeRevision_versionJson, CommandResult.view]

theorem decodeCommandResponse_eodRun (hday : ∀ date : IsoDate, isRealDay date.toString = true)
    (idempotentReplay : Bool) (value : EodRunResult) :
    Browser.decodeCommandResponse isRealDay
      (commandResponseJson idempotentReplay (commandResultJson (.eodRun value))) =
        .ok ⟨idempotentReplay, (CommandResult.eodRun value).view⟩ := by
  have hlookup : Browser.versionedResults.lookup (asciiBytes "EOD_RUN") = none := rfl
  have hne : asciiBytes "EOD_RUN" ≠ asciiBytes "TRADE_AMENDED" := by decide
  obtain ⟨hrecord, hreplay, hinner⟩ :=
    commandResponse_fields idempotentReplay (commandResultJson (.eodRun value))
  obtain ⟨hresult, hmembers⟩ :=
    record_fields (rfl : commandResultJson (.eodRun value) = _) (of_decide_eq_true rfl)
  simp only [List.forall_mem_cons] at hmembers
  simp only [Browser.decodeCommandResponse, hrecord, hreplay, hinner, hresult, Outcome.ok_bind,
    Browser.field, Browser.member, hmembers, Browser.stringValue, decodeRevision_stateVersionJson,
    hlookup, hne, if_true, if_false, Browser.booleanValue, decodeIsoDate_toString hday,
    decodeRevision_versionJson, CommandResult.view]

theorem decodeCommandResponse_json (hday : ∀ date : IsoDate, isRealDay date.toString = true)
    (receipt : CommandReceipt) :
    Browser.decodeCommandResponse isRealDay (encodeCommandResponse receipt) = .ok receipt.view := by
  obtain ⟨result, idempotentReplay⟩ := receipt
  cases result with
  | tradeBooked value => exact decodeCommandResponse_versioned rfl _ _ _ _
  | tradeConfirmed value => exact decodeCommandResponse_versioned rfl _ _ _ _
  | tradeAmended value => exact decodeCommandResponse_amended _ value
  | tradeCancelled value => exact decodeCommandResponse_versioned rfl _ _ _ _
  | eodRun value => exact decodeCommandResponse_eodRun hday _ value

end Commands

theorem optionalField_map {α β : Type} {decode : Json → Bytes → Decoded β} {json : α → Json}
    {view : α → β} {source : Json} {name : Bytes} {value : Option α}
    (hd : ∀ a path, decode (json a) path = .ok (view a)) (hf : source.find name = value.map json)
    (path : Bytes) : Browser.optionalField decode source name path = .ok (value.map view) := by
  unfold Browser.optionalField
  rw [hf]
  cases value with
  | none => rfl
  | some a =>
    simp only [Option.map_some, hd]
    rfl

theorem decodeViolation_json (violation : FieldViolation) (path : Bytes) :
    Browser.decodeViolation (violationJson violation) path = .ok violation := by
  obtain ⟨hrecord, hfields⟩ :=
    record_fields (rfl : violationJson violation = _) (of_decide_eq_true rfl)
  simp only [List.forall_mem_cons] at hfields
  simp only [Browser.decodeViolation, hrecord, Outcome.ok_bind, Browser.field, Browser.member,
    hfields, Browser.stringValue]

theorem decodeViolations_json (violations : List FieldViolation) (path : Bytes) :
    Browser.decodeArray Browser.decodeViolation (.array (violations.map violationJson)) path =
      .ok violations := by
  have h : Browser.decodeArray Browser.decodeViolation (.array (violations.map violationJson))
      path = .ok (violations.map id) := decodeArray_map (fun v _ => decodeViolation_json v) path
  rwa [List.map_id] at h

theorem integerValue_status (status : Int32) (path : Bytes) :
    Browser.integerValue (.numberInteger status.toInt) path = .ok status.toInt := by
  have hsafe : Browser.isSafeInteger status.toInt = true := by
    have hlow := Int32.le_toInt status
    have hhigh := Int32.toInt_lt status
    unfold Browser.isSafeInteger
    rw [decide_eq_true_eq]
    omega
  simp [Browser.integerValue, Option.filter, hsafe]

theorem decodeProblem_json (problem : ProblemDetails) :
    Browser.decodeProblem (encodeProblemResponse problem) = .ok problem.view := by
  obtain ⟨hrecord, hfields⟩ :=
    record_fields (rfl : encodeProblemResponse problem = _) (of_decide_eq_true rfl)
  simp only [List.forall_mem_cons] at hfields
  obtain ⟨htype, htitle, hstatus, hdetail, hcode, hviolations, hexpected, hactual, hpath, hcurrency,
    hrequired, hremaining, -⟩ := hfields
  simp only [Browser.decodeProblem, hrecord, Outcome.ok_bind, Browser.field, Browser.member, htype,
    htitle, hstatus, hdetail, hcode, Browser.stringValue, integerValue_status,
    decodeProblemCode_name, optionalField_map decodeViolations_json hviolations,
    optionalField_map (fun v path => decodeRevision_versionJson path v) hexpected,
    optionalField_map (fun v path => decodeRevision_versionJson path v) hactual,
    optionalField_map (fun v path => decodeTexts_json path v) hpath,
    optionalField_map (fun b path => decodeCurrency_text path b.1) hcurrency,
    optionalField_map (fun b path => decodeMoney_unitsJson b.1 b.2.1 path) hrequired,
    optionalField_map (fun b path => decodeMoney_unitsJson b.1 b.2.2 path) hremaining,
    Option.map_id_fun', id_eq, ProblemDetails.view]

def RecoversDetails (problem : Browser.ProblemDetails) : CommandServiceError → Prop
  | .domainRejected (.versionConflict expectedVersion actualVersion) =>
    problem.code = .versionConflict ∧ problem.expectedVersion = some (versionText expectedVersion) ∧
      problem.actualVersion = some (versionText actualVersion)
  | .domainRejected (.limitFailure breach) => breach.code = .breach →
    problem.code = .limitBreach ∧ problem.nodePath = some breach.node.pathComponents ∧
      problem.currency = some breach.currency ∧
      problem.required = some ⟨breach.currency, breach.requiredMinorUnits⟩ ∧
      problem.remaining = some ⟨breach.currency, breach.remainingMinorUnits⟩
  | _ => True

theorem recoversDetails_view (error : CommandServiceError) :
    RecoversDetails (problemFromServiceError error).view error := by
  unfold RecoversDetails
  split
  · exact ⟨rfl, rfl, rfl⟩
  · rename_i breach
    intro hbreach
    have heq : problemFromServiceError (.domainRejected (.limitFailure breach)) = _ :=
      if_pos hbreach
    rw [heq]
    exact ⟨rfl, rfl, rfl, rfl, rfl⟩
  · trivial

/-- The server's responses and the browser's decoders agree, for every state the
service can publish, every receipt and every error. -/
theorem server_responses_decode (isRealDay : Bytes → Bool)
    (hday : ∀ date : IsoDate, isRealDay date.toString = true) :
    (∀ (definitions : List LimitDefinition) (limits : LimitHierarchy) (state : State),
      LimitHierarchy.create definitions = .ok limits → state.Reachable limits →
      (∀ fingerprint, stateFingerprint state = .ok fingerprint →
        ∃ stateTree ledgerTree settlementsTree,
          encodeStateResponse state = .ok stateTree ∧
          Browser.decodeStateResponse isRealDay stateTree =
            .ok (state.envelopeView fingerprint state.dataView) ∧
          encodeLedgerResponse state = .ok ledgerTree ∧
          Browser.decodeLedgerResponse ledgerTree =
            .ok (state.envelopeView fingerprint state.ledgerView) ∧
          encodeSettlementsResponse state = .ok settlementsTree ∧
          Browser.decodeSettlementsResponse isRealDay settlementsTree =
            .ok (state.envelopeView fingerprint state.settlementsView) ∧
          Browser.combineSnapshots (state.envelopeView fingerprint state.dataView)
            (state.envelopeView fingerprint state.ledgerView)
            (state.envelopeView fingerprint state.settlementsView) =
              .ok (state.dashboard fingerprint)) ∧
      -- A state too large for a fingerprint has no response at all.
      ∀ e, stateFingerprint state = .error e →
        encodeStateResponse state = .error .fingerprintFailed ∧
        encodeLedgerResponse state = .error .fingerprintFailed ∧
        encodeSettlementsResponse state = .error .fingerprintFailed) ∧
    (∀ receipt, Browser.decodeCommandResponse isRealDay (encodeCommandResponse receipt) =
      .ok receipt.view) ∧
    ∀ error, ∃ problem,
      Browser.decodeProblem (encodeProblemResponse (problemFromServiceError error)) = .ok problem ∧
        problem = (problemFromServiceError error).view ∧ RecoversDetails problem error := by
  refine ⟨fun definitions limits state hc h => ⟨fun fingerprint hf => ?_, fun e he => ?_⟩,
    decodeCommandResponse_json hday, fun error => ?_⟩
  · obtain ⟨stateTree, hstate, hstate'⟩ :=
      readEnvelope_decodes hf (decodeStateData_json hday hc h)
    obtain ⟨ledgerTree, hledger, hledger'⟩ :=
      readEnvelope_decodes hf (decodeLedgerData_json h.coherent)
    obtain ⟨settlementsTree, hsettlements, hsettlements'⟩ :=
      readEnvelope_decodes hf (decodeSettlementData_json hday state)
    exact ⟨stateTree, ledgerTree, settlementsTree, hstate, hstate', hledger, hledger',
      hsettlements, hsettlements', combineSnapshots_views⟩
  · have hfails : ∀ data, readEnvelope state data = .error .fingerprintFailed := by
      intro data
      rw [readEnvelope, he]
    exact ⟨hfails _, hfails _, hfails _⟩
  · exact ⟨_, decodeProblem_json _, rfl, recoversDetails_view error⟩

theorem server_responses_decode_sample : ∃ limits state fingerprint tree,
    LimitHierarchy.create sampleDefinitions = .ok limits ∧ state.Reachable limits ∧
    state.ledgerEntries.length = 1 ∧ encodeStateResponse state = .ok tree ∧
    Browser.decodeStateResponse (fun text => (IsoDate.parse text).isOk) tree =
      .ok (state.envelopeView fingerprint state.dataView) := by
  have hrun : (do
      let limits ← (LimitHierarchy.create sampleDefinitions).mapError StateError.limitFailure
      let before ← Operation.apply (State.initial limits) sampleOperations[0]
      let state ← Operation.apply before sampleOperations[1]
      if state.ledgerEntries.length = 1 then
        (stateFingerprint state).mapError fun _ => StateError.tradeNotFound
      else .error StateError.tradeNotFound : Except StateError UInt64).isOk = true := by
    decide +kernel
  obtain ⟨fingerprint, h⟩ := ok_of_isOk hrun
  simp only [Outcome.bind_ok_iff, Outcome.mapError_ok_iff] at h
  obtain ⟨limits, hl, before, hb, state, hs, h⟩ := h
  split_ifs at h with hlen
  rw [Outcome.mapError_ok_iff] at h
  have hreachable : state.Reachable limits := .tail (.single ⟨_, hb⟩) ⟨_, hs⟩
  obtain ⟨hreads, -⟩ := server_responses_decode (fun text => (IsoDate.parse text).isOk)
    IsoDate.parse_toString_isOk
  obtain ⟨tree, _, _, htree, hdecode, _⟩ :=
    (hreads sampleDefinitions limits state hl hreachable).1 fingerprint h
  exact ⟨limits, state, fingerprint, tree, hl, hreachable, hlen, htree, hdecode⟩

end Backbook
