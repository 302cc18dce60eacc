import Backbook.TradeForms
import Backbook.RegisterRefinement

namespace Backbook

open JsonTree DecimalText

namespace Browser

def tradeKey (trade : Trade) : Bytes := trade.tradeId ++ ':'.toUInt8 :: trade.version

def selectedTrade (trades : List Trade) (selectedKey : Option Bytes) : Option Trade :=
  trades.find? fun trade => some (tradeKey trade) = selectedKey

def writesDisabled (connection : ConnectionStatus) (writePending : Bool) : Bool :=
  connection ≠ .live || writePending

def eodDisabled (writesDisabled : Bool) (eodDate : Option Bytes) : Bool :=
  writesDisabled || eodDate.isNone

end Browser

open Browser (tradeKey selectedTrade uuidPattern postingId identifierPattern
  newReversalPostingIds newConfirmationPostingIds TermsEntries amendRequest eodRequest
  latestConfirmedDate writesDisabled eodDisabled OnlyInsertsCommas)

/-- What stands before the first separator is determined by the text. -/
theorem split_at_first {α : Type*} {separator : α} {front front' back back' : List α}
    (hfront : separator ∉ front) (hfront' : separator ∉ front')
    (h : front ++ separator :: back = front' ++ separator :: back') :
    front = front' ∧ back = back' := by
  induction front generalizing front' with
  | nil =>
    cases front' with
    | nil => exact ⟨rfl, (List.cons.inj h).2⟩
    | cons a rest =>
      have hhead : separator = a := (List.cons.inj h).1
      exact absurd (hhead ▸ List.mem_cons_self) hfront'
  | cons a rest ih =>
    cases front' with
    | nil =>
      have hhead : a = separator := (List.cons.inj h).1
      exact absurd (hhead ▸ List.mem_cons_self) hfront
    | cons b rest' =>
      obtain ⟨rfl, htail⟩ := List.cons.inj h
      obtain ⟨rfl, hback⟩ := ih (fun hmem => hfront (List.mem_cons_of_mem _ hmem))
        (fun hmem => hfront' (List.mem_cons_of_mem _ hmem)) htail
      exact ⟨rfl, hback⟩

/-- The separator is no digit, so a key tells the identifier from the version. -/
theorem key_of_tradeKey {a b : Trade} (h : tradeKey a.view = tradeKey b.view) : a.key = b.key := by
  have hcolon (version : UInt32) : ':'.toUInt8 ∉ versionText version := by
    intro hmem
    have hdigit := numeral_digits _ hmem
    contradiction
  have hreversed := congrArg List.reverse h
  simp only [tradeKey, List.reverse_append, List.reverse_cons, List.append_assoc,
    List.singleton_append] at hreversed
  -- Read from the end, the version stands before the first separator.
  obtain ⟨hversion, hid⟩ := split_at_first (fun hmem => hcolon _ (List.mem_reverse.mp hmem))
    (fun hmem => hcolon _ (List.mem_reverse.mp hmem)) hreversed
  have hnumber : a.version.toNat = b.version.toNat :=
    numeral_injective (List.reverse_injective hversion)
  simp only [Trade.key, TradeVersionKey.mk.injEq]
  exact ⟨Id.ext (List.reverse_injective hid), UInt32.toNat_inj.mp hnumber⟩

theorem State.mem_dataView {state : State} {row : Browser.Trade} :
    row ∈ state.dataView.trades ↔ ∃ trade ∈ state.register.versions, trade.view = row := by
  simp only [State.dataView, State.register, KeyedMap.values, List.mem_map, List.mem_toFinset]
  constructor
  · rintro ⟨stored, hmem, rfl⟩
    exact ⟨_, ⟨stored, hmem, rfl⟩, rfl⟩
  · rintro ⟨_, ⟨stored, hmem, rfl⟩, rfl⟩
    exact ⟨stored, hmem, rfl⟩

theorem selectedTrade_dataView {state : State} {selectedKey : Option Bytes} {row : Browser.Trade}
    (h : selectedTrade state.dataView.trades selectedKey = some row) :
    selectedKey = some (tradeKey row) ∧ ∃ trade ∈ state.register.versions, trade.view = row := by
  have hkey := List.find?_some h
  refine ⟨(of_decide_eq_true hkey).symm, ?_⟩
  exact State.mem_dataView.mp (List.mem_of_find?_eq_some h)

def UniqueRows (trades : List Browser.Trade) : Prop :=
  ∀ row ∈ trades, ∀ other ∈ trades, tradeKey row = tradeKey other → row = other

theorem State.Coherent.uniqueRows {state : State} (hs : state.Coherent) :
    UniqueRows state.dataView.trades := by
  intro row hrow other hother hkey
  obtain ⟨trade, hmem, rfl⟩ := State.mem_dataView.mp hrow
  obtain ⟨trade', hmem', rfl⟩ := State.mem_dataView.mp hother
  rw [hs.chain.carries.eq_of_key_eq hmem hmem' (key_of_tradeKey hkey)]

/-- A posting identifier is drawn for every scope and suffix of the console. -/
theorem exists_postingId {scope : Bytes} (hscope : uuidPattern scope = true) (suffix : Bytes)
    (hsuffix : suffix.length = 3) (hletters : suffix.all isValidIdCharacter = true) :
    ∃ id : PostingId, id.value = asciiBytes "P-" ++ scope ++ asciiBytes "-" ++ suffix ∧
      postingId scope suffix = .ok id.value := by
  obtain ⟨hlength, hall⟩ := Browser.uuid_letters hscope
  have hpattern : identifierPattern (asciiBytes "P-" ++ scope ++ asciiBytes "-" ++ suffix) =
      true := by
    have hfirst : isAsciiAlphanumeric 'P'.toUInt8 = true := by decide
    have hdash : isValidIdCharacter '-'.toUInt8 = true := by decide
    have htext : asciiBytes "P-" ++ scope ++ asciiBytes "-" ++ suffix =
        'P'.toUInt8 :: '-'.toUInt8 :: (scope ++ '-'.toUInt8 :: suffix) := by
      simp [asciiBytes]
    rw [htext, identifierPattern, hfirst]
    simp only [List.all_cons, List.all_append, hdash, List.all_eq_true.mpr hall, hletters,
      List.length_cons, List.length_append, hlength, hsuffix]
    decide
  let drawn : PostingId := ⟨_, validateId_of_pattern hpattern⟩
  have hparse : Id.parse .posting drawn.value = .ok drawn := Id.parse_ok_iff.mpr rfl
  exact ⟨drawn, rfl, identifier_value_iff.mpr hparse⟩

def postingText (scope suffix : Bytes) : Bytes :=
  asciiBytes "P-" ++ scope ++ asciiBytes "-" ++ suffix

theorem exists_reversalIds {scope : Bytes} (hscope : uuidPattern scope = true) :
    ∃ ids : ReversalPostingIds, newReversalPostingIds scope = .ok ids.texts ∧
      ids.toList.map Id.value =
        [asciiBytes "PCC", asciiBytes "PPD", asciiBytes "RRC", asciiBytes "RCD"].map
          (postingText scope) := by
  obtain ⟨a, hva, ha⟩ := exists_postingId hscope "PCC" rfl (by decide)
  obtain ⟨b, hvb, hb⟩ := exists_postingId hscope "PPD" rfl (by decide)
  obtain ⟨c, hvc, hc⟩ := exists_postingId hscope "RRC" rfl (by decide)
  obtain ⟨d, hvd, hd⟩ := exists_postingId hscope "RCD" rfl (by decide)
  refine ⟨⟨a, b, c, d⟩, ?_, ?_⟩
  · simp only [newReversalPostingIds, ha, hb, hc, hd, Outcome.ok_bind]
    rfl
  · simp only [ReversalPostingIds.toList, List.map_cons, List.map_nil, hva, hvb, hvc, hvd]
    rfl

theorem exists_confirmationIds {scope : Bytes} (hscope : uuidPattern scope = true) :
    ∃ ids : ConfirmationPostingIds, newConfirmationPostingIds scope = .ok ids.texts ∧
      ids.toList.map Id.value =
        [asciiBytes "PCD", asciiBytes "PPC", asciiBytes "RRD", asciiBytes "RCC"].map
          (postingText scope) := by
  obtain ⟨a, hva, ha⟩ := exists_postingId hscope "PCD" rfl (by decide)
  obtain ⟨b, hvb, hb⟩ := exists_postingId hscope "PPC" rfl (by decide)
  obtain ⟨c, hvc, hc⟩ := exists_postingId hscope "RRD" rfl (by decide)
  obtain ⟨d, hvd, hd⟩ := exists_postingId hscope "RCC" rfl (by decide)
  refine ⟨⟨a, b, c, d⟩, ?_, ?_⟩
  · simp only [newConfirmationPostingIds, ha, hb, hc, hd, Outcome.ok_bind]
    rfl
  · simp only [ConfirmationPostingIds.toList, List.map_cons, List.map_nil, hva, hvb, hvc, hvd]
    rfl

/-- The suffixes alone keep the eight identifiers of an amendment apart. -/
theorem drawn_nodup {scope scope' : Bytes} {reversalIds : ReversalPostingIds}
    {ids : ConfirmationPostingIds}
    (hr : reversalIds.toList.map Id.value =
      [asciiBytes "PCC", asciiBytes "PPD", asciiBytes "RRC", asciiBytes "RCD"].map
        (postingText scope))
    (hc : ids.toList.map Id.value =
      [asciiBytes "PCD", asciiBytes "PPC", asciiBytes "RRD", asciiBytes "RCC"].map
        (postingText scope')) : (reversalIds.toList ++ ids.toList).Nodup := by
  have hlast (scope suffix : Bytes) (h : suffix.length = 3) :
      (postingText scope suffix).reverse.take 3 = suffix.reverse := by
    rw [postingText, List.reverse_append, List.take_left' (by simpa using h)]
  have hends : (reversalIds.toList ++ ids.toList).map (fun id => id.value.reverse.take 3) =
      [asciiBytes "PCC", asciiBytes "PPD", asciiBytes "RRC", asciiBytes "RCD", asciiBytes "PCD",
        asciiBytes "PPC", asciiBytes "RRD", asciiBytes "RCC"].map List.reverse := by
    have hmap (list : List PostingId) : list.map (fun id => id.value.reverse.take 3) =
        (list.map Id.value).map (fun text => text.reverse.take 3) := by
      rw [List.map_map]
      rfl
    rw [List.map_append, hmap, hmap, hr, hc]
    simp (disch := decide) only [List.map_cons, List.map_nil, hlast]
    rfl
  apply List.Nodup.of_map fun id : PostingId => id.value.reverse.take 3
  rw [hends]
  decide

section Amending

variable {definitions : List LimitDefinition} {limits : LimitHierarchy} {state : State}
  {trade : Trade}

/-- With fresh identifiers, counters and room decide about an amendment. -/
theorem amendTrade_accepted_iff (hc : LimitHierarchy.create definitions = .ok limits)
    (hr : state.Reachable limits) (ht : state.trades[trade.key]? = some trade)
    (hst : trade.state = .confirmed) {reversalIds : ReversalPostingIds}
    {ids : ConfirmationPostingIds}
    (hids : state.register.Unspent (reversalIds.toList ++ ids.toList)) (terms : FxTerms) :
    (∃ next, amendTrade state trade.id trade.version terms reversalIds ids = .ok next) ↔
      trade.version ≠ 4294967295 ∧ state.version ≠ 18446744073709551615 ∧
        Register.Room { state.register with versions := state.register.versions.erase trade }
          limits.capacityAt trade.limitPath terms.pay := by
  have hs := hr.coherent
  have hh := hr.headroom hc
  have hcur : state.register.Current trade.id trade.version trade :=
    hs.current ht (by simp [hst])
  constructor
  · rintro ⟨next, hok⟩
    obtain ⟨_, _, _, _, _, _, _, _, _, hrun⟩ := amendTrade_ok hs.chain hok
    have htakes := amendTrade_takes hs hh hok
    refine ⟨hrun.key_ne, hrun.version_ne, ?_⟩
    generalize next.register = register at htakes
    cases htakes with
    | @amend _ _ _ _ _ other _ _ _ hcur' _ _ _ _ hroom _ _ _ =>
      have hsame : other = trade := by
        have hstored := (State.current_register_iff hs.chain).mp hcur'
        exact Option.some.inj (hstored.2.symm.trans ht)
      rw [hsame] at hroom
      exact hroom
  · rintro ⟨hversion, hcount, hroom⟩
    exact amendTrade_accepts hs hh hcount hcur hst hversion hroom hids

/-- A confirmed version has room for its own terms. -/
theorem room_for_own_terms (hc : LimitHierarchy.create definitions = .ok limits)
    (hr : state.Reachable limits) (ht : state.trades[trade.key]? = some trade)
    (hst : trade.state = .confirmed) :
    Register.Room { state.register with versions := state.register.versions.erase trade }
      limits.capacityAt trade.limitPath trade.terms.pay := by
  have hs := hr.coherent
  have hh := hr.headroom hc
  intro node hnode
  obtain ⟨released, hrel⟩ := State.release_ok hh ht hst
  obtain ⟨_, hnodes, _⟩ := LimitHierarchy.release_ok_iff.mp hrel
  obtain ⟨found, hfound, _⟩ := hnodes node hnode
  have hcapacity : limits.capacityAt ⟨node, trade.terms.pay.currency⟩ = some found.capacity := by
    have hkept : state.limits.capacityAt ⟨node, trade.terms.pay.currency⟩ = _ := hh.capacity _
    rw [← hkept, LimitHierarchy.capacityAt, hfound, Option.map_some]
  refine ⟨found.capacity, hcapacity, ?_⟩
  -- The others and the version itself are what the node reserves now.
  have hmem : trade ∈ state.register.versions := State.register_of_stored ht
  have hown : trade.exposure ⟨node, trade.terms.pay.currency⟩ = trade.terms.pay.minorUnits := by
    simp [Trade.exposure, hst, hnode]
  calc
    (∑ t ∈ state.register.versions.erase trade, t.exposure ⟨node, trade.terms.pay.currency⟩) +
        trade.terms.pay.minorUnits
      = ∑ t ∈ state.register.versions, t.exposure ⟨node, trade.terms.pay.currency⟩ := by
        rw [← hown]
        exact Finset.sum_erase_add _ _ hmem
    _ = state.limits.reservedAt ⟨node, trade.terms.pay.currency⟩ :=
        (State.reservedAt_eq hs hh _).symm
    _ = found.reserved := by
        rw [LimitHierarchy.reservedAt, hfound]
        rfl
    _ ≤ found.capacity := hh.within _ found hfound

def State.Undrawn (state : State) (scope : Bytes) : Prop :=
  ∀ entry ∈ state.ledgerEntries, ∀ posting ∈ entry.postings,
    ¬(asciiBytes "P-" ++ scope) <+: posting.id.value

theorem State.Undrawn.fresh {scope : Bytes} (h : state.Undrawn scope) {drawn : List PostingId}
    {suffixes : List Bytes} (hdrawn : drawn.map Id.value = suffixes.map (postingText scope))
    {entry : LedgerEntry} (he : entry ∈ state.ledgerEntries) {posting : Posting}
    (hp : posting ∈ entry.postings) : posting.id ∉ drawn := by
  intro hmem
  have hvalue : posting.id.value ∈ suffixes.map (postingText scope) :=
    hdrawn ▸ List.mem_map_of_mem hmem
  obtain ⟨suffix, _, htext⟩ := List.mem_map.mp hvalue
  apply h entry he posting hp
  rw [← htext, postingText, List.append_assoc]
  exact List.prefix_append _ _

/-- The dialog opens on the terms of the trade. -/
theorem opened_denotes {toLocaleString : ℤ → Bytes} (hlocale : OnlyInsertsCommas toLocaleString)
    (trade : Trade) : (TermsEntries.opened toLocaleString trade.view).Denotes trade.terms := by
  have hamount (money : Money) (hpos : 0 < money.minorUnits) :
      Money.parse money.currency (Browser.moneyInputValue toLocaleString money.view) =
        .ok money := by
    have hread := parsePositiveMoney_moneyInputValue hlocale
      (show 0 < money.view.minorUnits from hpos)
    exact (parsePositiveMoney_dto_iff.mp hread).1
  exact ⟨rfl, IsoDate.parse_toString _, IsoDate.parse_toString _, hamount _ trade.terms.pay_pos,
    hamount _ trade.terms.receive_pos⟩

/-- The amendment of a selected row. No two rows share a key, so the row is one
confirmed version, and the console draws eight different posting identifiers for it.
What the form holds is posted and understood just when the domain reads it as terms.
The state that is shown then accepts it just when there is room for the terms and the
counters are not exhausted. The dialog opens on the terms of the trade, for which
there is room. -/
theorem amendments_are_offered (hc : LimitHierarchy.create definitions = .ok limits)
    (hr : state.Reachable limits) {isRealDay : Bytes → Bool} (hday : RealDays isRealDay)
    {toLocaleString : ℤ → Bytes} (hlocale : OnlyInsertsCommas toLocaleString)
    (parse : Bytes → Option ParsedJson) (stringify : Browser.CommandRequest → Bytes)
    {selectedKey : Option Bytes} {row : Browser.Trade}
    (hselected : selectedTrade state.dataView.trades selectedKey = some row)
    (hconfirmed : row.state = .confirmed) (entries : TermsEntries) (commandId : CommandId)
    {scope scope' : Bytes} (hscope : uuidPattern scope = true) (hscope' : uuidPattern scope' = true)
    (hfresh : state.Undrawn scope) (hfresh' : state.Undrawn scope')
    (hwire : ∀ terms reversalIds ids, entries.submitAmend isRealDay = .ok (.ok terms) →
      newReversalPostingIds scope = .ok reversalIds → newConfirmationPostingIds scope' = .ok ids →
      parse (stringify (amendRequest commandId.value row terms reversalIds ids)) =
        some (amendRequest commandId.value row terms reversalIds ids).document) :
    UniqueRows state.dataView.trades ∧
    ∃ (trade : Trade) (reversalIds : ReversalPostingIds) (ids : ConfirmationPostingIds),
      (state.trades[trade.key]? = some trade ∧ trade.view = row ∧
        ∀ other ∈ state.dataView.trades, tradeKey other = tradeKey row → other = row) ∧
      newReversalPostingIds scope = .ok reversalIds.texts ∧
      newConfirmationPostingIds scope' = .ok ids.texts ∧
      (reversalIds.toList ++ ids.toList).Nodup ∧
      (∀ terms, (∃ request, entries.submitAmend isRealDay = .ok (.ok request) ∧
          decodeCommandRequest parse (stringify
            (amendRequest commandId.value row request reversalIds.texts ids.texts)) =
            .ok ⟨commandId, .amendTrade ⟨trade.id, trade.version, terms, reversalIds, ids⟩⟩) ↔
        entries.Denotes terms) ∧
      (∀ terms, (∃ next,
          amendTrade state trade.id trade.version terms reversalIds ids = .ok next) ↔
        trade.version ≠ 4294967295 ∧ state.version ≠ 18446744073709551615 ∧
          Register.Room { state.register with versions := state.register.versions.erase trade }
            limits.capacityAt trade.limitPath terms.pay) ∧
      (TermsEntries.opened toLocaleString row).Denotes trade.terms ∧
      Register.Room { state.register with versions := state.register.versions.erase trade }
        limits.capacityAt trade.limitPath trade.terms.pay := by
  have hs := hr.coherent
  obtain ⟨_, trade, hmem, rfl⟩ := selectedTrade_dataView hselected
  have ht : state.trades[trade.key]? = some trade := (State.mem_register hs.chain).mp hmem
  have hst : trade.state = .confirmed := hconfirmed
  obtain ⟨reversalIds, hreversal, hdrawn⟩ := exists_reversalIds hscope
  obtain ⟨ids, hids, hdrawn'⟩ := exists_confirmationIds hscope'
  have hunspent : state.register.Unspent (reversalIds.toList ++ ids.toList) := by
    refine ⟨drawn_nodup hdrawn hdrawn', ?_⟩
    intro entry he posting hp hspent
    have hledger := List.mem_toFinset.mp he
    rcases List.mem_append.mp hspent with hspent | hspent
    · exact hfresh.fresh hdrawn hledger hp hspent
    · exact hfresh'.fresh hdrawn' hledger hp hspent
  refine ⟨hs.uniqueRows, trade, reversalIds, ids, ⟨ht, rfl, ?_⟩, hreversal, hids, hunspent.1, ?_,
    amendTrade_accepted_iff hc hr ht hst hunspent, opened_denotes hlocale trade,
    room_for_own_terms hc hr ht hst⟩
  · intro other hother hkey
    exact hs.uniqueRows other hother _ (State.mem_dataView.mpr ⟨trade, hmem, rfl⟩) hkey
  · intro terms
    have hversioned : (Command.amendTrade
        ⟨trade.id, trade.version, terms, reversalIds, ids⟩).Versioned := by
      intro version hversion
      obtain rfl := Option.mem_some.mp hversion
      exact (hs.chain.stored_version ht).2
    have hdecodes : ∀ request, entries.submitAmend isRealDay = .ok (.ok request) →
        (decodeCommandRequest parse (stringify
          (amendRequest commandId.value trade.view request reversalIds.texts ids.texts)) =
            .ok ⟨commandId, .amendTrade ⟨trade.id, trade.version, terms, reversalIds, ids⟩⟩ ↔
          terms.request = request) := by
      intro request hsubmit
      rw [Browser.CommandRequest.decoded_iff (hwire _ _ _ hsubmit hreversal hids) hversioned]
      simp [amendRequest, Command.request, AmendTradeCommand.request, Trade.view]
    rw [← TermsEntries.submitAmend_iff hday]
    constructor
    · rintro ⟨request, hsubmit, hdecode⟩
      rw [(hdecodes request hsubmit).mp hdecode]
      exact hsubmit
    · intro hsubmit
      exact ⟨_, hsubmit, (hdecodes _ hsubmit).mpr rfl⟩

def sampleConfirmed : Trade :=
  { Trade.capture (sampleId .trade) (sampleId .book) (sampleId .counterparty)
      (sampleId .nettingSet) sampleTerms with state := .confirmed }

theorem sample_screen : ∃ limits state, LimitHierarchy.create sampleDefinitions = .ok limits ∧
    state.Reachable limits ∧
    selectedTrade state.dataView.trades (some "A:1") = some sampleConfirmed.view ∧
    state.ledgerEntries.flatMap (fun entry => entry.postings.map Posting.id) =
      samplePostingIds.toList ∧
    state.version ≠ 18446744073709551615 ∧
    latestConfirmedDate state.dataView.trades = some sampleDate.toString ∧
    ∃ next, runEod state sampleDate = .ok next := by
  have hrun : (do
      let limits ← (LimitHierarchy.create sampleDefinitions).mapError StateError.limitFailure
      let before ← Operation.apply (State.initial limits) sampleOperations[0]
      let state ← Operation.apply before sampleOperations[1]
      let next ← runEod state sampleDate
      if selectedTrade state.dataView.trades (some "A:1") = some sampleConfirmed.view ∧
          state.ledgerEntries.flatMap (fun entry => entry.postings.map Posting.id) =
            samplePostingIds.toList ∧
          state.version ≠ 18446744073709551615 ∧
          latestConfirmedDate state.dataView.trades = some sampleDate.toString then .ok next
      else .error StateError.tradeNotFound : Except StateError State).isOk = true := by
    decide +kernel
  obtain ⟨_, h⟩ := ok_of_isOk hrun
  simp only [Outcome.bind_ok_iff, Outcome.mapError_ok_iff] at h
  obtain ⟨limits, hl, before, hb, state, hs, next, hnext, h⟩ := h
  split_ifs at h with hscreen
  obtain ⟨hselected, hledger, hcount, hdate⟩ := hscreen
  have hr : state.Reachable limits := (Relation.ReflTransGen.refl.tail ⟨_, hb⟩).tail ⟨_, hs⟩
  exact ⟨limits, state, hl, hr, hselected, hledger, hcount, hdate, next, hnext⟩

def sampleScope : Bytes := "2e7d1b90-4c6a-4f12-9d3e-5a8b7c6d4e3f"

def sampleAmendBody : Bytes :=
  let reversal (name suffix : Bytes) : Bytes :=
    asciiBytes "\"" ++ name ++ asciiBytes "\":\"" ++ postingText Browser.sampleUuid suffix ++
      asciiBytes "\""
  let replacement (name suffix : Bytes) : Bytes :=
    asciiBytes "\"" ++ name ++ asciiBytes "\":\"" ++ postingText sampleScope suffix ++
      asciiBytes "\""
  asciiBytes "\x7b\"commandId\":\"C1\",\"type\":\"AMEND_TRADE\",\"expectedVersion\":\"1\"," ++
    asciiBytes "\"payload\":\x7b\"tradeId\":\"A\",\"replacementTerms\":\x7b\"kind\":\"FX_SPOT\"," ++
    asciiBytes "\"tradeDate\":\"2024-01-02\",\"valueDate\":\"2024-01-02\"," ++
    asciiBytes "\"pay\":\x7b\"currency\":\"USD\",\"minorUnits\":\"100\"\x7d," ++
    asciiBytes "\"receive\":\x7b\"currency\":\"JPY\",\"minorUnits\":\"15000\"\x7d\x7d," ++
    asciiBytes "\"reversalPostingIds\":\x7b" ++ reversal "payControlCredit" "PCC" ++
    asciiBytes "," ++ reversal "payPayableDebit" "PPD" ++ asciiBytes "," ++
    reversal "receiveReceivableCredit" "RRC" ++ asciiBytes "," ++
    reversal "receiveControlDebit" "RCD" ++
    asciiBytes "\x7d,\"replacementPostingIds\":\x7b" ++ replacement "payControlDebit" "PCD" ++
    asciiBytes "," ++ replacement "payPayableCredit" "PPC" ++ asciiBytes "," ++
    replacement "receiveReceivableDebit" "RRD" ++ asciiBytes "," ++
    replacement "receiveControlCredit" "RCC" ++ asciiBytes "\x7d\x7d\x7d"

/-- The dialog of the sample trade, sent back as it opens. -/
theorem amendments_are_offered_unchanged : ∃ (state next : State) (command : AmendTradeCommand)
    (parse : Bytes → Option ParsedJson),
    decodeCommandRequest parse sampleAmendBody =
      .ok ⟨⟨asciiBytes "C1", by decide⟩, .amendTrade command⟩ ∧
    amendTrade state command.tradeId command.expectedVersion command.replacementTerms
      command.reversalIds command.replacementPostingIds = .ok next := by
  obtain ⟨limits, state, hc, hr, hselected, hledger, hcount, _, _⟩ := sample_screen
  let entries := TermsEntries.opened enUsNumber sampleConfirmed.view
  have hscope : uuidPattern Browser.sampleUuid = true := by decide
  have hscope' : uuidPattern sampleScope = true := by decide
  -- The sample's posting identifiers are too short to have been drawn.
  have hundrawn : ∀ scope, uuidPattern scope = true → state.Undrawn scope := by
    intro scope huuid entry he posting hp hdrawn
    have hmem : posting.id ∈ samplePostingIds.toList :=
      hledger ▸ List.mem_flatMap.mpr ⟨entry, he, List.mem_map_of_mem hp⟩
    have hshort : ∀ id ∈ samplePostingIds.toList, id.value.length = 2 := by decide
    have hlength := hdrawn.length_le
    rw [List.length_append, (Browser.uuid_letters huuid).1, hshort _ hmem] at hlength
    omega
  have hsubmit : entries.submitAmend Browser.isGregorianDay = .ok (.ok sampleTerms.request) :=
    (TermsEntries.submitAmend_iff Browser.isGregorianDay_realDays).mpr
      (opened_denotes enUsNumber_onlyInsertsCommas sampleConfirmed)
  obtain ⟨reversalIds, hreversal, _⟩ := exists_reversalIds hscope
  obtain ⟨ids, hids, _⟩ := exists_confirmationIds hscope'
  let request := amendRequest "C1" sampleConfirmed.view sampleTerms.request reversalIds.texts
    ids.texts
  let parse : Bytes → Option ParsedJson := fun body =>
    if body = sampleAmendBody then some request.document else none
  obtain ⟨_, trade, _, _, ⟨_, hview, _⟩, _, _, _, hunderstood, haccepted, hopened, hroom⟩ :=
    amendments_are_offered hc hr Browser.isGregorianDay_realDays
      enUsNumber_onlyInsertsCommas parse (fun _ => sampleAmendBody) hselected rfl entries
      ⟨asciiBytes "C1", by decide⟩ hscope hscope' (hundrawn _ hscope) (hundrawn _ hscope') (by
        intro terms texts texts' hterms htexts htexts'
        rw [hsubmit] at hterms
        rw [hreversal] at htexts
        rw [hids] at htexts'
        obtain rfl := Except.ok.inj (Except.ok.inj hterms)
        obtain rfl := Except.ok.inj htexts
        obtain rfl := Except.ok.inj htexts'
        exact if_pos rfl)
  obtain ⟨_, _, hdecode⟩ := (hunderstood trade.terms).mpr hopened
  have hversion : trade.version = 1 :=
    UInt32.toNat_inj.mp (numeral_injective (congrArg Browser.Trade.version hview))
  obtain ⟨next, hnext⟩ := (haccepted trade.terms).mpr
    ⟨by rw [hversion]; decide, hcount, hroom⟩
  exact ⟨state, next, _, parse, hdecode, hnext⟩

end Amending

section EndOfDay

variable {definitions : List LimitDefinition} {limits : LimitHierarchy} {state : State}

theorem latestConfirmedDate_none_iff {trades : List Browser.Trade} :
    latestConfirmedDate trades = none ↔ ∀ trade ∈ trades, trade.state ≠ .confirmed := by
  unfold latestConfirmedDate
  rw [List.getLast?_eq_none_iff, ← List.length_eq_zero_iff, List.length_mergeSort,
    List.length_eq_zero_iff, List.map_eq_nil_iff, List.filter_eq_nil_iff]
  simp only [decide_eq_true_eq]

theorem confirmed_of_dataView : (∀ row ∈ state.dataView.trades, row.state ≠ .confirmed) ↔
    ∀ trade ∈ state.register.versions, trade.state ≠ .confirmed := by
  constructor
  · intro h trade ht
    exact h _ (State.mem_dataView.mpr ⟨trade, ht, rfl⟩)
  · intro h row hrow
    obtain ⟨trade, ht, rfl⟩ := State.mem_dataView.mp hrow
    exact h trade ht

/-- A run up to the last value date leaves no confirmed version. -/
theorem settled_of_greatest {asOfDate : IsoDate} {versions : Finset Trade}
    (hlast : ∀ trade ∈ versions, trade.state = .confirmed → trade.terms.valueDate ≤ asOfDate) :
    ∀ trade ∈ versions.image (Trade.endOfDay asOfDate), trade.state ≠ .confirmed := by
  intro trade ht
  obtain ⟨old, hold, rfl⟩ := Finset.mem_image.mp ht
  by_cases hst : old.state = .confirmed
  · rw [Trade.endOfDay_selected hst (hlast old hold hst)]
    simp
  · rw [Trade.endOfDay_of_ne hst]
    exact hst

/-- The date that is offered is the greatest value date of the confirmed versions. -/
theorem latestConfirmedDate_register {eodDate : Bytes}
    (h : latestConfirmedDate state.dataView.trades = some eodDate) : ∃ date : IsoDate,
      eodDate = date.toString ∧
      IsGreatest {date | ∃ trade ∈ state.register.versions, trade.state = .confirmed ∧
        trade.terms.valueDate = date} date := by
  have hrows : state.dataView.trades = (state.trades.toList.map Prod.snd).map Trade.view := by
    rw [List.map_map]
    rfl
  obtain ⟨date, hgreatest, htext⟩ := (latestConfirmedDate_view _ _).mp (hrows ▸ h)
  refine ⟨date, htext, ?_⟩
  simpa only [State.register, KeyedMap.values, List.mem_toFinset] using hgreatest

/-- A run that has something to settle is accepted just when it is counted and the nets
fit. -/
theorem runEod_ok_iff_settles (hc : LimitHierarchy.create definitions = .ok limits)
    (hr : state.Reachable limits) {date : IsoDate} {last : Trade}
    (hlast : last ∈ state.register.versions) (hstate : last.state = .confirmed)
    (hdue : last.terms.valueDate ≤ date) :
    (∃ next, runEod state date = .ok next) ↔ state.version ≠ 18446744073709551615 ∧
      ∀ key, |∑ trade ∈ state.register.versions, (trade.endOfDay date).cashflow key| ≤
        2 ^ 63 - 1 := by
  have hs := hr.coherent
  have hh := hr.headroom hc
  constructor
  · rintro ⟨next, hok⟩
    have htakes : state.register.Takes limits.capacityAt (.runEod date) next.register :=
      Operation.takes hs hh hok
    have hversion : state.version ≠ 18446744073709551615 := by
      rcases runEod_effect hs hok with ⟨hnone, _⟩ | ⟨_, _, hrun⟩
      · have heligible : last.key ∈ state.eligible date :=
          State.mem_eligible.mpr ⟨last, (State.mem_register hs.chain).mp hlast, hstate, hdue⟩
        rw [hnone] at heligible
        contradiction
      · exact hrun.version_ne
    refine ⟨hversion, ?_⟩
    generalize next.register = register at htakes
    cases htakes with
    | settle _ hnets => exact hnets
    | idle hnone => exact absurd hdue (hnone last hlast hstate)
  · rintro ⟨hv, hnets⟩
    apply (runEod_ok_iff_nets hs hh hr.netted hv).mpr
    intro key
    rw [State.netAfter_eq_total, ← hs.chain.carries.sum_values]
    exact hnets key

/-- A run up to the last value date leaves nothing confirmed and nothing reserved. -/
theorem runEod_settles_all (hc : LimitHierarchy.create definitions = .ok limits)
    (hr : state.Reachable limits) {date : IsoDate} {next : State}
    (hdue : ∀ trade ∈ state.register.versions, trade.state = .confirmed →
      trade.terms.valueDate ≤ date) (hok : runEod state date = .ok next) :
    (∀ trade ∈ state.register.versions, trade.state = .confirmed →
        { trade with state := .settled } ∈ next.register.versions) ∧
      (∀ trade ∈ next.register.versions, trade.state ≠ .confirmed) ∧
      ∀ key, next.limits.reservedAt key = 0 := by
  have hnext : next.Reachable limits := hr.tail ⟨.runEod date, hok⟩
  have htakes : state.register.Takes limits.capacityAt (.runEod date) next.register :=
    Operation.takes hr.coherent (hr.headroom hc) hok
  obtain ⟨himage, _⟩ := htakes.runEod_eq
  have hnone : ∀ trade ∈ next.register.versions, trade.state ≠ .confirmed := by
    rw [himage]
    exact settled_of_greatest hdue
  refine ⟨?_, hnone, ?_⟩
  · intro trade ht hst
    rw [himage, Finset.mem_image]
    exact ⟨trade, ht, Trade.endOfDay_selected hst (hdue trade ht hst)⟩
  · intro key
    rw [State.reservedAt_eq hnext.coherent (hnext.headroom hc)]
    apply Finset.sum_eq_zero
    intro trade ht
    exact Trade.exposure_of_ne (hnone trade ht) key

/-- The end-of-day button. Where writes are not disabled, it is off just when nothing is
confirmed. Otherwise it posts a run up to the greatest value date of the confirmed
versions, which the state that is shown accepts just when every net of the settled
versions fits and the counter is not exhausted. The run settles every confirmed
version and frees every limit, and the button is off. -/
theorem end_of_day_button_settles_all (hc : LimitHierarchy.create definitions = .ok limits)
    (hr : state.Reachable limits) (parse : Bytes → Option ParsedJson)
    (stringify : Browser.CommandRequest → Bytes) (commandId : CommandId)
    (hwire : ∀ eodDate, latestConfirmedDate state.dataView.trades = some eodDate →
      parse (stringify (eodRequest commandId.value eodDate)) =
        some (eodRequest commandId.value eodDate).document) :
    (∀ connection writePending,
      eodDisabled (writesDisabled connection writePending)
          (latestConfirmedDate state.dataView.trades) = true ↔
        connection ≠ .live ∨ writePending = true ∨
          ∀ trade ∈ state.register.versions, trade.state ≠ .confirmed) ∧
    ∀ eodDate, latestConfirmedDate state.dataView.trades = some eodDate → ∃ date : IsoDate,
      eodDate = date.toString ∧
      IsGreatest {date | ∃ trade ∈ state.register.versions, trade.state = .confirmed ∧
        trade.terms.valueDate = date} date ∧
      decodeCommandRequest parse (stringify (eodRequest commandId.value eodDate)) =
        .ok ⟨commandId, .runEod ⟨date⟩⟩ ∧
      ((∃ next, runEod state date = .ok next) ↔ state.version ≠ 18446744073709551615 ∧
        ∀ key, |∑ trade ∈ state.register.versions, (trade.endOfDay date).cashflow key| ≤
          2 ^ 63 - 1) ∧
      ∀ next, runEod state date = .ok next →
        (∀ trade ∈ state.register.versions, trade.state = .confirmed →
          { trade with state := .settled } ∈ next.register.versions) ∧
        latestConfirmedDate next.dataView.trades = none ∧
        (∀ disabled, eodDisabled disabled (latestConfirmedDate next.dataView.trades) = true) ∧
        ∀ key, next.limits.reservedAt key = 0 := by
  constructor
  · intro connection writePending
    rw [← confirmed_of_dataView, ← latestConfirmedDate_none_iff]
    simp [eodDisabled, writesDisabled, or_assoc]
  intro eodDate hdate
  obtain ⟨date, rfl, hgreatest⟩ := latestConfirmedDate_register hdate
  obtain ⟨last, hlast, hstate, hvalue⟩ := hgreatest.1
  refine ⟨date, rfl, hgreatest, ?_, runEod_ok_iff_settles hc hr hlast hstate hvalue.le, ?_⟩
  · have hversioned : (Command.runEod ⟨date⟩).Versioned := .of_none rfl
    rw [Browser.CommandRequest.decoded_iff (hwire _ hdate) hversioned]
    exact ⟨rfl, rfl⟩
  · intro next hok
    have hdue : ∀ trade ∈ state.register.versions, trade.state = .confirmed →
        trade.terms.valueDate ≤ date := fun trade ht hst => hgreatest.2 ⟨trade, ht, hst, rfl⟩
    obtain ⟨hsettled, hnone, hfree⟩ := runEod_settles_all hc hr hdue hok
    have hoff := (latestConfirmedDate_none_iff.trans confirmed_of_dataView).mpr hnone
    refine ⟨hsettled, hoff, ?_, hfree⟩
    intro disabled
    rw [hoff]
    exact Bool.or_true disabled

def sampleEodBody : Bytes :=
  asciiBytes "\x7b\"commandId\":\"C1\",\"type\":\"RUN_EOD\"," ++
    asciiBytes "\"payload\":\x7b\"asOfDate\":\"2024-01-02\"\x7d\x7d"

/-- The button of the sample screen settles its trade. -/
theorem end_of_day_button_settles_all_sample : ∃ state next : State,
    runEod state sampleDate = .ok next ∧ state.dataView.trades ≠ [] ∧
      latestConfirmedDate next.dataView.trades = none := by
  obtain ⟨limits, state, hc, hr, hselected, _, _, hdate, next, hok⟩ := sample_screen
  let request := eodRequest "C1" sampleDate.toString
  let parse : Bytes → Option ParsedJson := fun body =>
    if body = sampleEodBody then some request.document else none
  obtain ⟨_, hon⟩ := end_of_day_button_settles_all hc hr parse (fun _ => sampleEodBody)
    ⟨asciiBytes "C1", by decide⟩ (by
      intro eodDate hother
      rw [hdate] at hother
      obtain rfl := Option.some.inj hother
      exact if_pos rfl)
  obtain ⟨date, htext, _, _, _, hsettles⟩ := hon _ hdate
  have hsame : date = sampleDate := by
    have hread := date.parse_toString
    rw [← htext, sampleDate.parse_toString] at hread
    exact (Except.ok.inj hread).symm
  rw [hsame] at hsettles
  obtain ⟨_, hoff, _⟩ := hsettles next hok
  have hrows : state.dataView.trades ≠ [] := by
    intro hnil
    rw [hnil] at hselected
    contradiction
  exact ⟨state, next, hok, hrows, hoff⟩

end EndOfDay

end Backbook
