import Backbook.AllOrNothing
import Backbook.BrowserRefresh
import Backbook.ResponseAgreement
import Backbook.HistoryFrames
import Backbook.ServiceRecovery
import Backbook.RunHistories
import Backbook.NewestRequests

namespace Backbook

open Relation Browser
open NewestRequest (Screen)

variable {S : Type} {isRealDay : Bytes → Bool}
  {definitions : List LimitDefinition} {limits : LimitHierarchy} {published : List State}
  {low : ℕ}

def IsView {β : Type} (published : List State) (low : ℕ) (view : State → UInt64 → β) (b : β) :
    Prop :=
  ∃ state ∈ published, low ≤ state.version.toNat ∧ ∃ fingerprint,
    stateFingerprint state = .ok fingerprint ∧ b = view state fingerprint

theorem IsView.mono {β : Type} {view : State → UInt64 → β} {b : β} {later : List State}
    (h : IsView published low view b) (hsub : published ⊆ later) : IsView later low view b := by
  obtain ⟨state, hmem, hrest⟩ := h
  exact ⟨state, hsub hmem, hrest⟩

def State.statePart (state : State) (fingerprint : UInt64) : ReadEnvelope StateData :=
  state.envelopeView fingerprint state.dataView

def State.ledgerPart (state : State) (fingerprint : UInt64) : ReadEnvelope LedgerData :=
  state.envelopeView fingerprint state.ledgerView

def State.settlementsPart (state : State) (fingerprint : UInt64) : ReadEnvelope SettlementData :=
  state.envelopeView fingerprint state.settlementsView

section Requests

variable {state : State}

/-- A request that succeeds has read the part that was encoded. -/
theorem request_ok {δ : Type} {decode other : Json → Bytes → Decoded δ} {data : Json} {view : δ}
    {envelope : ReadEnvelope δ} (hview : ∀ path, other data path = .ok view)
    (hbelow : ∀ value path, Outcome.Below (decode value path) (other value path))
    (h : request (fun value => decodeEnvelope value decode)
      (setReadResponse (readEnvelope state data)) = .ok envelope) :
    ∃ fingerprint, stateFingerprint state = .ok fingerprint ∧
      envelope = state.envelopeView fingerprint view := by
  cases hf : stateFingerprint state with
  | error e =>
    -- The problem is no success, whatever the console makes of it.
    have hfails : readEnvelope state data = .error .fingerprintFailed := by rw [readEnvelope, hf]
    rw [hfails, request, if_neg (by decide)] at h
    split at h <;> cases h
  | ok fingerprint =>
    obtain ⟨tree, htree, hdecode⟩ := readEnvelope_decodes hf hview
    rw [htree, request, if_pos (by simp only [setReadResponse]; decide)] at h
    split at h
    · rename_i value hvalue
      have hread := decodeEnvelope_below hbelow tree value hvalue
      rw [hdecode] at hread
      exact ⟨fingerprint, rfl, by rw [← Except.ok.inj h, Except.ok.inj hread]⟩
    · cases h

variable (hp : state ∈ published) (hl : low ≤ state.version.toNat)

include hp hl

theorem readState_isView (hc : LimitHierarchy.create definitions = .ok limits)
    (h : state.Reachable limits) {envelope : ReadEnvelope StateData}
    (hr : readState isRealDay state = .ok envelope) :
    IsView published low State.statePart envelope :=
  ⟨state, hp, hl, request_ok (decodeStateData_json (fun _ => rfl) hc h)
    (decodeStateData_below isRealDay) hr⟩

theorem readLedger_isView (h : state.Coherent) {envelope : ReadEnvelope LedgerData}
    (hr : readLedger state = .ok envelope) : IsView published low State.ledgerPart envelope :=
  ⟨state, hp, hl, request_ok (decodeLedgerData_json h) (fun _ _ => .refl _) hr⟩

theorem readSettlements_isView {envelope : ReadEnvelope SettlementData}
    (hr : readSettlements isRealDay state = .ok envelope) :
    IsView published low State.settlementsPart envelope :=
  ⟨state, hp, hl, request_ok (decodeSettlementData_json (fun _ => rfl) state)
    (decodeSettlementData_below isRealDay) hr⟩

end Requests

structure Browser.ReadSet.Views (published : List State) (low : ℕ) (reads : ReadSet) : Prop where
  state : ∀ envelope, reads.state = some (.ok envelope) →
    IsView published low State.statePart envelope
  ledger : ∀ envelope, reads.ledger = some (.ok envelope) →
    IsView published low State.ledgerPart envelope
  settlements : ∀ envelope, reads.settlements = some (.ok envelope) →
    IsView published low State.settlementsPart envelope

namespace Browser.ReadSet

variable {reads next : ReadSet}

theorem views_sent : ReadSet.sent.Views published low := ⟨nofun, nofun, nofun⟩

theorem Views.mono (h : reads.Views published low) {later : List State}
    (hsub : published ⊆ later) : reads.Views later low :=
  ⟨fun e he => (h.state e he).mono hsub, fun e he => (h.ledger e he).mono hsub,
    fun e he => (h.settlements e he).mono hsub⟩

theorem Views.progress (hc : LimitHierarchy.create definitions = .ok limits) {state : State}
    (hs : state.Reachable limits) (hp : state ∈ published) (hl : low ≤ state.version.toNat)
    (h : reads.Views published low) (hprogress : reads.Progress isRealDay state next) :
    next.Views published low := by
  cases hprogress with
  | state _ =>
    exact ⟨fun e he => readState_isView hp hl hc hs (Option.some.inj he), h.ledger, h.settlements⟩
  | ledger _ =>
    exact ⟨h.state, fun e he => readLedger_isView hp hl hs.coherent (Option.some.inj he),
      h.settlements⟩
  | settlements _ =>
    exact ⟨h.state, h.ledger, fun e he => readSettlements_isView hp hl (Option.some.inj he)⟩
  | stateFails _ => exact ⟨nofun, h.ledger, h.settlements⟩
  | ledgerFails _ => exact ⟨h.state, nofun, h.settlements⟩
  | settlementsFails _ => exact ⟨h.state, h.ledger, nofun⟩

/-- A load succeeds on three envelopes that can be combined. -/
theorem loaded_success {value : DashboardSnapshot} (h : reads.loaded = some (.success value)) :
    ∃ state ledger settlements, reads.state = some (.ok state) ∧ reads.ledger = some (.ok ledger) ∧
      reads.settlements = some (.ok settlements) ∧
      combineSnapshots state ledger settlements = .ok value := by
  obtain ⟨state, ledger, settlements⟩ := reads
  unfold loaded at h
  simp only [Option.bind_eq_bind, Option.bind_eq_some_iff, Option.some.injEq] at h
  obtain ⟨state, rfl, ledger, rfl, settlements, rfl, h⟩ := h
  unfold loadSnapshot at h
  split at h
  · cases h
  · cases h
  · cases h
  · split at h
    · rename_i value' hcombine
      exact ⟨_, _, _, rfl, rfl, rfl, by rw [hcombine, SnapshotLoadResult.success.inj h]⟩
    · cases h

end Browser.ReadSet

theorem stateVersionText_injective : Function.Injective stateVersionText := by
  intro a b h
  exact UInt64.toNat_inj.mp (DecimalText.numeral_injective h)

/-- Equal versions are enough: in one run a version names one snapshot. -/
theorem Browser.ReadSet.Views.loaded {reads : ReadSet} (h : reads.Views published low)
    (hunique : ∀ a ∈ published, ∀ b ∈ published, a.version = b.version → a = b)
    {value : DashboardSnapshot} (hl : reads.loaded = some (.success value)) :
    IsView published low State.dashboard value := by
  obtain ⟨_, _, _, hstate, hledger, hsettlements, hcombine⟩ := ReadSet.loaded_success hl
  obtain ⟨state, hp, hlow, fingerprint, hf, rfl⟩ := h.state _ hstate
  obtain ⟨other, hp', -, _, hf', rfl⟩ := h.ledger _ hledger
  obtain ⟨third, hp'', -, _, hf'', rfl⟩ := h.settlements _ hsettlements
  unfold combineSnapshots at hcombine
  split_ifs at hcombine with hne
  simp only [not_or, not_not] at hne
  -- The text of a version names the version, and that names the snapshot.
  obtain rfl := hunique state hp other hp' (stateVersionText_injective hne.1)
  obtain rfl := hunique state hp third hp'' (stateVersionText_injective hne.2.1)
  exact ⟨state, hp, hlow, fingerprint, hf, (Except.ok.inj hcombine).symm⟩

def shownVersion (value : DashboardSnapshot) : ℕ := DecimalText.value value.stateVersion

theorem shownVersion_dashboard (state : State) (fingerprint : UInt64) :
    shownVersion (state.dashboard fingerprint) = state.version.toNat :=
  DecimalText.value_numeral _

theorem CommandService.execute_snapshot [JournalStore S] (service : CommandService S)
    (envelope : CommandEnvelope) :
    (service.execute envelope).2.snapshot = service.snapshot ∨
      service.snapshot.Step (service.execute envelope).2.snapshot := by
  rcases service.execute_cases envelope with ⟨hsame, _⟩ |
    ⟨canonical, frame, evaluation, batch, hp, ⟨failure, store, _, hexec⟩ | ⟨store, _, hexec⟩⟩
  · exact Or.inl (by rw [hsame])
  · exact Or.inl (by rw [hexec])
  · obtain ⟨_, happly, _⟩ := evaluateCommand_ok hp.evaluated
    right
    rw [hexec]
    exact applyEvent_step happly

structure Browser.Console.Tracks (limits : LimitHierarchy) (console : Console S)
    (screen : Screen ℕ) : Prop where
  reachable : ∀ state ∈ console.published, state.Reachable limits
  current : console.service.snapshot ∈ console.published
  leads : ∀ state ∈ console.published, ReflTransGen State.Step state console.service.snapshot
  unique : ∀ a ∈ console.published, ∀ b ∈ console.published, a.version = b.version → a = b
  view : ∀ value, console.model.snapshot = some value →
    IsView console.published 0 State.dashboard value
  source : screen.source = console.service.snapshot.version.toNat
  shown : screen.shown = console.model.snapshot.map shownVersion
  newest : screen.newest = console.model.requestSequence
  reads : ∀ sequence refresh, console.refreshes sequence = some refresh → ∃ low ≤ screen.source,
    screen.floor sequence = some low ∧ refresh.reads.Views console.published low

namespace Browser.Console

variable {console next : Console S} {screen : Screen ℕ}

/-- Published snapshots are behind the current one. -/
theorem Tracks.version_le (h : console.Tracks limits screen) {state : State}
    (hp : state ∈ console.published) :
    state.version.toNat ≤ console.service.snapshot.version.toNat :=
  (h.reachable state hp).version_le (h.leads state hp)

theorem Tracks.start (h : console.Tracks limits screen) :
    ∃ screen', ReflTransGen NewestRequest.Step screen screen' ∧
      console.start.Tracks limits screen' := by
  refine ⟨_, .single (.request screen), h.reachable, h.current, h.leads, h.unique, h.view, h.source,
    h.shown, congrArg (· + 1) h.newest, ?_⟩
  intro sequence refresh hrefresh
  change Function.update console.refreshes (console.model.requestSequence + 1) _ sequence = _
    at hrefresh
  change ∃ low ≤ screen.source, Function.update screen.floor (screen.newest + 1) _ sequence = _ ∧ _
  rw [h.newest]
  by_cases hk : sequence = console.model.requestSequence + 1
  · -- The new refresh starts from the version of the moment.
    rw [hk, Function.update_self] at hrefresh ⊢
    obtain rfl := Option.some.inj hrefresh
    exact ⟨screen.source, le_rfl, rfl, ReadSet.views_sent⟩
  · rw [Function.update_of_ne hk] at hrefresh ⊢
    exact h.reads sequence refresh hrefresh

theorem setRefresh_refreshes (console : Console S) (sequence : ℕ) (refresh : Option Refresh)
    (other : ℕ) : (console.setRefresh sequence refresh).refreshes other =
      if other = sequence then refresh else console.refreshes other :=
  Function.update_apply _ _ _ _

/-- Replacing a refresh by one whose reads are views moves no screen. -/
theorem Tracks.setRefresh (h : console.Tracks limits screen) {sequence : ℕ} {refresh : Refresh}
    (hk : ∃ low ≤ screen.source, screen.floor sequence = some low ∧
      refresh.reads.Views console.published low) :
    (console.setRefresh sequence (some refresh)).Tracks limits screen := by
  refine ⟨h.reachable, h.current, h.leads, h.unique, h.view, h.source, h.shown, h.newest, ?_⟩
  intro other found hfound
  rw [setRefresh_refreshes] at hfound
  split_ifs at hfound with heq
  · obtain rfl := Option.some.inj hfound
    rw [heq]
    exact hk
  · exact h.reads other found hfound

/-- The reads of the other refreshes when one ends. -/
theorem Tracks.close_reads (h : console.Tracks limits screen) (sequence : ℕ) :
    ∀ other refresh, (console.setRefresh sequence none).refreshes other = some refresh →
      ∃ low ≤ screen.source, Function.update screen.floor sequence none other = some low ∧
        refresh.reads.Views console.published low := by
  intro other refresh hfound
  rw [setRefresh_refreshes] at hfound
  split_ifs at hfound with heq
  rw [Function.update_of_ne heq]
  exact h.reads other refresh hfound

/-- A refresh that ends without an effect on what is shown. -/
theorem Tracks.close (h : console.Tracks limits screen) (sequence : ℕ) {model : BackbookModel}
    (hs : model.snapshot = console.model.snapshot)
    (hq : model.requestSequence = console.model.requestSequence) :
    ∃ screen', ReflTransGen NewestRequest.Step screen screen' ∧
      ({ console.setRefresh sequence none with model := model }).Tracks limits screen' := by
  refine ⟨_, .single (.close screen sequence), h.reachable, h.current, h.leads, h.unique, ?_,
    h.source, ?_, h.newest.trans hq.symm, h.close_reads sequence⟩
  · intro value hv
    exact h.view value (hs ▸ hv)
  · rw [hs]
    exact h.shown

/-- The newest refresh ends with a snapshot that it may show. -/
theorem Tracks.display (h : console.Tracks limits screen) {refresh : Refresh}
    (hr : console.refreshes console.model.requestSequence = some refresh)
    {value : DashboardSnapshot} (hl : refresh.reads.loaded = some (.success value))
    {model : BackbookModel} (hs : model.snapshot = some value)
    (hq : model.requestSequence = console.model.requestSequence) :
    ∃ screen', ReflTransGen NewestRequest.Step screen screen' ∧
      ({ console.setRefresh console.model.requestSequence none with model := model }).Tracks limits
        screen' := by
  obtain ⟨low, _, hfloor, hviews⟩ := h.reads _ refresh hr
  obtain ⟨state, hp, hlow, fingerprint, hf, rfl⟩ := hviews.loaded h.unique hl
  have hle := h.version_le hp
  -- The refresh has read nothing older than what the source held when it began.
  rw [← h.newest] at hfloor hq ⊢
  rw [← shownVersion_dashboard state fingerprint] at hlow
  rw [← h.source, ← shownVersion_dashboard state fingerprint] at hle
  refine ⟨_, .single (.display hfloor hlow hle), h.reachable, h.current, h.leads, h.unique, ?_,
    h.source, ?_, hq.symm, h.close_reads _⟩
  · intro shown hv
    obtain rfl := Option.some.inj (hs.symm.trans hv)
    exact ⟨state, hp, Nat.zero_le _, fingerprint, hf, rfl⟩
  · rw [hs]
    rfl

theorem Tracks.resume (h : console.Tracks limits screen) {sequence : ℕ} {refresh : Refresh}
    {loaded : SnapshotLoadResult} (hr : console.refreshes sequence = some refresh)
    (hl : refresh.reads.loaded = some loaded) :
    ∃ screen', ReflTransGen NewestRequest.Step screen screen' ∧
      (console.resume sequence refresh loaded).Tracks limits screen' := by
  unfold Console.resume
  cases hretry : refresh.retry loaded with
  | some again =>
    obtain ⟨low, hle, hfloor, _⟩ := h.reads sequence refresh hr
    refine ⟨screen, .refl, h.setRefresh ⟨low, hle, hfloor, ?_⟩⟩
    rw [Refresh.retry_reads hretry]
    exact ReadSet.views_sent
  | none =>
    have hsequence := console.model.endRefresh_requestSequence sequence loaded
    have hsnapshot := console.model.endRefresh_snapshot sequence loaded
    by_cases heq : sequence = console.model.requestSequence
    · rw [if_pos heq] at hsnapshot
      cases loaded with
      | success value =>
        rw [heq] at hr hsnapshot hsequence ⊢
        exact h.display hr hl hsnapshot hsequence
      | failure error mismatch => exact h.close sequence hsnapshot hsequence
    · -- A later refresh was started, so this one ends without a trace.
      rw [if_neg heq] at hsnapshot
      exact h.close sequence hsnapshot hsequence

section Steps

variable [JournalStore S]

theorem Tracks.commit (h : console.Tracks limits screen) (store : S) (envelope : CommandEnvelope) :
    ∃ screen', ReflTransGen NewestRequest.Step screen screen' ∧
      (console.commit store envelope).Tracks limits screen' := by
  have hcases := CommandService.execute_snapshot { console.service with store := store } envelope
  -- The new snapshot is the old one or one operation behind it.
  have hpath : ReflTransGen State.Step console.service.snapshot
      (console.commit store envelope).service.snapshot := by
    rcases hcases with heq | hstep
    · exact heq ▸ .refl
    · exact .single hstep
  have hreachable := h.reachable _ h.current
  have hleads : ∀ state ∈ console.published, ReflTransGen State.Step state
      (console.commit store envelope).service.snapshot :=
    fun state hp => (h.leads state hp).trans hpath
  -- A version that was taken before is taken by the same snapshot.
  have hnew : ∀ state ∈ console.published,
      state.version = (console.commit store envelope).service.snapshot.version →
        state = (console.commit store envelope).service.snapshot :=
    fun state hp => (h.reachable state hp).eq_of_version_eq (hleads state hp)
  have hle := hreachable.version_le hpath
  have hsub : console.published ⊆ (console.commit store envelope).published :=
    List.subset_cons_self _ _
  refine ⟨_, .single (.advance (h.source.trans_le hle)), ?_⟩
  refine ⟨?_, List.mem_cons_self, ?_, ?_, fun value hv => (h.view value hv).mono hsub, rfl, h.shown,
    h.newest, ?_⟩
  · exact List.forall_mem_cons.mpr ⟨hreachable.trans hpath, h.reachable⟩
  · exact List.forall_mem_cons.mpr ⟨.refl, hleads⟩
  · intro a ha b hb hversion
    rcases List.mem_cons.mp ha with rfl | ha <;> rcases List.mem_cons.mp hb with rfl | hb
    · rfl
    · exact (hnew b hb hversion.symm).symm
    · exact hnew a ha hversion
    · exact h.unique a ha b hb hversion
  · intro sequence refresh hrefresh
    obtain ⟨low, hlow, hfloor, hviews⟩ := h.reads sequence refresh hrefresh
    exact ⟨low, hlow.trans (h.source.trans_le hle), hfloor, hviews.mono hsub⟩

theorem Tracks.step (hc : LimitHierarchy.create definitions = .ok limits)
    (h : console.Tracks limits screen) (hstep : console.Step isRealDay next) :
    ∃ screen', ReflTransGen NewestRequest.Step screen screen' ∧ next.Tracks limits screen' := by
  cases hstep with
  | commit store envelope => exact h.commit store envelope
  | start => exact h.start
  | @read sequence refresh reads hr hprogress =>
    obtain ⟨low, hle, hfloor, hviews⟩ := h.reads sequence refresh hr
    have hlow : low ≤ console.service.snapshot.version.toNat := h.source ▸ hle
    have hnext := hviews.progress hc (h.reachable _ h.current) h.current hlow hprogress
    exact ⟨screen, .refl, h.setRefresh ⟨low, hle, hfloor, hnext⟩⟩
  | resume hr hl => exact h.resume hr hl

theorem Tracks.run (hc : LimitHierarchy.create definitions = .ok limits)
    (h : console.Tracks limits screen)
    (hrun : ReflTransGen (Console.Step isRealDay) console next) :
    ∃ screen', ReflTransGen NewestRequest.Step screen screen' ∧ next.Tracks limits screen' :=
  RunHistory.run_matched (R := fun console screen => console.Tracks limits screen)
    (fun _ _ _ htracks hstep => htracks.step hc hstep) h hrun

/-- A step that changes what is shown ends the newest refresh with a load that has
succeeded. -/
theorem Step.snapshot_cases (hstep : console.Step isRealDay next) :
    next.model.snapshot = console.model.snapshot ∨ ∃ refresh value,
      console.refreshes console.model.requestSequence = some refresh ∧
      refresh.reads.loaded = some (.success value) ∧
      next = console.resume console.model.requestSequence refresh (.success value) ∧
      next.model.snapshot = some value := by
  cases hstep with
  | commit => exact Or.inl rfl
  | start => exact Or.inl rfl
  | read => exact Or.inl rfl
  | @resume sequence refresh loaded hr hl =>
    rw [resume_snapshot]
    split_ifs with heq
    · cases loaded with
      | success value => exact Or.inr ⟨refresh, value, heq ▸ hr, hl, by rw [heq], rfl⟩
      | failure error mismatch => exact Or.inl rfl
    · exact Or.inl rfl

end Steps

end Browser.Console

theorem Browser.Console.Tracks.opened {service : CommandService S}
    (h : service.snapshot.Reachable limits) : (Console.opened service).Tracks limits
      ⟨service.snapshot.version.toNat, none, 0, fun _ => none⟩ := by
  refine ⟨?_, List.mem_cons_self, ?_, ?_, ?_, rfl, rfl, rfl, ?_⟩
  · exact List.forall_mem_singleton.mpr h
  · exact List.forall_mem_singleton.mpr .refl
  · intro a ha b hb _
    rw [List.mem_singleton.mp ha, List.mem_singleton.mp hb]
  · intro value hv
    cases hv
  · intro sequence refresh hr
    cases hr

/-- Every run of the console is a run of a screen, from its opening on. -/
theorem Browser.Console.run_tracks [JournalStore S] {service : CommandService S}
    {console : Console S} (hc : LimitHierarchy.create definitions = .ok limits)
    (hs : service.snapshot.Reachable limits)
    (hrun : ReflTransGen (Console.Step isRealDay) (Console.opened service) console) :
    ∃ screen : Screen ℕ, screen.Orderly ∧ console.Tracks limits screen := by
  obtain ⟨screen, hsteps, htracks⟩ := (Console.Tracks.opened hs).run hc hrun
  have horderly : Screen.Orderly
      ⟨service.snapshot.version.toNat, none, 0, fun _ => none⟩ := ⟨nofun, nofun⟩
  exact ⟨screen, horderly.run hsteps, htracks⟩

theorem request_encoded {state : State} {fingerprint : UInt64} {δ : Type}
    {decode : Json → Bytes → Decoded δ} {data : Json} {view : δ}
    (hf : stateFingerprint state = .ok fingerprint) (hview : ∀ path, decode data path = .ok view) :
    request (fun value => decodeEnvelope value decode)
      (setReadResponse (readEnvelope state data)) = .ok (state.envelopeView fingerprint view) := by
  obtain ⟨tree, htree, hdecode⟩ := readEnvelope_decodes hf hview
  rw [htree, request, if_pos (by simp only [setReadResponse]; decide)]
  simp only [setReadResponse, hdecode]

/-- A read that makes progress, and what it leaves as it was. -/
theorem Browser.Console.exists_read [JournalStore S] (isRealDay : Bytes → Bool)
    {console : Console S} {sequence : ℕ} {refresh : Refresh} {reads : ReadSet}
    (h : console.refreshes sequence = some refresh)
    (hr : refresh.reads.Progress isRealDay console.service.snapshot reads) :
    ∃ next, console.Step isRealDay next ∧
      next.refreshes sequence = some { refresh with reads := reads } ∧
      next.service = console.service ∧ next.published = console.published ∧
      next.model = console.model := by
  refine ⟨_, .read h hr, ?_, rfl, rfl, rfl⟩
  rw [Console.setRefresh_refreshes, if_pos rfl]

/-- The three reads of one state. -/
theorem State.Reachable.reads {state : State} (h : state.Reachable limits)
    (hday : ∀ date : IsoDate, isRealDay date.toString = true)
    (hc : LimitHierarchy.create definitions = .ok limits) {fingerprint : UInt64}
    (hf : stateFingerprint state = .ok fingerprint) :
    readState isRealDay state = .ok (state.statePart fingerprint) ∧
      readLedger state = .ok (state.ledgerPart fingerprint) ∧
      readSettlements isRealDay state = .ok (state.settlementsPart fingerprint) :=
  ⟨request_encoded hf (decodeStateData_json hday hc h),
    request_encoded hf (decodeLedgerData_json h.coherent),
    request_encoded hf (decodeSettlementData_json hday _)⟩

/-- A refresh whose reads are all answered before the next commit ends with the current
snapshot. -/
theorem Browser.Console.refresh_ends [JournalStore S] (console : Console S)
    (isRealDay : Bytes → Bool) (hday : ∀ date : IsoDate, isRealDay date.toString = true)
    (hc : LimitHierarchy.create definitions = .ok limits)
    (hs : console.service.snapshot.Reachable limits) {fingerprint : UInt64}
    (hf : stateFingerprint console.service.snapshot = .ok fingerprint) :
    ∃ next, ReflTransGen (Console.Step isRealDay) console next ∧ next.service = console.service ∧
      next.published = console.published ∧
      next.model = console.model.beginRefresh.endRefresh (console.model.requestSequence + 1)
        (.success (console.service.snapshot.dashboard fingerprint)) := by
  obtain ⟨hstate, hledger, hsettlements⟩ := hs.reads hday hc hf
  have hstart : console.start.refreshes (console.model.requestSequence + 1) =
      some ⟨.sent, false⟩ := Function.update_self _ _ _
  obtain ⟨first, step, hfirst, hservice, hpublished, hmodel⟩ :=
    exists_read isRealDay hstart (.state rfl)
  obtain ⟨second, step', hsecond, hservice', hpublished', hmodel'⟩ :=
    exists_read isRealDay hfirst (.ledger rfl)
  obtain ⟨third, step'', hthird, hservice'', hpublished'', hmodel''⟩ :=
    exists_read isRealDay hsecond (.settlements rfl)
  rw [hservice', hservice] at hthird
  have hloaded : ReadSet.loaded ⟨some (readState isRealDay console.service.snapshot),
      some (readLedger console.service.snapshot),
      some (readSettlements isRealDay console.service.snapshot)⟩ =
        some (.success (console.service.snapshot.dashboard fingerprint)) := by
    rw [hstate, hledger, hsettlements]
    change some (loadSnapshot _ _ _) = _
    unfold loadSnapshot
    simp only [State.statePart, State.ledgerPart, State.settlementsPart, combineSnapshots_views]
  have hrun := (((ReflTransGen.single (Step.start console)).tail step).tail step').tail step''
  refine ⟨_, hrun.tail (.resume hthird hloaded), ?_, ?_, ?_⟩
  · exact hservice''.trans (hservice'.trans hservice)
  · exact hpublished''.trans (hpublished'.trans hpublished)
  · unfold Console.resume
    simp only [Refresh.retry, hmodel'', hmodel', hmodel]
    rfl

/-- A command between the first read of a refresh and the others, which find another
version. -/
theorem Browser.Console.refresh_mixed [JournalStore S] (console : Console S)
    (isRealDay : Bytes → Bool) (hday : ∀ date : IsoDate, isRealDay date.toString = true)
    (hc : LimitHierarchy.create definitions = .ok limits)
    (hs : console.service.snapshot.Reachable limits) (envelope : CommandEnvelope)
    (hmoved : (console.service.execute envelope).2.snapshot.version ≠
      console.service.snapshot.version)
    {fingerprint fingerprint' : UInt64}
    (hf : stateFingerprint console.service.snapshot = .ok fingerprint)
    (hf' : stateFingerprint (console.service.execute envelope).2.snapshot = .ok fingerprint') :
    ∃ next refresh error, ReflTransGen (Console.Step isRealDay) console next ∧
      next.service = (console.service.execute envelope).2 ∧
      next.published = (console.service.execute envelope).2.snapshot :: console.published ∧
      next.model = console.model.beginRefresh ∧
      next.refreshes (console.model.requestSequence + 1) = some refresh ∧
      refresh.reads.loaded = some (.failure error true) := by
  have hs' : (console.service.execute envelope).2.snapshot.Reachable limits := by
    rcases console.service.execute_snapshot envelope with hsame | hstep
    · rw [hsame]
      exact hs
    · exact ReflTransGen.tail hs hstep
  obtain ⟨hstate, _, _⟩ := hs.reads hday hc hf
  obtain ⟨_, hledger, hsettlements⟩ := hs'.reads hday hc hf'
  have hstart : console.start.refreshes (console.model.requestSequence + 1) =
      some ⟨.sent, false⟩ := Function.update_self _ _ _
  obtain ⟨first, step, hfirst, hservice, hpublished, hmodel⟩ :=
    exists_read isRealDay hstart (.state rfl)
  let between := first.commit first.service.store envelope
  have hbetween : between.service = (console.service.execute envelope).2 :=
    congrArg (fun service => (CommandService.execute service envelope).2) hservice
  obtain ⟨second, step', hsecond, hservice', hpublished', hmodel'⟩ :=
    @exists_read _ _ isRealDay between _ _ _ hfirst (.ledger rfl)
  obtain ⟨third, step'', hthird, hservice'', hpublished'', hmodel''⟩ :=
    exists_read isRealDay hsecond (.settlements rfl)
  rw [hservice', hbetween] at hthird
  have hrun := ((((ReflTransGen.single (Step.start console)).tail step).tail
    (.commit first first.service.store envelope)).tail step').tail step''
  refine ⟨third, _, .protocol "Read endpoints did not describe the same immutable snapshot.", hrun,
    hservice''.trans (hservice'.trans hbetween), ?_, hmodel''.trans (hmodel'.trans hmodel), hthird,
    ?_⟩
  · rw [hpublished'', hpublished']
    change between.service.snapshot :: first.published = _
    rw [hbetween, hpublished]
    rfl
  · -- The state is of one version, and the ledger is of another.
    have hdiffer : (console.service.snapshot.statePart fingerprint).stateVersion ≠
        ((console.service.execute envelope).2.snapshot.ledgerPart fingerprint').stateVersion :=
      fun heq => hmoved (stateVersionText_injective heq).symm
    change ReadSet.loaded ⟨some (readState isRealDay console.service.snapshot), _, _⟩ = _
    rw [hstate, hledger, hsettlements]
    change some (loadSnapshot _ _ _) = _
    unfold loadSnapshot combineSnapshots
    simp only [if_pos (Or.inl hdiffer)]

theorem Browser.Console.refresh_shows [JournalStore S] (console : Console S)
    (isRealDay : Bytes → Bool) (hday : ∀ date : IsoDate, isRealDay date.toString = true)
    (hc : LimitHierarchy.create definitions = .ok limits)
    (hs : console.service.snapshot.Reachable limits) {fingerprint : UInt64}
    (hf : stateFingerprint console.service.snapshot = .ok fingerprint) :
    ∃ next, ReflTransGen (Console.Step isRealDay) console next ∧
      next.service = console.service ∧ next.published = console.published ∧
      next.model.snapshot = some (console.service.snapshot.dashboard fingerprint) := by
  obtain ⟨next, hrun, hservice, hpublished, hmodel⟩ := console.refresh_ends isRealDay hday hc hs hf
  refine ⟨next, hrun, hservice, hpublished, ?_⟩
  rw [hmodel, BackbookModel.endRefresh_snapshot]
  exact if_pos rfl

/-- The console shows nothing or exactly one published snapshot, and its versions
never go down. A refresh that failed, mismatched or was superseded changes nothing
that is shown, and nothing else does beside the newest refresh with its success. -/
theorem console_shows_published [JournalStore S] (isRealDay : Bytes → Bool)
    (definitions : List LimitDefinition) (limits : LimitHierarchy) (store : Option S)
    (service : CommandService S) (console : Console S)
    (hc : LimitHierarchy.create definitions = .ok limits)
    (hs : CommandService.create store limits = .ok service)
    (hrun : ReflTransGen (Console.Step isRealDay) (Console.opened service) console) :
    (∀ value, console.model.snapshot = some value → ∃! state, state ∈ console.published ∧
      ∃ fingerprint, stateFingerprint state = .ok fingerprint ∧
        value = state.dashboard fingerprint) ∧
    (∀ later value, ReflTransGen (Console.Step isRealDay) console later →
      console.model.snapshot = some value → ∃ value', later.model.snapshot = some value' ∧
        shownVersion value ≤ shownVersion value') ∧
    (∀ sequence refresh loaded, console.refreshes sequence = some refresh →
      refresh.reads.loaded = some loaded →
      (sequence = console.model.requestSequence → ∀ value, loaded ≠ .success value) →
      (console.resume sequence refresh loaded).model.snapshot = console.model.snapshot) ∧
    ∀ next, console.Step isRealDay next → next.model.snapshot = console.model.snapshot ∨
      ∃ refresh value, console.refreshes console.model.requestSequence = some refresh ∧
        refresh.reads.loaded = some (.success value) ∧
        next = console.resume console.model.requestSequence refresh (.success value) ∧
        next.model.snapshot = some value := by
  obtain ⟨screen, horderly, htracks⟩ :=
    Console.run_tracks hc (CommandService.create_reachable hs) hrun
  refine ⟨fun value hv => ?_, fun later value hlater hv => ?_,
    fun sequence refresh loaded _ _ hne => ?_, fun next => Console.Step.snapshot_cases⟩
  · obtain ⟨state, hp, _, fingerprint, hf, rfl⟩ := htracks.view value hv
    refine ⟨state, ⟨hp, fingerprint, hf, rfl⟩, ?_⟩
    -- Two published snapshots that look alike have one version.
    rintro other ⟨hp', fingerprint', _, heq⟩
    have hversion := congrArg DashboardSnapshot.stateVersion heq
    exact (htracks.unique state hp other hp' (stateVersionText_injective hversion)).symm
  · -- The screen behind the console shows no less at the end of the run.
    obtain ⟨screen', hsteps, htracks'⟩ := htracks.run hc hlater
    have hshown : screen.shown = some (shownVersion value) := by
      rw [htracks.shown, hv]
      rfl
    obtain ⟨version, hversion, hle⟩ := horderly.shown_le_run hsteps hshown
    rw [htracks'.shown] at hversion
    obtain ⟨value', hv', rfl⟩ := Option.map_eq_some_iff.mp hversion
    exact ⟨value', hv', hle⟩
  · rw [Console.resume_snapshot]
    split_ifs with heq
    · cases loaded with
      | success value => exact absurd rfl (hne heq value)
      | failure error mismatch => rfl
    · rfl

/-- A booking between two reads of a refresh: the load is a mismatch and leaves what
was shown, and the next refresh shows the booking. -/
theorem console_shows_published_sample :
    ∃ (console later : Console MemoryJournalStore) (refresh : Refresh) (error : ClientError)
      (shown value : DashboardSnapshot),
      console.published.map State.version = [1, 0] ∧
      console.refreshes console.model.requestSequence = some refresh ∧
      refresh.reads.loaded = some (.failure error true) ∧
      console.model.snapshot = some shown ∧ shownVersion shown = 0 ∧
      (∃! state, state ∈ console.published ∧ ∃ fingerprint,
        stateFingerprint state = .ok fingerprint ∧ shown = state.dashboard fingerprint) ∧
      (console.resume console.model.requestSequence refresh (.failure error true)).model.snapshot =
        some shown ∧
      ReflTransGen (Console.Step fun text => (IsoDate.parse text).isOk) console later ∧
      later.model.snapshot = some value ∧ shownVersion value = 1 := by
  let service : CommandService MemoryJournalStore :=
    ⟨MemoryJournalStore.ofBytes [], State.initial sampleLimits, ∅, 1, false⟩
  let booking := sampleBooking (sampleId .command)
  have hs : CommandService.create (some (MemoryJournalStore.ofBytes [])) sampleLimits =
      .ok service := CommandService.create_empty rfl
  have hfirst : (stateFingerprint service.snapshot).isOk = true := by decide +kernel
  have hsecond : (stateFingerprint (service.execute booking).2.snapshot).isOk = true := by
    decide +kernel
  have hversion : (service.execute booking).2.snapshot.version = 1 := by decide +kernel
  obtain ⟨fingerprint, hf⟩ := ok_of_isOk hfirst
  obtain ⟨fingerprint', hf'⟩ := ok_of_isOk hsecond
  -- The empty book is shown, a refresh meets the booking, and another one shows it.
  have hr := CommandService.create_reachable hs
  obtain ⟨opened, hopened, hservice, hpublished, hshown⟩ :=
    (Console.opened service).refresh_shows (fun text => (IsoDate.parse text).isOk)
      IsoDate.parse_toString_isOk sampleLimits_created hr hf
  have hcurrent : opened.service = service := hservice
  obtain ⟨console, refresh, error, hconsole, hservice', hpublished', hmodel, hrefresh, hloaded⟩ :=
    opened.refresh_mixed (fun text => (IsoDate.parse text).isOk) IsoDate.parse_toString_isOk
      sampleLimits_created (hcurrent ▸ hr) booking
      (by rw [hcurrent, hversion]; decide) (hcurrent ▸ hf) (hcurrent ▸ hf')
  rw [hcurrent] at hservice' hpublished'
  have hrun := hopened.trans hconsole
  obtain ⟨_, _, htracks⟩ := Console.run_tracks sampleLimits_created hr hrun
  have hr' := htracks.reachable _ htracks.current
  obtain ⟨later, hlater, _, _, hvalue⟩ :=
    console.refresh_shows (fun text => (IsoDate.parse text).isOk) IsoDate.parse_toString_isOk
      sampleLimits_created hr' (hservice' ▸ hf')
  have hkept : console.model.snapshot = some (service.snapshot.dashboard fingerprint) := by
    rw [hmodel]
    exact hshown
  obtain ⟨hpublishedOnce, _, hquiet, _⟩ := console_shows_published _ sampleDefinitions sampleLimits
    _ service console sampleLimits_created hs hrun
  have hnumber : console.model.requestSequence = opened.model.requestSequence + 1 := by
    rw [hmodel]
    rfl
  rw [← hnumber] at hrefresh
  have hfailed := hquiet _ _ _ hrefresh hloaded (fun _ _ => by simp)
  refine ⟨console, later, refresh, error, _, _, ?_, hrefresh, hloaded, hkept, ?_,
    hpublishedOnce _ hkept, hfailed.trans hkept, hlater, hvalue, ?_⟩
  · rw [hpublished', hpublished]
    simp only [Console.opened, List.map_cons, List.map_nil, hversion]
    rfl
  · rw [shownVersion_dashboard]
    rfl
  · rw [shownVersion_dashboard, hservice', hversion]
    rfl

end Backbook
