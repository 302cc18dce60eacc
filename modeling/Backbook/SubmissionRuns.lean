import Backbook.BrowserSubmissions

namespace Backbook.Browser

open Std FramedLog Relation VisibleTrace

variable {C : Type} {limits : LimitHierarchy} {trace : List (Activity C)}

def Activity.Compatible : Activity C → Activity C → Prop
  | .posted client draft envelope, .posted client' draft' envelope' =>
    envelope.commandId = envelope'.commandId →
      client = client' ∧ draft = draft' ∧ envelope = envelope'
  | _, _ => True

structure Deployment.Identified (trace : List (Activity C)) (d : Deployment C) : Prop where
  pending : ∀ client form submission, (d.client client).pending form = some submission →
    submission.signature.form = form ∧ submission.signature.Describes submission.command ∧
      submission.command.commandId ∈ d.drawn
  posted : ∀ client draft envelope, .posted client draft envelope ∈ trace →
    draft.Describes envelope ∧ envelope.commandId ∈ d.drawn
  alone : ∀ client form submission, (d.client client).pending form = some submission →
    ∀ client' draft envelope, .posted client' draft envelope ∈ trace →
      envelope.commandId = submission.command.commandId →
      client' = client ∧ draft = submission.signature ∧ envelope = submission.command
  apart : ∀ client form submission client' form' submission',
    (d.client client).pending form = some submission →
    (d.client client').pending form' = some submission' →
    submission.command.commandId = submission'.command.commandId →
    client = client' ∧ form = form'
  pairs : trace.Pairwise Activity.Compatible

section Identifiers

variable {d next : Deployment C}

/-- Forgetting submissions and seeing anything but a post changes nothing. -/
theorem Deployment.Identified.shrink (h : d.Identified trace) {event : Option (Activity C)}
    (hevent : ∀ client draft envelope, event ≠ some (.posted client draft envelope))
    (hpending : ∀ client form submission, (next.client client).pending form = some submission →
      (d.client client).pending form = some submission)
    (hdrawn : d.drawn ⊆ next.drawn) : next.Identified (trace ++ event.toList) := by
  have hposted : ∀ client draft envelope,
      .posted client draft envelope ∈ trace ++ event.toList →
      .posted client draft envelope ∈ trace := by
    intro client draft envelope hmem
    rcases List.mem_append.mp hmem with hmem | hmem
    · exact hmem
    · rw [Option.mem_toList] at hmem
      exact absurd hmem (hevent client draft envelope)
  refine ⟨?_, ?_, ?_, ?_, ?_⟩
  · intro client form submission hp
    obtain ⟨hform, hdescribes, hid⟩ := h.pending _ _ _ (hpending _ _ _ hp)
    exact ⟨hform, hdescribes, hdrawn hid⟩
  · intro client draft envelope hmem
    obtain ⟨hdescribes, hid⟩ := h.posted _ _ _ (hposted _ _ _ hmem)
    exact ⟨hdescribes, hdrawn hid⟩
  · intro client form submission hp client' draft envelope hmem
    exact h.alone _ _ _ (hpending _ _ _ hp) _ _ _ (hposted _ _ _ hmem)
  · intro client form submission client' form' submission' hp hp'
    exact h.apart _ _ _ _ _ _ (hpending _ _ _ hp) (hpending _ _ _ hp')
  · rw [List.pairwise_append]
    refine ⟨h.pairs, ?_, ?_⟩
    · cases event with
      | none => exact List.Pairwise.nil
      | some seen => exact List.pairwise_singleton _ _
    · intro earlier _ later hlater
      cases later with
      | posted client draft envelope =>
        rw [Option.mem_toList] at hlater
        exact absurd hlater (hevent client draft envelope)
      | _ => cases earlier <;> trivial

/-- A submission is posted by the client that holds it. -/
theorem Deployment.Identified.see (h : d.Identified trace) {client : C} {form : Form}
    {submission : Submission} (hpending : (d.client client).pending form = some submission) :
    d.Identified (trace ++ [.posted client submission.signature submission.command]) := by
  obtain ⟨_, hdescribes, hdrawn⟩ := h.pending _ _ _ hpending
  refine ⟨h.pending, ?_, ?_, h.apart, ?_⟩
  · intro client' draft envelope hmem
    rcases List.mem_append.mp hmem with hmem | hmem
    · exact h.posted _ _ _ hmem
    · obtain ⟨rfl, rfl, rfl⟩ := Activity.posted.inj (List.mem_singleton.mp hmem)
      exact ⟨hdescribes, hdrawn⟩
  · intro client' form' submission' hpending' client'' draft envelope hmem hid
    rcases List.mem_append.mp hmem with hmem | hmem
    · exact h.alone _ _ _ hpending' _ _ _ hmem hid
    · obtain ⟨rfl, rfl, rfl⟩ := Activity.posted.inj (List.mem_singleton.mp hmem)
      -- Nobody else holds a submission under this identifier.
      obtain ⟨rfl, rfl⟩ := h.apart _ _ _ _ _ _ hpending hpending' hid
      obtain rfl := Option.some.inj (hpending.symm.trans hpending')
      exact ⟨rfl, rfl, rfl⟩
  · rw [List.pairwise_append]
    refine ⟨h.pairs, List.pairwise_singleton _ _, ?_⟩
    intro earlier hearlier later hlater
    obtain rfl := List.mem_singleton.mp hlater
    cases earlier with
    | posted client' draft envelope =>
      intro hid
      exact h.alone _ _ _ hpending _ _ _ hearlier hid
    | _ => trivial

/-- A form gets back the submission that it holds, or a new one. -/
theorem Deployment.prepare_cases (d : Deployment C) (client : C) (draft : Draft)
    (envelope : CommandEnvelope) :
    ((d.client client).pending draft.form = some (d.prepare client draft envelope) ∧
        (d.prepare client draft envelope).signature = draft) ∨
      d.prepare client draft envelope = ⟨draft, envelope⟩ := by
  unfold Deployment.prepare prepareCommandSubmission
  split
  · rename_i previous hprevious
    split_ifs with hsame
    · exact Or.inl ⟨hprevious, hsame⟩
    · exact Or.inr rfl
  · exact Or.inr rfl

theorem Deployment.prepare_signature (d : Deployment C) (client : C) (draft : Draft)
    (envelope : CommandEnvelope) : (d.prepare client draft envelope).signature = draft := by
  rcases d.prepare_cases client draft envelope with ⟨_, hsignature⟩ | hnew
  · exact hsignature
  · rw [hnew]

variable [DecidableEq C]

/-- Preparing under a fresh identifier keeps the submissions apart. -/
theorem Deployment.Identified.prepared (h : d.Identified trace) (client : C) {draft : Draft}
    {envelope : CommandEnvelope} (hdraft : draft.Describes envelope)
    (hfresh : envelope.commandId ∉ d.drawn)
    (hnext : ∀ client' form, (next.client client').pending form =
      if client' = client ∧ form = draft.form then some (d.prepare client draft envelope)
      else (d.client client').pending form)
    (hdrawn : next.drawn = envelope.commandId :: d.drawn) : next.Identified trace := by
  have hold : d.drawn ⊆ next.drawn := by
    rw [hdrawn]
    exact List.subset_cons_self _ _
  rcases d.prepare_cases client draft envelope with ⟨hheld, _⟩ | hnew
  · -- The same submission as before.
    have hsame : ∀ client' form, (next.client client').pending form =
        (d.client client').pending form := by
      intro client' form
      rw [hnext]
      split_ifs with hhere
      · obtain ⟨rfl, rfl⟩ := hhere
        exact hheld.symm
      · rfl
    have hshrink : next.Identified (trace ++ (none : Option (Activity C)).toList) :=
      h.shrink (by simp) (fun client' form submission hp => by rwa [hsame] at hp) hold
    rwa [Option.toList_none, List.append_nil] at hshrink
  · rw [hnew] at hnext
    have hcases {client' : C} {form : Form} {submission : Submission}
        (hp : (next.client client').pending form = some submission) :
        (client' = client ∧ form = draft.form ∧ submission = ⟨draft, envelope⟩) ∨
          (d.client client').pending form = some submission := by
      rw [hnext] at hp
      split_ifs at hp with hhere
      · exact Or.inl ⟨hhere.1, hhere.2, (Option.some.inj hp).symm⟩
      · exact Or.inr hp
    refine ⟨?_, ?_, ?_, ?_, h.pairs⟩
    · intro client' form submission hp
      rcases hcases hp with ⟨rfl, rfl, rfl⟩ | hp
      · rw [hdrawn]
        exact ⟨rfl, hdraft, List.mem_cons_self⟩
      · obtain ⟨hform, hdescribes, hid⟩ := h.pending _ _ _ hp
        exact ⟨hform, hdescribes, hold hid⟩
    · intro client' draft' envelope' hmem
      obtain ⟨hdescribes, hid⟩ := h.posted _ _ _ hmem
      exact ⟨hdescribes, hold hid⟩
    · intro client' form submission hp client'' draft' envelope' hmem hid
      rcases hcases hp with ⟨rfl, rfl, rfl⟩ | hp
      · obtain ⟨_, hused⟩ := h.posted _ _ _ hmem
        rw [hid] at hused
        exact absurd hused hfresh
      · exact h.alone _ _ _ hp _ _ _ hmem hid
    · intro client₁ form₁ submission₁ client₂ form₂ submission₂ hp₁ hp₂ hid
      rcases hcases hp₁ with ⟨rfl, rfl, rfl⟩ | hp₁ <;> rcases hcases hp₂ with ⟨rfl, rfl, rfl⟩ | hp₂
      · exact ⟨rfl, rfl⟩
      · obtain ⟨_, _, hused⟩ := h.pending _ _ _ hp₂
        rw [← hid] at hused
        exact absurd hused hfresh
      · obtain ⟨_, _, hused⟩ := h.pending _ _ _ hp₁
        rw [hid] at hused
        exact absurd hused hfresh
      · exact h.apart _ _ _ _ _ _ hp₁ hp₂ hid

end Identifiers

section Services

variable {service next : FileService} {batches : List CommandBatch} {frames : List Bytes}
  {tail : Bytes} {envelope : CommandEnvelope}

/-- What a restart finds behind an execution is what it found before, or the record
of the command. -/
theorem restart_execute (h : service.Standing limits batches frames tail)
    {restarted : FileService}
    (hrestart : FileService.restart (service.execute envelope).2 limits = .ok restarted)
    {id : CommandId} {record : IdempotencyRecord} (hrecord : restarted.idempotency[id]? =
      some record) :
    (∃ before : FileService, service.restart limits = .ok before ∧
        before.idempotency[id]? = some record) ∨
      envelope.commandId = id ∧ canonicalCommandBytes envelope = .ok record.canonicalRequest := by
  rcases service.execute_cases envelope with ⟨hsame, _⟩ |
    ⟨canonical, frame, evaluation, batch, hp, houtcome⟩
  · rw [hsame] at hrestart
    exact Or.inl ⟨restarted, hrestart, hrecord⟩
  have hw : service.store.writable = true := hp.writable
  obtain rfl := h.tail_nil hw
  have hbefore := h.restart_whole
  have hc := h.commits hp
  obtain ⟨_, hid, hrequest, _, hresult⟩ := CommandBatch.create_ok_iff.mp hp.batched
  -- The index of a longer journal has one record more.
  have hlonger (hfound : restarted.idempotency = indexOf (batches ++ [batch])) :
      (∃ before : FileService, service.restart limits = .ok before ∧
          before.idempotency[id]? = some record) ∨
        envelope.commandId = id ∧
          canonicalCommandBytes envelope = .ok record.canonicalRequest := by
    rw [hfound, indexOf_append, OrderedMap.getElem?_insert_eq] at hrecord
    split_ifs at hrecord with hsame
    · right
      obtain rfl := Option.some.inj hrecord
      exact ⟨(hsame.trans hid).symm, hrequest ▸ hp.canonical_eq⟩
    · left
      rw [← h.index] at hrecord
      exact ⟨_, hbefore, hrecord⟩
  have hbytes := h.bytes
  rw [List.append_nil] at hbytes
  have hframed := framed_append h.framed hp.encoded
  have hwhole : (frames ++ [frame]).flatten = service.store.bytes ++ frame := by
    rw [List.flatten_append, List.flatten_singleton, hbytes]
  have hall := journalFormat_lawful.scan_frames hframed
  rw [hwhole] at hall
  have hlong := (h.accepted.commit hc).create hall
  rcases houtcome with ⟨failure, store, happend, hexec⟩ | ⟨store, happend, hexec⟩
  · rcases FileJournalStore.append_cases hw happend with ⟨cause, _, _, rfl⟩ | ⟨hok, _⟩
    · rw [hexec, FileService.restart] at hrestart
      dsimp only at hrestart
      rcases Nat.lt_or_ge cause.persisted frame.length with htorn | hkept
      · -- A torn frame is cut off again.
        left
        have hscan := journalFormat_lawful.scan_torn h.framed hp.encoded htorn
        rw [← hbytes] at hscan
        have hshort := h.accepted.create hscan
        obtain rfl := Except.ok.inj (hrestart.symm.trans hshort)
        have hfound : service.idempotency[id]? = some record := by
          rw [h.index]
          exact hrecord
        exact ⟨_, hbefore, hfound⟩
      · rw [List.take_of_length_le hkept] at hrestart
        obtain rfl := Except.ok.inj (hrestart.symm.trans hlong)
        exact hlonger rfl
    · cases hok
  · rcases FileJournalStore.append_cases hw happend with ⟨_, _, herror, _⟩ | ⟨_, hnext, _⟩
    · cases herror
    · rw [hexec, FileService.restart] at hrestart
      dsimp only at hrestart
      rw [hnext] at hrestart
      obtain rfl := Except.ok.inj (hrestart.symm.trans hlong)
      exact hlonger rfl

def Shown (service : FileService) (envelope : CommandEnvelope) (response : CommandResponse) :
    Prop :=
  ∃ receipt : CommandReceipt, response = receipt.view ∧ service.Recalls envelope receipt

theorem Shown.later {response : CommandResponse} (h : Shown service envelope response)
    (hstanding : service.Standing limits batches frames tail)
    (hstep : FileService.Step limits service next) : Shown next envelope response := by
  obtain ⟨receipt, rfl, hrecalls⟩ := h
  exact ⟨receipt, rfl, hrecalls.later hstanding hstep⟩

variable {isRealDay : Bytes → Bool} {parse : Bytes → Option ParsedJson}
  {stringify : CommandEnvelope → Bytes}

/-- A delivered post is one execution, or nothing but the fault has changed. -/
theorem handlePost_cases (hday : ∀ date : IsoDate, isRealDay date.toString = true)
    (hjson : parse (stringify envelope) = some (requestDocument envelope))
    (hversioned : envelope.command.Versioned) (service : FileService) :
    ((handlePost isRealDay parse stringify service envelope).2 = service ∧
        ∃ error, (handlePost isRealDay parse stringify service envelope).1 = .error error) ∨
      (handlePost isRealDay parse stringify service envelope).2 = (service.execute envelope).2 ∧
        ∀ response, (handlePost isRealDay parse stringify service envelope).1 = .ok response →
          Shown (service.execute envelope).2 envelope response := by
  have hcases := HttpServer.commands_document_cases service
    ⟨some HttpServer.jsonContentType, stringify envelope⟩ hday hversioned hjson
  rcases hcases with hrefused | ⟨hnext, hanswer⟩
  · exact Or.inl hrefused
  · right
    refine ⟨hnext, ?_⟩
    intro response hresponse
    have hresult := hanswer.symm.trans hresponse
    rcases hexecute : (service.execute envelope).1 with failure | receipt
    · rw [hexecute] at hresult
      cases hresult
    · rw [hexecute] at hresult
      obtain rfl := Except.ok.inj hresult
      exact ⟨receipt, rfl, (FileService.execute_recalls hexecute).1⟩

end Services

structure Deployment.Effects (limits : LimitHierarchy) (first : FileService)
    (trace : List (Activity C)) (d : Deployment C) : Prop where
  stands : ∃ batches frames tail, d.service.Standing limits batches frames tail
  unsent : ∀ number, d.sent ≤ number → d.requests number = none ∧ d.responses number = none
  requested : ∀ number envelope, d.requests number = some envelope →
    ∃ client draft, .posted client draft envelope ∈ trace
  posting : ∀ client number submission,
    (d.client client).write = some (.posting number submission) → number < d.sent ∧
      (∀ envelope, d.requests number = some envelope → envelope = submission.command) ∧
      ∀ response, d.responses number = some (.ok response) →
        Shown d.service submission.command response
  refreshing : ∀ client submission response,
    (d.client client).write = some (.refreshing submission response) →
      Shown d.service submission.command response
  succeeded : ∀ client draft envelope response,
    .succeeded client draft envelope response ∈ trace → Shown d.service envelope response
  origin : ∀ restarted : FileService, d.service.restart limits = .ok restarted →
    ∀ (id : CommandId) (record : IdempotencyRecord), restarted.idempotency[id]? = some record →
      first.idempotency[id]? = some record ∨
        ∃ client draft envelope, .posted client draft envelope ∈ trace ∧ envelope.commandId = id ∧
          canonicalCommandBytes envelope = .ok record.canonicalRequest

section Effects

variable {first : FileService} {d next : Deployment C}

/-- Less on the way and fewer writes under way change nothing for the rest. -/
theorem Deployment.Effects.weaken (h : d.Effects limits first trace)
    {event : Option (Activity C)}
    (hevent : ∀ client draft envelope response,
      event ≠ some (.succeeded client draft envelope response))
    (hservice : next.service = d.service) (hsent : next.sent = d.sent)
    (hrequests : ∀ number envelope, next.requests number = some envelope →
      d.requests number = some envelope)
    (hresponses : ∀ number response, next.responses number = some response →
      d.responses number = some response)
    (hwrite : ∀ client write, (next.client client).write = some write →
      (d.client client).write = some write) :
    next.Effects limits first (trace ++ event.toList) := by
  have hkept : trace ⊆ trace ++ event.toList := List.subset_append_left _ _
  have hnone {α : Type} {value : Option α} {f : Option α}
      (hsub : ∀ a, f = some a → value = some a) (hv : value = none) : f = none := by
    cases hf : f with
    | none => rfl
    | some a =>
      rw [hsub a hf] at hv
      cases hv
  refine ⟨by rw [hservice]; exact h.stands, ?_, ?_, ?_, ?_, ?_, ?_⟩
  · intro number hle
    rw [hsent] at hle
    obtain ⟨hrequest, hresponse⟩ := h.unsent number hle
    exact ⟨hnone (hrequests number) hrequest, hnone (hresponses number) hresponse⟩
  · intro number envelope hrequest
    obtain ⟨client, draft, hmem⟩ := h.requested _ _ (hrequests _ _ hrequest)
    exact ⟨client, draft, hkept hmem⟩
  · intro client number submission hw
    obtain ⟨hlt, hrequest, hresponse⟩ := h.posting _ _ _ (hwrite _ _ hw)
    rw [hservice, hsent]
    exact ⟨hlt, fun envelope he => hrequest envelope (hrequests _ _ he),
      fun response hr => hresponse response (hresponses _ _ hr)⟩
  · intro client submission response hw
    rw [hservice]
    exact h.refreshing _ _ _ (hwrite _ _ hw)
  · intro client draft envelope response hmem
    rw [hservice]
    rcases List.mem_append.mp hmem with hmem | hmem
    · exact h.succeeded _ _ _ _ hmem
    · rw [Option.mem_toList] at hmem
      exact absurd hmem (hevent client draft envelope response)
  · intro restarted hrestart id record hrecord
    rw [hservice] at hrestart
    rcases h.origin restarted hrestart id record hrecord with hfirst |
      ⟨client, draft, envelope, hmem, hid, hcanonical⟩
    · exact Or.inl hfirst
    · exact Or.inr ⟨client, draft, envelope, hkept hmem, hid, hcanonical⟩

/-- A step of the service shows nothing that was shown differently. -/
theorem Deployment.Effects.serve (h : d.Effects limits first trace) {service : FileService}
    (hstep : FileService.Step limits d.service service)
    (horigin : ∀ restarted : FileService, service.restart limits = .ok restarted →
      ∀ (id : CommandId) (record : IdempotencyRecord), restarted.idempotency[id]? = some record →
        (∃ before : FileService, d.service.restart limits = .ok before ∧
            before.idempotency[id]? = some record) ∨
          ∃ client draft envelope, .posted client draft envelope ∈ trace ∧
            envelope.commandId = id ∧
            canonicalCommandBytes envelope = .ok record.canonicalRequest) :
    Deployment.Effects limits first trace { d with service := service } := by
  obtain ⟨_, _, _, hstanding⟩ := h.stands
  obtain ⟨batches', frames', tail', _, hnext⟩ := hstanding.step hstep
  refine ⟨⟨batches', frames', tail', hnext⟩, h.unsent, h.requested, ?_, ?_, ?_, ?_⟩
  · intro client number submission hw
    obtain ⟨hlt, hrequest, hresponse⟩ := h.posting _ _ _ hw
    exact ⟨hlt, hrequest, fun response hr => (hresponse response hr).later hstanding hstep⟩
  · intro client submission response hw
    exact (h.refreshing _ _ _ hw).later hstanding hstep
  · intro client draft envelope response hmem
    exact (h.succeeded _ _ _ _ hmem).later hstanding hstep
  · intro restarted hrestart id record hrecord
    rcases horigin restarted hrestart id record hrecord with ⟨before, hbefore, hold⟩ | hposted
    · exact h.origin before hbefore id record hold
    · exact Or.inr hposted

/-- The response to a delivered post is kept under its number. -/
theorem Deployment.Effects.respond (h : d.Effects limits first trace) {number : ℕ}
    {envelope : CommandEnvelope} (hrequest : d.requests number = some envelope)
    {result : ClientResult CommandResponse}
    (hresult : ∀ response, result = .ok response → Shown d.service envelope response) :
    Deployment.Effects limits first trace { d with
      requests := Function.update d.requests number none
      responses := Function.update d.responses number (some result) } := by
  have hsent : number < d.sent := by
    by_contra hle
    obtain ⟨hnone, _⟩ := h.unsent number (Nat.not_lt.mp hle)
    rw [hrequest] at hnone
    cases hnone
  refine ⟨h.stands, ?_, ?_, ?_, h.refreshing, h.succeeded, h.origin⟩
  · intro other hle
    have hne : other ≠ number := by
      rintro rfl
      exact absurd hsent (Nat.not_lt.mpr hle)
    obtain ⟨hnone, hnone'⟩ := h.unsent other hle
    exact ⟨by simp [hne, hnone], by simp [hne, hnone']⟩
  · intro other envelope' he
    by_cases hother : other = number
    · subst hother
      simp at he
    · exact h.requested other envelope' (by simpa [hother] using he)
  · intro client other submission hw
    obtain ⟨hlt, honly, hresponse⟩ := h.posting _ _ _ hw
    by_cases hother : other = number
    · subst hother
      refine ⟨hlt, by simp, ?_⟩
      intro response hr
      have hsame : some result = some (.ok response) := by simpa using hr
      obtain rfl := honly envelope hrequest
      exact hresult response (Option.some.inj hsame)
    · exact ⟨hlt, fun envelope' he => honly envelope' (by simpa [hother] using he),
        fun response hr => hresponse response (by simpa [hother] using hr)⟩

/-- Whether the next append will fail is nothing that was shown. -/
theorem Deployment.Effects.fault (h : d.Effects limits first trace) (fault : Option WriteFault) :
    Deployment.Effects limits first trace { d with service := d.service.withFault fault } := by
  obtain ⟨batches, frames, tail, hstanding⟩ := h.stands
  exact ⟨⟨batches, frames, tail, hstanding.withFault fault⟩, h.unsent, h.requested, h.posting,
    h.refreshing, h.succeeded, h.origin⟩

variable [DecidableEq C]

theorem Deployment.withClient_client (d : Deployment C) (client other : C) (state : Client) :
    (d.withClient client state).client other = if other = client then state
      else d.client other := by
  simp [Deployment.withClient, Function.update_apply]

theorem Deployment.Effects.post (h : d.Effects limits first trace) {client : C} {draft : Draft}
    {submission : Submission} {pending : Form → Option Submission} {drawn : List CommandId} :
    Deployment.Effects limits first (trace ++ [.posted client draft submission.command])
      { d.withClient client ⟨pending, some (.posting d.sent submission)⟩ with
        requests := Function.update d.requests d.sent (some submission.command)
        sent := d.sent + 1
        drawn := drawn } := by
  have hkept : trace ⊆ trace ++ [.posted client draft submission.command] :=
    List.subset_append_left _ _
  obtain ⟨_, hnoresponse⟩ := h.unsent d.sent le_rfl
  refine ⟨h.stands, ?_, ?_, ?_, ?_, ?_, ?_⟩
  · intro number hle
    have hle : d.sent + 1 ≤ number := hle
    have hne : number ≠ d.sent := by omega
    obtain ⟨hrequest, hresponse⟩ := h.unsent number (by omega)
    exact ⟨by simp [hne, hrequest], hresponse⟩
  · intro number envelope hrequest
    by_cases hnumber : number = d.sent
    · subst hnumber
      have hsame : some submission.command = some envelope := by simpa using hrequest
      obtain rfl := Option.some.inj hsame
      exact ⟨client, draft, by simp⟩
    · have hold : d.requests number = some envelope := by simpa [hnumber] using hrequest
      obtain ⟨client', draft', hmem⟩ := h.requested _ _ hold
      exact ⟨client', draft', hkept hmem⟩
  · intro other number submission' hw
    have hw' : ((d.withClient client ⟨pending, some (.posting d.sent submission)⟩).client
      other).write = some (.posting number submission') := hw
    rw [Deployment.withClient_client] at hw'
    split_ifs at hw' with hother
    · obtain ⟨rfl, rfl⟩ := Write.posting.inj (Option.some.inj hw')
      refine ⟨Nat.lt_succ_self _, ?_, ?_⟩
      · intro envelope hrequest
        have hsame : some submission.command = some envelope := by simpa using hrequest
        exact (Option.some.inj hsame).symm
      · intro response hresponse
        have hnone : d.responses d.sent = some (.ok response) := hresponse
        rw [hnoresponse] at hnone
        cases hnone
    · obtain ⟨hlt, hrequest, hresponse⟩ := h.posting _ _ _ hw'
      refine ⟨Nat.lt_succ_of_lt hlt, ?_, hresponse⟩
      intro envelope he
      have hne : number ≠ d.sent := hlt.ne
      exact hrequest envelope (by simpa [hne] using he)
  · intro other submission' response hw
    have hw' : ((d.withClient client ⟨pending, some (.posting d.sent submission)⟩).client
      other).write = some (.refreshing submission' response) := hw
    rw [Deployment.withClient_client] at hw'
    split_ifs at hw'
    · cases hw'
    · exact h.refreshing _ _ _ hw'
  · intro other draft' envelope response hmem
    have hold : .succeeded other draft' envelope response ∈ trace := by simpa using hmem
    exact h.succeeded _ _ _ _ hold
  · intro restarted hrestart id record hrecord
    rcases h.origin restarted hrestart id record hrecord with hfirst |
      ⟨client', draft', envelope, hmem, hid, hcanonical⟩
    · exact Or.inl hfirst
    · exact Or.inr ⟨client', draft', envelope, hkept hmem, hid, hcanonical⟩

end Effects

section Runs

variable [DecidableEq C] {isRealDay : Bytes → Bool} {parse : Bytes → Option ParsedJson}
  {stringify : CommandEnvelope → Bytes} {first : FileService} {d next : Deployment C}
  {event : Option (Activity C)}

theorem Client.withPending_pending (client : Client) (form other : Form)
    (submission : Option Submission) : (client.withPending form submission).pending other =
      if other = form then submission else client.pending other := by
  simp [Client.withPending, Function.update_apply]

/-- A success makes a form forget at most. -/
theorem Client.release_pending {client : Client} {submission kept : Submission} {form : Form}
    (h : (client.release submission).pending form = some kept) :
    client.pending form = some kept := by
  have hforget (other : Form) (hp : (client.withPending other none).pending form = some kept) :
      client.pending form = some kept := by
    rw [Client.withPending_pending] at hp
    split_ifs at hp
    exact hp
  unfold Client.release at h
  split at h
  · split_ifs at h
    · exact hforget _ h
    · exact h
  · exact hforget _ h

/-- What `withClient` leaves of the submissions. -/
theorem Deployment.withClient_pending {client other : C} {state : Client} {form : Form}
    {submission : Submission}
    (hstate : ∀ form submission, state.pending form = some submission →
      (d.client client).pending form = some submission)
    (h : ((d.withClient client state).client other).pending form = some submission) :
    (d.client other).pending form = some submission := by
  rw [Deployment.withClient_client] at h
  split_ifs at h with hother
  · rw [hother]
    exact hstate form submission h
  · exact h

theorem Deployment.withClient_write {client other : C} {state : Client} {write : Write}
    (hstate : ∀ write, state.write = some write → (d.client client).write = some write)
    (h : ((d.withClient client state).client other).write = some write) :
    (d.client other).write = some write := by
  rw [Deployment.withClient_client] at h
  split_ifs at h with hother
  · rw [hother]
    exact hstate write h
  · exact h

/-- A client that only forgets keeps the identifiers apart. -/
theorem Deployment.Identified.forget (h : d.Identified trace)
    (hevent : ∀ client draft envelope, event ≠ some (.posted client draft envelope)) {client : C}
    {state : Client} (hstate : ∀ form submission, state.pending form = some submission →
      (d.client client).pending form = some submission) :
    (d.withClient client state).Identified (trace ++ event.toList) := by
  refine h.shrink hevent ?_ (List.Subset.refl _)
  intro other form submission hp
  exact Deployment.withClient_pending hstate hp

/-- Identifiers go through every step. -/
theorem Deployment.Identified.step (h : d.Identified trace)
    (hstep : Deployment.Step isRealDay parse stringify limits d event next) :
    next.Identified (trace ++ event.toList) := by
  cases hstep with
  | post client draft envelope hdraft hfresh hunused idle =>
    have hprepared : Deployment.Identified trace
        { d.withClient client ⟨Function.update (d.client client).pending draft.form
            (some (d.prepare client draft envelope)),
            some (.posting d.sent (d.prepare client draft envelope))⟩ with
          requests := Function.update d.requests d.sent
            (some (d.prepare client draft envelope).command)
          sent := d.sent + 1
          drawn := envelope.commandId :: d.drawn } := by
      refine h.prepared client hdraft hfresh ?_ rfl
      intro client' form
      show ((d.withClient client _).client client').pending form = _
      rw [Deployment.withClient_client]
      by_cases hclient : client' = client
      · subst hclient
        simp [Function.update_apply]
      · simp [hclient]
    have hheld : ((d.withClient client ⟨Function.update (d.client client).pending draft.form
        (some (d.prepare client draft envelope)),
        some (.posting d.sent (d.prepare client draft envelope))⟩).client client).pending
          draft.form = some (d.prepare client draft envelope) := by
      simp [Deployment.withClient]
    have hsee := hprepared.see hheld
    rw [d.prepare_signature] at hsee
    exact hsee
  | block client draft envelope hdraft hfresh hunused =>
    have hprepared : Deployment.Identified trace
        { d.withClient client ((d.client client).withPending draft.form
            (some (d.prepare client draft envelope))) with
          drawn := envelope.commandId :: d.drawn } := by
      refine h.prepared client hdraft hfresh ?_ rfl
      intro client' form
      show ((d.withClient client _).client client').pending form = _
      rw [Deployment.withClient_client]
      by_cases hclient : client' = client
      · subst hclient
        simp [Client.withPending_pending]
      · simp [hclient]
    exact hprepared.shrink (by simp)
      (fun _ _ _ hp => hp) (List.Subset.refl _)
  | close client form =>
    apply h.forget (by simp)
    intro form' submission hp
    rw [Client.withPending_pending] at hp
    split_ifs at hp
    exact hp
  | reload client => exact h.forget (by simp) fun _ _ hp => by cases hp
  | deliver fault hrequest =>
    exact h.shrink (by simp) (fun _ _ _ hp => hp) (List.Subset.refl _)
  | dropRequest number => exact h.shrink (by simp) (fun _ _ _ hp => hp) (List.Subset.refl _)
  | dropResponse number => exact h.shrink (by simp) (fun _ _ _ hp => hp) (List.Subset.refl _)
  | accept hwrite hresponse => exact h.forget (by simp) fun _ _ hp => hp
  | refuse hwrite hresponse => exact h.forget (by simp) fun _ _ hp => hp
  | giveUp reason message hwrite => exact h.forget (by simp) fun _ _ hp => hp
  | finish hwrite => exact h.forget (by simp) fun _ _ hp => Client.release_pending hp
  | restart hrestart => exact h.shrink (by simp) (fun _ _ _ hp => hp) (List.Subset.refl _)

/-- A client that starts no write knows no more than before. -/
theorem Deployment.Effects.forget (h : d.Effects limits first trace)
    (hevent : ∀ client draft envelope response,
      event ≠ some (.succeeded client draft envelope response))
    {client : C} {state : Client} (hstate : ∀ write, state.write = some write →
      (d.client client).write = some write) :
    (d.withClient client state).Effects limits first (trace ++ event.toList) := by
  refine h.weaken hevent rfl rfl (fun _ _ he => he) (fun _ _ he => he) ?_
  intro other write hw
  exact Deployment.withClient_write hstate hw

theorem eq_some_of_update_none {α : Type} {f : ℕ → Option α} {number other : ℕ} {a : α}
    (h : Function.update f number none other = some a) : f other = some a := by
  rw [Function.update_apply] at h
  split_ifs at h
  exact h

omit [DecidableEq C] in
theorem Deployment.Effects.dropRequest (h : d.Effects limits first trace) (number : ℕ) :
    Deployment.Effects limits first (trace ++ (none : Option (Activity C)).toList)
      { d with requests := Function.update d.requests number none } :=
  h.weaken (by simp) rfl rfl (fun _ _ he => eq_some_of_update_none he) (fun _ _ he => he)
    (fun _ _ he => he)

omit [DecidableEq C] in
theorem Deployment.Effects.dropResponse (h : d.Effects limits first trace) (number : ℕ) :
    Deployment.Effects limits first (trace ++ (none : Option (Activity C)).toList)
      { d with responses := Function.update d.responses number none } :=
  h.weaken (by simp) rfl rfl (fun _ _ he => he) (fun _ _ he => eq_some_of_update_none he)
    (fun _ _ he => he)

omit [DecidableEq C] in
/-- What an execution adds to the next restart is the posted command. -/
theorem Deployment.Effects.deliver (hday : ∀ date : IsoDate, isRealDay date.toString = true)
    (hjson : ∀ client draft envelope, .posted client draft envelope ∈ trace →
      parse (stringify envelope) = some (requestDocument envelope))
    (h : d.Effects limits first trace) (hid : d.Identified trace) {number : ℕ}
    {envelope : CommandEnvelope} (fault : Option WriteFault)
    (hrequest : d.requests number = some envelope) :
    Deployment.Effects limits first trace { d with
      service := (handlePost isRealDay parse stringify (d.service.withFault fault) envelope).2
      requests := Function.update d.requests number none
      responses := Function.update d.responses number
        (some (handlePost isRealDay parse stringify (d.service.withFault fault) envelope).1) } := by
  obtain ⟨client, draft, hmem⟩ := h.requested _ _ hrequest
  obtain ⟨⟨reversalIds, postingIds, hcommand⟩, _⟩ := hid.posted _ _ _ hmem
  have hversioned : envelope.command.Versioned := by
    rw [hcommand]
    exact draft.command_versioned reversalIds postingIds
  rcases handlePost_cases hday (hjson _ _ _ hmem) hversioned (d.service.withFault fault) with
    ⟨hnext, error, hresult⟩ | ⟨hnext, hresult⟩
  · rw [hnext, hresult]
    exact (h.fault fault).respond hrequest nofun
  · rw [hnext]
    have hserved := h.serve (.execute d.service fault envelope) (by
      intro restarted hrestart id record hrecord
      obtain ⟨_, _, _, hstanding⟩ := h.stands
      rcases restart_execute (hstanding.withFault fault) hrestart hrecord with
        ⟨before, hbefore, hold⟩ | ⟨hsame, hcanonical⟩
      · exact Or.inl ⟨before, hbefore, hold⟩
      · exact Or.inr ⟨client, draft, envelope, hmem, hsame, hcanonical⟩)
    exact hserved.respond hrequest hresult

theorem Deployment.Effects.accept (h : d.Effects limits first trace) {client : C} {number : ℕ}
    {submission : Submission} {response : CommandResponse}
    (hwrite : (d.client client).write = some (.posting number submission))
    (hresponse : d.responses number = some (.ok response)) :
    (d.withClient client { d.client client with
      write := some (.refreshing submission response) }).Effects limits first trace := by
  obtain ⟨_, _, hshown⟩ := h.posting _ _ _ hwrite
  refine ⟨h.stands, h.unsent, h.requested, ?_, ?_, h.succeeded, h.origin⟩
  · intro other number' submission' hw
    rw [Deployment.withClient_client] at hw
    split_ifs at hw
    · cases hw
    · exact h.posting _ _ _ hw
  · intro other submission' response' hw
    rw [Deployment.withClient_client] at hw
    split_ifs at hw
    · obtain ⟨rfl, rfl⟩ := Write.refreshing.inj (Option.some.inj hw)
      exact hshown response hresponse
    · exact h.refreshing _ _ _ hw

/-- A success tells what was shown when its response came. -/
theorem Deployment.Effects.finish (h : d.Effects limits first trace) {client : C}
    {submission : Submission} {response : CommandResponse}
    (hwrite : (d.client client).write = some (.refreshing submission response)) :
    (d.withClient client
        { (d.client client).release submission with write := none }).Effects limits first
      (trace ++ [.succeeded client submission.signature submission.command response]) := by
  have hforget : Deployment.Effects limits first (trace ++ (none : Option (Activity C)).toList)
      (d.withClient client { (d.client client).release submission with write := none }) :=
    h.forget (by simp) fun _ hw => by cases hw
  rw [Option.toList_none, List.append_nil] at hforget
  have hkept : trace ⊆
      trace ++ [.succeeded client submission.signature submission.command response] :=
    List.subset_append_left _ _
  refine ⟨hforget.stands, hforget.unsent, ?_, hforget.posting, hforget.refreshing, ?_, ?_⟩
  · intro number envelope he
    obtain ⟨client', draft, hmem⟩ := h.requested _ _ he
    exact ⟨client', draft, hkept hmem⟩
  · intro client' draft envelope response' hmem
    rcases List.mem_append.mp hmem with hmem | hmem
    · exact h.succeeded _ _ _ _ hmem
    · obtain ⟨rfl, rfl, rfl, rfl⟩ := Activity.succeeded.inj (List.mem_singleton.mp hmem)
      exact h.refreshing _ _ _ hwrite
  · intro restarted hrestart id record hrecord
    rcases h.origin restarted hrestart id record hrecord with hfirst |
      ⟨client', draft, envelope, hmem, hsame, hcanonical⟩
    · exact Or.inl hfirst
    · exact Or.inr ⟨client', draft, envelope, hkept hmem, hsame, hcanonical⟩

omit [DecidableEq C] in
theorem Deployment.Effects.restart (h : d.Effects limits first trace) {restarted : FileService}
    (hrestart : d.service.restart limits = .ok restarted) :
    Deployment.Effects limits first trace { d with service := restarted } := by
  refine h.serve (.restart hrestart) ?_
  intro again hagain id record hrecord
  obtain ⟨_, _, _, hstanding⟩ := h.stands
  obtain ⟨other, _, _, hother, _, hwhole, _⟩ := hstanding.restart
  obtain rfl := Except.ok.inj (hrestart.symm.trans hother)
  obtain rfl := Except.ok.inj (hagain.symm.trans hwhole.restart_whole)
  exact Or.inl ⟨restarted, hrestart, hrecord⟩

/-- Effects go through every step. -/
theorem Deployment.Effects.step (hday : ∀ date : IsoDate, isRealDay date.toString = true)
    (hjson : ∀ client draft envelope, .posted client draft envelope ∈ trace →
      parse (stringify envelope) = some (requestDocument envelope))
    (h : d.Effects limits first trace) (hid : d.Identified trace)
    (hstep : Deployment.Step isRealDay parse stringify limits d event next) :
    next.Effects limits first (trace ++ event.toList) := by
  cases hstep with
  | post client draft envelope hdraft hfresh hunused idle => exact h.post
  | block client draft envelope hdraft hfresh hunused =>
    have hforget : (d.withClient client ((d.client client).withPending draft.form
        (some (d.prepare client draft envelope)))).Effects limits first
        (trace ++ (some (Activity.blocked client draft)).toList) :=
      h.forget (by simp) fun _ hw => hw
    exact ⟨hforget.stands, hforget.unsent, hforget.requested, hforget.posting,
      hforget.refreshing, hforget.succeeded, hforget.origin⟩
  | close client form => exact h.forget (by simp) fun _ hw => hw
  | reload client => exact h.forget (by simp) fun _ hw => by cases hw
  | deliver fault hrequest =>
    rw [Option.toList_none, List.append_nil]
    exact h.deliver hday hjson hid fault hrequest
  | dropRequest number => exact h.dropRequest number
  | dropResponse number => exact h.dropResponse number
  | accept hwrite hresponse =>
    rw [Option.toList_none, List.append_nil]
    exact h.accept hwrite hresponse
  | refuse hwrite hresponse => exact h.forget (by simp) fun _ hw => by cases hw
  | giveUp reason message hwrite => exact h.forget (by simp) fun _ hw => by cases hw
  | finish hwrite => exact h.finish hwrite
  | restart hrestart =>
    rw [Option.toList_none, List.append_nil]
    exact h.restart hrestart

def Activity.Renews (client : C) (draft : Draft) : Activity C → Prop
  | .posted other draft' _ | .blocked other draft' =>
    other = client ∧ draft'.form = draft.form ∧ draft' ≠ draft
  | .succeeded other draft' _ _ => other = client ∧ draft'.form = draft.form
  | .closed other form => other = client ∧ form = draft.form
  | .reloaded other => other = client
  | .failed _ _ _ => False

def Activity.Ends (client : C) : Activity C → Prop
  | .succeeded other _ _ _ | .failed other _ _ | .reloaded other => other = client
  | _ => False

omit [DecidableEq C] in
/-- A form that holds a submission of the draft gets it back. -/
theorem Deployment.prepare_held {client : C} {draft : Draft} {submission : Submission}
    (h : (d.client client).pending draft.form = some submission)
    (hsignature : submission.signature = draft) (envelope : CommandEnvelope) :
    d.prepare client draft envelope = submission := by
  unfold Deployment.prepare prepareCommandSubmission
  rw [h]
  exact if_pos hsignature

theorem Client.release_other {client : Client} {submission : Submission} {form : Form}
    (hform : form ≠ submission.signature.form) :
    (client.release submission).pending form = client.pending form := by
  unfold Client.release
  split
  · rename_i hbutton
    rw [hbutton] at hform
    split_ifs
    · rw [Client.withPending_pending, if_neg hform]
    · rfl
  · rw [Client.withPending_pending, if_neg hform]

/-- A step that does not renew the form leaves its submission. -/
theorem Deployment.pending_step {client : C} {draft : Draft} {submission : Submission}
    (h : (d.client client).pending draft.form = some submission)
    (hsignature : submission.signature = draft)
    (hstep : Deployment.Step isRealDay parse stringify limits d event next)
    (hevent : ∀ activity ∈ event.toList, ¬activity.Renews client draft) :
    (next.client client).pending draft.form = some submission := by
  -- A client that is another one, or leaves this form alone, keeps it.
  have hkeep {other : C} {state : Client}
      (hstate : other = client → state.pending draft.form =
        (d.client client).pending draft.form) :
      ((d.withClient other state).client client).pending draft.form = some submission := by
    rw [Deployment.withClient_client]
    split_ifs with hother
    · rw [hstate hother.symm, h]
    · exact h
  have hupdate {other : C} {draft' : Draft} {envelope : CommandEnvelope}
      (hsame : ¬(other = client ∧ draft'.form = draft.form ∧ draft' ≠ draft))
      (hother : other = client) : Function.update (d.client other).pending draft'.form
        (some (d.prepare other draft' envelope)) draft.form =
          (d.client client).pending draft.form := by
    subst hother
    by_cases hform : draft.form = draft'.form
    · have hdraft : draft' = draft := by
        by_contra hne
        exact hsame ⟨rfl, hform.symm, hne⟩
      subst hdraft
      rw [Function.update_self, Deployment.prepare_held h hsignature, h]
    · rw [Function.update_of_ne hform]
  cases hstep with
  | post other draft' envelope _ _ _ _ =>
    have hsame : ¬(other = client ∧ draft'.form = draft.form ∧ draft' ≠ draft) :=
      hevent _ (List.mem_singleton_self _)
    exact hkeep (hupdate hsame)
  | block other draft' envelope _ _ _ =>
    have hsame : ¬(other = client ∧ draft'.form = draft.form ∧ draft' ≠ draft) :=
      hevent _ (List.mem_singleton_self _)
    exact hkeep (hupdate hsame)
  | close other form =>
    apply hkeep
    rintro rfl
    have hform : draft.form ≠ form := by
      intro hform
      exact hevent _ (List.mem_singleton_self _) ⟨rfl, hform.symm⟩
    rw [Client.withPending_pending, if_neg hform]
  | reload other =>
    apply hkeep
    intro hother
    exact absurd hother (hevent _ (List.mem_singleton_self _))
  | deliver _ _ => exact h
  | dropRequest _ => exact h
  | dropResponse _ => exact h
  | accept _ _ => exact hkeep fun hother => by rw [hother]
  | refuse _ _ => exact hkeep fun hother => by rw [hother]
  | giveUp _ _ _ => exact hkeep fun hother => by rw [hother]
  | @finish other submission' response _ =>
    apply hkeep
    rintro rfl
    have hform : draft.form ≠ submission'.signature.form := by
      intro hform
      exact hevent _ (List.mem_singleton_self _) ⟨rfl, hform.symm⟩
    exact Client.release_other hform
  | restart _ => exact h

/-- A write goes on until the client hears of it or is reloaded. -/
theorem Deployment.write_step {client : C} (h : (d.client client).write ≠ none)
    (hstep : Deployment.Step isRealDay parse stringify limits d event next)
    (hevent : ∀ activity ∈ event.toList, ¬activity.Ends client) :
    (next.client client).write ≠ none := by
  have hkeep {other : C} {state : Client} (hstate : other = client → state.write ≠ none) :
      ((d.withClient other state).client client).write ≠ none := by
    rw [Deployment.withClient_client]
    split_ifs with hother
    · exact hstate hother.symm
    · exact h
  cases hstep with
  | post other draft envelope _ _ _ _ => exact hkeep fun _ => Option.some_ne_none _
  | block other draft envelope _ _ _ => exact hkeep fun hother => by subst hother; exact h
  | close other form => exact hkeep fun hother => by subst hother; exact h
  | reload other => exact hkeep fun hother => absurd hother (hevent _ (List.mem_singleton_self _))
  | deliver _ _ => exact h
  | dropRequest _ => exact h
  | dropResponse _ => exact h
  | accept _ _ => exact hkeep fun _ => Option.some_ne_none _
  | refuse _ _ => exact hkeep fun hother => absurd hother (hevent _ (List.mem_singleton_self _))
  | giveUp _ _ _ => exact hkeep fun hother => absurd hother (hevent _ (List.mem_singleton_self _))
  | finish _ => exact hkeep fun hother => absurd hother (hevent _ (List.mem_singleton_self _))
  | restart _ => exact h

theorem Deployment.pending_run {client : C} {draft : Draft} {submission : Submission}
    (h : (d.client client).pending draft.form = some submission)
    (hsignature : submission.signature = draft)
    (hrun : Run (Deployment.Step isRealDay parse stringify limits) d trace next)
    (hseen : ∀ activity ∈ trace, ¬activity.Renews client draft) :
    (next.client client).pending draft.form = some submission := by
  induction hrun with
  | nil => exact h
  | snoc _ hstep ih =>
    have hheld := ih fun activity ha => hseen activity (List.mem_append_left _ ha)
    exact Deployment.pending_step hheld hsignature hstep
      fun activity ha => hseen activity (List.mem_append_right _ ha)

theorem Deployment.write_run {client : C} (h : (d.client client).write ≠ none)
    (hrun : Run (Deployment.Step isRealDay parse stringify limits) d trace next)
    (hseen : ∀ activity ∈ trace, ¬activity.Ends client) : (next.client client).write ≠ none := by
  induction hrun with
  | nil => exact h
  | snoc _ hstep ih =>
    have hwriting := ih fun activity ha => hseen activity (List.mem_append_left _ ha)
    exact Deployment.write_step hwriting hstep
      fun activity ha => hseen activity (List.mem_append_right _ ha)

omit [DecidableEq C] in
theorem Deployment.started_effects {bytes : Bytes}
    (h : CommandService.create (some (FileJournalStore.opened bytes)) limits = .ok first) :
    (Deployment.started C first).Effects limits first [] := by
  obtain ⟨batches, frames, hstanding⟩ := FileService.standing_of_create h
  refine ⟨⟨batches, frames, [], hstanding⟩, fun _ _ => ⟨rfl, rfl⟩, ?_, ?_, ?_, ?_, ?_⟩
  · intro number envelope hrequest
    cases hrequest
  · intro client number submission hwrite
    cases hwrite
  · intro client submission response hwrite
    cases hwrite
  · intro client draft envelope response hmem
    cases hmem
  · intro restarted hrestart id record hrecord
    obtain rfl := Except.ok.inj (hrestart.symm.trans hstanding.restart_whole)
    exact Or.inl hrecord

omit [DecidableEq C] in
theorem Deployment.started_identified (service : FileService) :
    (Deployment.started C service).Identified [] := by
  refine ⟨?_, ?_, ?_, ?_, List.Pairwise.nil⟩
  · intro client form submission hpending
    cases hpending
  · intro client draft envelope hmem
    cases hmem
  · intro client form submission hpending
    cases hpending
  · intro client form submission client' form' submission' hpending
    cases hpending

end Runs

/-- Any number of consoles over one service, with requests and responses that are
late or lost, appends that fail and restarts, from any journal that the service
comes up on. Every record of the index is an old one or the command of a post, and
the journal has no identifier twice. Two posts under one identifier are one command
of one draft, and a draft that is posted again is posted under the identifier it
had, until its form is renewed. Of two posts by one client the first has ended
before the second. What a console reports as done is in the index with the result
it shows, now and after the next restart. -/
theorem submissions_take_effect_once {C : Type} [DecidableEq C] (isRealDay : Bytes → Bool)
    (hday : ∀ date : IsoDate, isRealDay date.toString = true)
    (parse : Bytes → Option ParsedJson) (stringify : CommandEnvelope → Bytes)
    (limits : LimitHierarchy) (bytes : Bytes) (first : FileService)
    (h : CommandService.create (some (FileJournalStore.opened bytes)) limits = .ok first)
    (trace : List (Activity C)) (d : Deployment C)
    (hrun : Run (Deployment.Step isRealDay parse stringify limits) (Deployment.started C first)
      trace d)
    (hjson : ∀ client draft envelope, .posted client draft envelope ∈ trace →
      parse (stringify envelope) = some (requestDocument envelope)) :
    (∀ (id : CommandId) (record : IdempotencyRecord), d.service.idempotency[id]? = some record →
      first.idempotency[id]? = some record ∨
        ∃ client draft envelope, .posted client draft envelope ∈ trace ∧ envelope.commandId = id ∧
          canonicalCommandBytes envelope = .ok record.canonicalRequest) ∧
    (∃ scan, scanJournal d.service.store.bytes = .ok scan ∧
      (scan.batches.map CommandBatch.commandId).Nodup) ∧
    trace.Pairwise Activity.Compatible ∧
    (∀ before between after client draft envelope envelope',
      trace = before ++ .posted client draft envelope ::
        (between ++ .posted client draft envelope' :: after) →
      (∀ activity ∈ between, ¬activity.Renews client draft) → envelope' = envelope) ∧
    (∀ before between after client draft draft' envelope envelope',
      trace = before ++ .posted client draft envelope ::
        (between ++ .posted client draft' envelope' :: after) →
      ∃ activity ∈ between, activity.Ends client) ∧
    ∀ client draft envelope response, .succeeded client draft envelope response ∈ trace →
      Shown d.service envelope response ∧ ∃ restarted : FileService,
        d.service.restart limits = .ok restarted ∧ Shown restarted envelope response := by
  have hall := hrun.history
    (P := fun trace d => d.Identified trace ∧
      ((∀ client draft envelope, .posted client draft envelope ∈ trace →
        parse (stringify envelope) = some (requestDocument envelope)) →
          d.Effects limits first trace))
    ⟨Deployment.started_identified first, fun _ => Deployment.started_effects h⟩
    (by
      rintro seen s event t ⟨hidentified, heffects⟩ hstep
      refine ⟨hidentified.step hstep, fun hjson => ?_⟩
      have hjson' : ∀ client draft envelope, .posted client draft envelope ∈ seen →
          parse (stringify envelope) = some (requestDocument envelope) :=
        fun client draft envelope hmem =>
          hjson client draft envelope (List.mem_append_left _ hmem)
      exact (heffects hjson').step hday hjson' hidentified hstep)
  have hidentified := hall.1
  have heffects := hall.2 hjson
  obtain ⟨batches, frames, tail, hstanding⟩ := heffects.stands
  obtain ⟨restarted, kept, whole, hrestart, hprefix, hrestarted, _⟩ := hstanding.restart
  refine ⟨?_, ?_, hidentified.pairs, ?_, ?_, ?_⟩
  · intro id record hrecord
    exact heffects.origin restarted hrestart id record
      (hstanding.index_kept hrestarted hprefix hrecord)
  · obtain ⟨_, _, _, _, _, _, haccepted, _, hscan, _⟩ := hstanding.scan
    exact ⟨_, hscan, (emplaceRecords_index haccepted.rebuilds).2⟩
  · intro before between after client draft envelope envelope' htrace hkept
    obtain ⟨d₁, d₂, _, hpost, hrest⟩ := hrun.at_event htrace
    obtain ⟨d₃, d₄, hbetween, hpost', _⟩ := hrest.at_event rfl
    -- From the first post on the form holds its submission.
    cases hpost with
    | post _ _ drawn _ _ _ _ =>
      have hsignature := d₁.prepare_signature client draft drawn
      have hheld := Deployment.pending_run (by simp [Deployment.withClient]) hsignature hbetween
        hkept
      cases hpost' with
      | post _ _ drawn' _ _ _ _ =>
        rw [Deployment.prepare_held hheld hsignature]
  · intro before between after client draft draft' envelope envelope' htrace
    obtain ⟨d₁, d₂, _, hpost, hrest⟩ := hrun.at_event htrace
    obtain ⟨d₃, d₄, hbetween, hpost', _⟩ := hrest.at_event rfl
    by_contra hnone
    have hopen : ∀ activity ∈ between, ¬activity.Ends client :=
      fun activity ha hends => hnone ⟨activity, ha, hends⟩
    cases hpost with
    | post _ _ drawn _ _ _ _ =>
      have hwriting := Deployment.write_run (by simp [Deployment.withClient]) hbetween hopen
      cases hpost' with
      | post _ _ _ _ _ _ idle => exact hwriting idle
  · intro client draft envelope response hmem
    have hshown := heffects.succeeded _ _ _ _ hmem
    exact ⟨hshown, restarted, hrestart, hshown.later hstanding (.restart hrestart)⟩

/-- A run that is posted, answered and reported. -/
theorem submissions_take_effect_once_run : ∃ (d : Deployment Unit) (response : CommandResponse),
    Run (Deployment.Step (fun text => (IsoDate.parse text).isOk) sampleParse
        (fun _ => sampleBody) ⟨∅⟩)
      (Deployment.started Unit (FileService.fresh ⟨∅⟩))
      [.posted () (.eod ⟨⟨2026, 1, 2, by decide⟩⟩) sampleEod,
        .succeeded () (.eod ⟨⟨2026, 1, 2, by decide⟩⟩) sampleEod response] d ∧
    Shown d.service sampleEod response := by
  let isRealDay : Bytes → Bool := fun text => (IsoDate.parse text).isOk
  let draft : Draft := .eod ⟨⟨2026, 1, 2, by decide⟩⟩
  let first : FileService := FileService.fresh ⟨∅⟩
  let id : PostingId := sampleId .posting
  have hday : ∀ date : IsoDate, isRealDay date.toString = true := IsoDate.parse_toString_isOk
  have hrun : (handlePost isRealDay sampleParse (fun _ => sampleBody) (first.withFault none)
      sampleEod).1.isOk = true := by decide +kernel
  obtain ⟨response, hresponse⟩ := ok_of_isOk hrun
  have hpost : Deployment.Step isRealDay sampleParse (fun _ => sampleBody) ⟨∅⟩
      (Deployment.started Unit first) _ _ :=
    .post () draft sampleEod ⟨⟨id, id, id, id⟩, ⟨id, id, id, id⟩, rfl⟩
      (by simp [Deployment.started]) rfl rfl
  have hdelivered := (Run.single hpost).snoc
    (.deliver none (show Deployment.requests _ 0 = some sampleEod from rfl))
  have haccepted := hdelivered.snoc (.accept
    (show (Deployment.client _ ()).write = some (.posting 0 ⟨draft, sampleEod⟩) from rfl)
    (congrArg some hresponse))
  have hfinished : Run (Deployment.Step isRealDay sampleParse (fun _ => sampleBody) ⟨∅⟩)
      (Deployment.started Unit first)
      [.posted () draft sampleEod, .succeeded () draft sampleEod response] _ :=
    haccepted.snoc (.finish
      (show (Deployment.client _ ()).write = some (.refreshing ⟨draft, sampleEod⟩ response)
        from rfl))
  have hjson : ∀ client other envelope,
      (.posted client other envelope : Activity Unit) ∈
        [.posted () draft sampleEod, .succeeded () draft sampleEod response] →
      sampleParse sampleBody = some (requestDocument envelope) := by
    intro client other envelope hmem
    have hposted : other = draft ∧ envelope = sampleEod := by simpa using hmem
    rw [hposted.2]
    exact if_pos rfl
  obtain ⟨_, _, _, _, _, hshown⟩ := submissions_take_effect_once isRealDay hday sampleParse
    (fun _ => sampleBody) ⟨∅⟩ [] first (FileService.create_fresh ⟨∅⟩) _ _ hfinished hjson
  exact ⟨_, response, hfinished, (hshown () draft sampleEod response (by simp)).1⟩

end Backbook.Browser
