import Backbook.ExactlyOnce
import Backbook.SeedFiles
import Backbook.ThreadObservations

/-! Seeding a file again. A seed run that was cut short, by the death of its process
or by a failed append, is repeated from the first line over the journal that it
left. The lines that are in the journal are answered from the index. -/
namespace Backbook

open Std FramedLog Relation HttpServer

structure SeedAttempt where
  service : FileService
  progress : Option (SeedRunReport × List Bytes)

/-- The next line, with what the operating system decides for its append. Or the
process is gone, and another one recovers the journal and begins again. -/
inductive SeedAttempt.Step (parse : Bytes → Option ParsedJson) (limits : LimitHierarchy)
    (lines : List Bytes) : SeedAttempt → SeedAttempt → Prop
  | line {service next : FileService} {report : SeedRunReport} {result : SeedCommandResult}
      {line : Bytes} {rest : List Bytes} (fault : Option WriteFault)
      (h : runSeedLine parse (service.withFault fault) (report.commands.length + 1) line =
        (.ok result, next)) :
      Step parse limits lines ⟨service, some (report, line :: rest)⟩
        ⟨next, some (report.record result, rest)⟩
  | stop {service next : FileService} {report : SeedRunReport} {failure : SeedError}
      {line : Bytes} {rest : List Bytes} (fault : Option WriteFault)
      (h : runSeedLine parse (service.withFault fault) (report.commands.length + 1) line =
        (.error failure, next)) :
      Step parse limits lines ⟨service, some (report, line :: rest)⟩ ⟨next, none⟩
  | restart {service restarted : FileService} {progress : Option (SeedRunReport × List Bytes)}
      (h : service.restart limits = .ok restarted) :
      Step parse limits lines ⟨service, progress⟩ ⟨restarted, some (.empty, lines)⟩

structure FileService.SameBook (service other : FileService) : Prop where
  bytes : service.store.bytes = other.store.bytes
  snapshot : service.snapshot = other.snapshot
  index : service.idempotency = other.idempotency
  sequence : service.nextSequence = other.nextSequence

/-- A line's result but for what changes when the line is repeated: whether a receipt
is a replay, and what exactly a rejection says. -/
def SeedCommandResult.outcome (result : SeedCommandResult) :
    ℕ × CommandId × Option CommandResult :=
  (result.lineNumber, result.commandId, result.receipt.map CommandReceipt.result)

structure SeedRunReport.Agrees (report other : SeedRunReport) : Prop where
  outcomes : report.commands.map SeedCommandResult.outcome =
    other.commands.map SeedCommandResult.outcome
  accepted : report.acceptedCount = other.acceptedCount
  rejected : report.rejectedCount = other.rejectedCount

/-- A command that was rejected at its line is rejected as well when it comes again
behind any later line. -/
def RejectionsStay (parse : Bytes → Option ParsedJson) (service : FileService)
    (lines : List Bytes) : Prop :=
  ∀ (i n : ℕ) (line : Bytes) (envelope : CommandEnvelope) (rejection : StateError),
    i < n → n ≤ lines.length → lines[i]? = some line →
    decodeCommandRequest parse line = .ok envelope →
    ((postLines parse service (lines.take i)).2.execute envelope).1 =
      .error (.domainRejected rejection) →
    ∃ later, ((postLines parse service (lines.take n)).2.execute envelope).1 =
      .error (.domainRejected later)

section Commands

variable {limits : LimitHierarchy} {service : FileService} {batches : List CommandBatch}
  {frames : List Bytes}

def FileService.withTail (service : FileService) (torn : Bool) : FileService :=
  { service with recoveredTornTail := torn }

/-- Nothing that is executed looks at how the service came up. -/
theorem FileService.execute_withTail (service : FileService) (torn : Bool)
    (envelope : CommandEnvelope) : (service.withTail torn).execute envelope =
      ((service.execute envelope).1, FileService.withTail (service.execute envelope).2 torn) := by
  have hindex : (service.withTail torn).idempotency = service.idempotency := rfl
  have hstore : (service.withTail torn).store = service.store := rfl
  have hprepare (canonical : Bytes) : (service.withTail torn).prepare envelope canonical =
      service.prepare envelope canonical := rfl
  unfold CommandService.execute
  simp only [hindex, hstore, hprepare]
  split
  · rfl
  · split
    · split_ifs <;> rfl
    · split
      · rfl
      · split <;> rfl

/-- A command either leaves the service alone, whatever the operating system decides,
or it appends a frame, whole or in part. -/
theorem FileService.execute_fault_cases (hw : service.store.writable = true)
    (envelope : CommandEnvelope) :
    (∃ answer, ∀ fault, (service.withFault fault).execute envelope =
        (answer, service.withFault fault)) ∨
      ∃ canonical evaluation batch frame,
        service.Prepared envelope canonical evaluation batch frame ∧
        (service.withFault none).execute envelope = (.ok ⟨evaluation.result, false⟩,
          ⟨⟨service.store.bytes ++ frame, true, none⟩, evaluation.prospectiveState,
            service.idempotency.insert envelope.commandId ⟨canonical, evaluation.result⟩,
            followingSequence service.nextSequence, service.recoveredTornTail⟩) ∧
        ∀ cause : WriteFault, (service.withFault (some cause)).execute envelope =
          (.error (.journalUnavailable (some ⟨cause.code⟩)), { service with
            store := ⟨service.store.bytes ++ frame.take cause.persisted, false, none⟩ }) := by
  rcases Phase.decide_cases service envelope with ⟨answer, hdecide, _⟩ |
    ⟨canonical, evaluation, batch, frame, _, hp⟩
  · left
    refine ⟨answer, fun fault => ?_⟩
    rcases Phase.decide_cases (service.withFault fault) envelope with ⟨other, hother, hexecute⟩ |
      ⟨_, _, _, _, hother, _⟩
    · have hsame : Phase.answered envelope other = .answered envelope answer :=
        hother.symm.trans hdecide
      rw [hexecute, (Phase.answered.inj hsame).2]
    · have hsame := hother.symm.trans hdecide
      cases hsame
  · right
    refine ⟨canonical, evaluation, batch, frame, hp, ?_, ?_⟩
    · apply execute_appended hp
      simp [FileJournalStore.appendAndFlush, FileService.withFault, hw]
    · intro cause
      apply execute_refused hp
      simp [FileJournalStore.appendAndFlush, FileService.withFault, hw]

end Commands

structure Seeding (parse : Bytes → Option ParsedJson) (limits : LimitHierarchy)
    (lines : List Bytes) (after : ℕ → FileService) (results : List SeedCommandResult) : Prop where
  opened : (after 0).store = .opened (after 0).store.bytes
  standing : ∃ batches frames, (after 0).Standing limits batches frames []
  length : results.length = lines.length
  line : ∀ n line, lines[n]? = some line → ∃ envelope result,
    decodeSeedLine parse (n + 1) line = .ok envelope ∧ results[n]? = some result ∧
    seedResult (n + 1) envelope.commandId ((after n).execute envelope).1 = .ok result ∧
    after (n + 1) = ((after n).execute envelope).2
  settled : ∀ i n line envelope rejection, i < n → n ≤ lines.length → lines[i]? = some line →
    decodeCommandRequest parse line = .ok envelope →
    ((after i).execute envelope).1 = .error (.domainRejected rejection) →
    ∃ later, ((after n).execute envelope).1 = .error (.domainRejected later)

section Seedings

variable {parse : Bytes → Option ParsedJson} {limits : LimitHierarchy} {lines : List Bytes}
  {after : ℕ → FileService} {results : List SeedCommandResult} {service : FileService} {n : ℕ}

theorem FileService.withFault_opened (h : service.store = .opened service.store.bytes) :
    service.withFault none = service := by
  obtain ⟨store, snapshot, index, sequence, torn⟩ := service
  obtain ⟨bytes, writable, fault⟩ := store
  obtain ⟨_, _, rfl⟩ := FileJournalStore.mk.inj h
  rfl

/-- Behind every line the file is open, and the service stands in step with it. -/
theorem Seeding.stands (h : Seeding parse limits lines after results) (hn : n ≤ lines.length) :
    (after n).store = .opened (after n).store.bytes ∧
      ∃ batches frames, (after n).Standing limits batches frames [] := by
  induction n with
  | zero => exact ⟨h.opened, h.standing⟩
  | succ n ih =>
    obtain ⟨hopened, batches, frames, hstanding⟩ := ih (Nat.le_of_succ_le hn)
    obtain ⟨envelope, _, _, _, _, hnext⟩ := h.line n lines[n] (List.getElem?_eq_getElem hn)
    have hnone := FileService.withFault_opened hopened
    have hstore : ((after n).execute envelope).2.store =
        .opened ((after n).execute envelope).2.store.bytes := by
      have hw : (after n).store.writable = true := by
        rw [hopened]
        rfl
      rcases FileService.execute_fault_cases hw envelope with ⟨answer, hsame⟩ |
        ⟨_, _, _, _, _, hexecute, _⟩
      · rw [← hnone, hsame none, hnone]
        exact hopened
      · rw [← hnone, hexecute]
        rfl
    obtain ⟨batches', frames', tail', _, hstanding'⟩ := hstanding.execute envelope
    rw [hnext]
    refine ⟨hstore, batches', frames', ?_⟩
    have hw : ((after n).execute envelope).2.store.writable = true := by
      rw [hstore]
      rfl
    obtain rfl := hstanding'.tail_nil hw
    exact hstanding'

theorem Seeding.withFault_none (h : Seeding parse limits lines after results)
    (hn : n ≤ lines.length) : (after n).withFault none = after n :=
  FileService.withFault_opened (h.stands hn).1

/-- What was accepted at a line is in the index behind every later one. -/
theorem Seeding.recalls (h : Seeding parse limits lines after results) {i : ℕ}
    {envelope : CommandEnvelope} {receipt : CommandReceipt} (hi : i < n) (hn : n ≤ lines.length)
    (hnext : after (i + 1) = ((after i).execute envelope).2)
    (hanswer : ((after i).execute envelope).1 = .ok receipt) :
    (after n).Recalls envelope receipt := by
  induction n, hi using Nat.le_induction with
  | base =>
    rw [hnext]
    exact (FileService.execute_recalls hanswer).1
  | succ n hi ih =>
    have hle := Nat.le_of_succ_le hn
    obtain ⟨_, batches, frames, hstanding⟩ := h.stands hle
    obtain ⟨later, _, _, _, _, hlater⟩ := h.line n lines[n] (List.getElem?_eq_getElem hn)
    have hstep : FileService.Step limits (after n) (((after n).withFault none).execute later).2 :=
      .execute (after n) none later
    rw [h.withFault_none hle, ← hlater] at hstep
    exact (ih hle).later hstanding hstep

inductive SeededTo (after : ℕ → FileService) (total : ℕ) (service : FileService) : ℕ → Prop
  | whole {n : ℕ} (fault : Option WriteFault) (torn : Bool) (hn : n ≤ total)
      (h : service = ((after n).withFault fault).withTail torn) : SeededTo after total service n
  | cut {n : ℕ} {batch : CommandBatch} {frame : Bytes} (persisted : ℕ) (hn : n < total)
      (hf : encodeFrame batch = .ok frame)
      (next : (after (n + 1)).store.bytes = (after n).store.bytes ++ frame)
      (bytes : service.store.bytes = (after n).store.bytes ++ frame.take persisted)
      (snapshot : service.snapshot = (after n).snapshot) : SeededTo after total service n

theorem FileService.Standing.restart_opened {batches : List CommandBatch} {frames : List Bytes}
    (h : service.Standing limits batches frames [])
    (hopened : service.store = .opened service.store.bytes) :
    service.restart limits = .ok (service.withTail false) := by
  rw [h.restart_whole, ← hopened]
  rfl

/-- A torn frame is cut off. -/
theorem FileService.Standing.restart_torn {batches : List CommandBatch} {frames : List Bytes}
    (h : service.Standing limits batches frames [])
    (hopened : service.store = .opened service.store.bytes) {batch : CommandBatch} {frame : Bytes}
    (hf : encodeFrame batch = .ok frame) {persisted : ℕ} (htorn : persisted < frame.length) :
    ∃ torn, CommandService.create
      (some (FileJournalStore.opened (service.store.bytes ++ frame.take persisted))) limits =
        .ok (service.withTail torn) := by
  have hbytes := h.bytes
  rw [List.append_nil] at hbytes
  have hscan := journalFormat_lawful.scan_torn h.framed hf htorn
  have hcreate := h.accepted.create hscan
  rw [List.take_left, ← hbytes, ← hopened, ← h.index, ← h.sequence] at hcreate
  exact ⟨_, hcreate⟩

theorem Seeding.restart (h : Seeding parse limits lines after results)
    (hat : SeededTo after lines.length service n) :
    ∃ m torn, m ≤ lines.length ∧ service.restart limits = .ok ((after m).withTail torn) := by
  cases hat with
  | whole fault torn hn hservice =>
    obtain ⟨hopened, _, _, hstanding⟩ := h.stands hn
    subst hservice
    exact ⟨n, false, hn, hstanding.restart_opened hopened⟩
  | @cut batch frame persisted hn hf next bytes _ =>
    unfold FileService.restart
    rw [bytes]
    rcases Nat.lt_or_ge persisted frame.length with htorn | hwhole
    · obtain ⟨hopened, _, _, hstanding⟩ := h.stands hn.le
      obtain ⟨torn, hcreate⟩ := hstanding.restart_torn hopened hf htorn
      exact ⟨n, torn, hn.le, hcreate⟩
    · -- The line is in the journal, though its attempt was told that it is not.
      obtain ⟨hopened, _, _, hstanding⟩ := h.stands hn
      rw [List.take_of_length_le hwhole, ← next]
      exact ⟨n + 1, false, hn, hstanding.restart_opened hopened⟩

theorem SeededTo.le (hat : SeededTo after lines.length service n) : n ≤ lines.length := by
  cases hat with
  | whole _ _ hn _ => exact hn
  | cut _ hn _ _ _ _ => exact hn.le

theorem SeededTo.snapshot (hat : SeededTo after lines.length service n) :
    service.snapshot = (after n).snapshot := by
  cases hat with
  | whole fault torn _ hservice =>
    rw [hservice]
    rfl
  | cut _ _ _ _ _ snapshot => exact snapshot

/-- The line behind the journal, executed by an attempt: as the uninterrupted run did
it, or the append fails. -/
theorem Seeding.execute_next (h : Seeding parse limits lines after results)
    (hn : n < lines.length) {envelope : CommandEnvelope}
    (hnext : after (n + 1) = ((after n).execute envelope).2) (fault : Option WriteFault)
    (torn : Bool) :
    (((after n).withFault fault).withTail torn).execute envelope =
        (((after n).execute envelope).1, ((after (n + 1)).withFault fault).withTail torn) ∨
      fault ≠ none ∧ ∃ failure next,
        (((after n).withFault fault).withTail torn).execute envelope =
          (.error (.journalUnavailable (some failure)), next) ∧
        SeededTo after lines.length next n := by
  obtain ⟨hopened, _⟩ := h.stands hn.le
  have hnone := h.withFault_none hn.le
  have hw : (after n).store.writable = true := by
    rw [hopened]
    rfl
  rw [FileService.execute_withTail]
  rcases FileService.execute_fault_cases hw envelope with ⟨answer, hsame⟩ |
    ⟨canonical, evaluation, batch, frame, hp, hexecute, hfails⟩
  · left
    have hquiet := hsame none
    rw [hnone] at hquiet
    rw [hsame fault, hnext, hquiet]
  · rw [hnone] at hexecute
    cases fault with
    | none =>
      left
      rw [hnone, hexecute, hnext, hexecute]
      rfl
    | some cause =>
      right
      rw [hfails cause]
      refine ⟨Option.some_ne_none _, _, _, rfl, .cut cause.persisted hn hp.encoded ?_ rfl rfl⟩
      rw [hnext, hexecute]

/-- A line that is in the journal already: it is answered from the index, or rejected
as before, and nothing changes. -/
theorem Seeding.execute_again (h : Seeding parse limits lines after results) {i : ℕ}
    {line : Bytes} {envelope : CommandEnvelope} {result : SeedCommandResult} (hi : i < n)
    (hn : n ≤ lines.length) (hline : lines[i]? = some line)
    (hdecode : decodeCommandRequest parse line = .ok envelope)
    (hnext : after (i + 1) = ((after i).execute envelope).2)
    (hresult : seedResult (i + 1) envelope.commandId ((after i).execute envelope).1 = .ok result)
    (fault : Option WriteFault) :
    ∃ answer again, ((after n).withFault fault).execute envelope =
        (answer, (after n).withFault fault) ∧
      seedResult (i + 1) envelope.commandId answer = .ok again ∧
      again.outcome = result.outcome := by
  rcases seedResult_cases (i + 1) envelope.commandId ((after i).execute envelope).1 with
    ⟨receipt, hanswer, hgives⟩ | ⟨rejection, hanswer, hgives⟩ | ⟨failure, _, _, hgives⟩
  · obtain rfl := Except.ok.inj (hresult.symm.trans hgives)
    obtain ⟨canonical, hcanonical, hrecord⟩ := h.recalls hi hn hnext hanswer
    have hexecute : ((after n).withFault fault).execute envelope =
        (.ok ⟨receipt.result, true⟩, (after n).withFault fault) := by
      rw [FileService.execute_indexed hrecord hcanonical, if_pos rfl]
    exact ⟨_, _, hexecute, rfl, rfl⟩
  · obtain rfl := Except.ok.inj (hresult.symm.trans hgives)
    obtain ⟨later, hlater⟩ := h.settled i n line envelope rejection hi hn hline hdecode hanswer
    obtain ⟨hopened, _⟩ := h.stands hn
    have hw : (after n).store.writable = true := by
      rw [hopened]
      rfl
    have hnone := h.withFault_none hn
    rcases FileService.execute_fault_cases hw envelope with ⟨answer, hsame⟩ |
      ⟨_, _, _, _, _, hexecute, _⟩
    · have hquiet := hsame none
      rw [hnone] at hquiet
      rw [hquiet] at hlater
      obtain rfl : answer = _ := hlater
      exact ⟨_, _, hsame fault, rfl, rfl⟩
    · rw [hnone] at hexecute
      rw [hexecute] at hlater
      cases hlater
  · rw [hgives] at hresult
    cases hresult

/-- What a line of an attempt does, when the service is as it is behind the line
before or behind some later one. -/
theorem Seeding.runLine (h : Seeding parse limits lines after results) {i : ℕ} {line : Bytes}
    (hi : i ≤ n) (hn : n ≤ lines.length) (hline : lines[i]? = some line)
    (fault : Option WriteFault) (torn : Bool) :
    (∃ m again result, i < m ∧ m ≤ lines.length ∧
        runSeedLine parse (((after n).withFault fault).withTail torn) (i + 1) line =
          (.ok again, ((after m).withFault fault).withTail torn) ∧
        results[i]? = some result ∧ again.outcome = result.outcome) ∨
      fault ≠ none ∧ ∃ failure next,
        runSeedLine parse (((after n).withFault fault).withTail torn) (i + 1) line =
          (.error failure, next) ∧ SeededTo after lines.length next n := by
  obtain ⟨envelope, result, hchecked, hresult, hgives, hnext⟩ := h.line i line hline
  obtain ⟨_, _, hdecode⟩ := decodeSeedLine_ok_iff.mp hchecked
  rw [runSeedLine_decoded _ hchecked]
  rcases Nat.lt_or_eq_of_le hi with hlt | rfl
  · left
    obtain ⟨answer, again, hexecute, hagain, houtcome⟩ :=
      h.execute_again hlt hn hline hdecode hnext hgives fault
    refine ⟨n, again, result, hlt, hn, ?_, hresult, houtcome⟩
    rw [FileService.execute_withTail, hexecute, hagain]
  · have hlt : i < lines.length := (List.getElem?_eq_some_iff.mp hline).1
    rcases h.execute_next hlt hnext fault torn with hexecute |
      ⟨hfault, failure, next, hexecute, hat⟩
    · left
      refine ⟨i + 1, result, result, Nat.lt_succ_self i, hlt, ?_, hresult, rfl⟩
      rw [hexecute, hgives]
    · right
      refine ⟨hfault, ⟨.executionFailed, i + 1, none, some (.journalUnavailable (some failure))⟩,
        next, ?_, hat⟩
      rw [hexecute]
      rfl

def Retold (results : List SeedCommandResult) (done : ℕ) (report : SeedRunReport) : Prop :=
  ∃ again : List SeedCommandResult, report = again.foldl SeedRunReport.record .empty ∧
    again.map SeedCommandResult.outcome = (results.take done).map SeedCommandResult.outcome

theorem Retold.length {done : ℕ} {report : SeedRunReport} (h : Retold results done report)
    (hdone : done ≤ results.length) : report.commands.length = done := by
  obtain ⟨again, rfl, hsame⟩ := h
  have hlength := congrArg List.length hsame
  rw [List.length_map, List.length_map, List.length_take, Nat.min_eq_left hdone] at hlength
  rw [SeedRunReport.record_all]
  exact hlength

theorem Retold.record {done : ℕ} {report : SeedRunReport} (h : Retold results done report)
    {again result : SeedCommandResult} (hresult : results[done]? = some result)
    (houtcome : again.outcome = result.outcome) :
    Retold results (done + 1) (report.record again) := by
  obtain ⟨before, rfl, hsame⟩ := h
  refine ⟨before ++ [again], ?_, ?_⟩
  · rw [List.foldl_append, List.foldl_cons, List.foldl_nil]
  · rw [List.take_add_one, hresult, Option.toList_some, List.map_append, List.map_append, hsame,
      List.map_singleton, List.map_singleton, houtcome]

/-- Reports with the same outcomes have the same counts. -/
theorem Retold.agrees {report : SeedRunReport} (h : Retold results results.length report) :
    report.Agrees (results.foldl SeedRunReport.record .empty) := by
  obtain ⟨again, rfl, hsame⟩ := h
  rw [List.take_length] at hsame
  have hcounts (p : Option CommandResult → Bool) :
      again.countP (fun result => p (result.receipt.map CommandReceipt.result)) =
        results.countP (fun result => p (result.receipt.map CommandReceipt.result)) := by
    have hcount := congrArg (List.countP fun outcome => p outcome.2.2) hsame
    rw [List.countP_map, List.countP_map] at hcount
    exact hcount
  have hsome := hcounts Option.isSome
  have hnone := hcounts Option.isNone
  simp only [Option.isSome_map, Option.isNone_map] at hsome hnone
  rw [SeedRunReport.record_all, SeedRunReport.record_all]
  exact ⟨hsame, congrArg (_ + ·) hsome, congrArg (_ + ·) hnone⟩

inductive SeedAttempt.Follows (lines : List Bytes) (after : ℕ → FileService)
    (results : List SeedCommandResult) : SeedAttempt → Prop
  | running {service : FileService} {n i : ℕ} {report : SeedRunReport} {rest : List Bytes}
      (fault : Option WriteFault) (torn : Bool) (hi : i ≤ n) (hn : n ≤ lines.length)
      (hreport : Retold results i report) (hrest : rest = lines.drop i)
      (hservice : service = ((after n).withFault fault).withTail torn) :
      Follows lines after results ⟨service, some (report, rest)⟩
  | stopped {service : FileService} {n : ℕ} (hat : SeededTo after lines.length service n) :
      Follows lines after results ⟨service, none⟩

theorem SeedAttempt.Follows.seededTo {attempt : SeedAttempt}
    (hf : attempt.Follows lines after results) :
    ∃ n, SeededTo after lines.length attempt.service n := by
  cases hf with
  | running fault torn _ hn _ _ hservice => exact ⟨_, .whole fault torn hn hservice⟩
  | stopped hat => exact ⟨_, hat⟩

theorem Seeding.begins (h : Seeding parse limits lines after results) {m : ℕ} {torn : Bool}
    (hm : m ≤ lines.length) :
    SeedAttempt.Follows lines after results ⟨(after m).withTail torn, some (.empty, lines)⟩ := by
  have hempty : Retold results 0 .empty := ⟨[], rfl, rfl⟩
  apply SeedAttempt.Follows.running none torn (Nat.zero_le m) hm hempty List.drop_zero.symm
  rw [h.withFault_none hm]

theorem ahead_of_drop {i : ℕ} {line : Bytes} {rest : List Bytes}
    (h : lines.drop i = line :: rest) : lines[i]? = some line ∧ lines.drop (i + 1) = rest := by
  constructor
  · rw [← List.head?_drop, h, List.head?_cons]
  · rw [← List.tail_drop, h, List.tail_cons]

theorem Seeding.step (h : Seeding parse limits lines after results) {attempt next : SeedAttempt}
    (hf : attempt.Follows lines after results)
    (hstep : SeedAttempt.Step parse limits lines attempt next) :
    next.Follows lines after results := by
  -- The line ahead of a running attempt, and the number under which it is run.
  have hahead {report : SeedRunReport} {line : Bytes} {rest : List Bytes} {i : ℕ}
      (hrest : line :: rest = lines.drop i) (hreport : Retold results i report) :
      lines[i]? = some line ∧ rest = lines.drop (i + 1) ∧ report.commands.length = i := by
    obtain ⟨hline, hlater⟩ := ahead_of_drop hrest.symm
    have hi : i < lines.length := (List.getElem?_eq_some_iff.mp hline).1
    exact ⟨hline, hlater.symm, hreport.length (h.length ▸ hi.le)⟩
  cases hstep with
  | line fault hrun =>
    cases hf with
    | running _ torn hi hn hreport hrest hservice =>
      obtain ⟨hline, hrest', hnumber⟩ := hahead hrest hreport
      subst hservice
      rw [hnumber] at hrun
      rcases h.runLine hi hn hline fault torn with
        ⟨m, again, result, him, hm, hrun', hresult, houtcome⟩ | ⟨_, failure, _, hrun', _⟩
      · obtain ⟨hagain, rfl⟩ := Prod.mk.inj (hrun.symm.trans hrun')
        obtain rfl := Except.ok.inj hagain
        exact .running fault torn him hm (hreport.record hresult houtcome) hrest' rfl
      · cases (Prod.mk.inj (hrun.symm.trans hrun')).1
  | stop fault hrun =>
    cases hf with
    | running _ torn hi hn hreport hrest hservice =>
      obtain ⟨hline, _, hnumber⟩ := hahead hrest hreport
      subst hservice
      rw [hnumber] at hrun
      rcases h.runLine hi hn hline fault torn with
        ⟨_, _, _, _, _, hrun', _⟩ | ⟨_, failure, next, hrun', hat⟩
      · cases (Prod.mk.inj (hrun.symm.trans hrun')).1
      · obtain ⟨_, rfl⟩ := Prod.mk.inj (hrun.symm.trans hrun')
        exact .stopped hat
  | restart hrestart =>
    obtain ⟨n, hat⟩ := hf.seededTo
    obtain ⟨m, torn, hm, hrestart'⟩ := h.restart hat
    obtain rfl := Except.ok.inj (hrestart.symm.trans hrestart')
    exact h.begins hm

/-- With a file that takes every append the lines ahead are run to the end. -/
theorem Seeding.runSeedLines (h : Seeding parse limits lines after results) {i : ℕ}
    {report : SeedRunReport} (torn : Bool) (hi : i ≤ n) (hn : n ≤ lines.length)
    (hreport : Retold results i report) :
    ∃ again, Backbook.runSeedLines parse ((after n).withTail torn) report i (lines.drop i) =
        (.ok again, (after lines.length).withTail torn) ∧
      Retold results results.length again := by
  induction hrest : lines.drop i generalizing n i report with
  | nil =>
    have hlength : lines.length ≤ i := List.drop_eq_nil_iff.mp hrest
    obtain rfl : n = lines.length := Nat.le_antisymm hn (hlength.trans hi)
    obtain rfl : i = lines.length := Nat.le_antisymm hi hlength
    rw [h.length]
    exact ⟨report, rfl, hreport⟩
  | cons line rest ih =>
    obtain ⟨hline, hlater⟩ := ahead_of_drop hrest
    rcases h.runLine hi hn hline none torn with
      ⟨m, again, result, him, hm, hrun, hresult, houtcome⟩ | ⟨hfault, _⟩
    · rw [h.withFault_none hn, h.withFault_none hm] at hrun
      obtain ⟨final, hfinal, hretold⟩ := ih him hm (hreport.record hresult houtcome) hlater
      refine ⟨final, ?_, hretold⟩
      unfold Backbook.runSeedLines
      rw [hrun]
      exact hfinal
    · exact absurd rfl hfault

end Seedings

theorem FileService.sameBook_withFault (service : FileService) (fault : Option WriteFault)
    (torn : Bool) : ((service.withFault fault).withTail torn).SameBook service :=
  ⟨rfl, rfl, rfl, rfl⟩

/-- A run that gets through from a service that has just come up. -/
theorem seeding_of_run {parse : Bytes → Option ParsedJson} {limits : LimitHierarchy}
    {bytes : Bytes} {first last : FileService} {lines : List Bytes} {report : SeedRunReport}
    (hcreate : CommandService.create (some (FileJournalStore.opened bytes)) limits = .ok first)
    (hseeded : runSeedLines parse first .empty 0 lines = (.ok report, last))
    (hsettled : RejectionsStay parse first lines) :
    ∃ results, report = results.foldl SeedRunReport.record .empty ∧
      last = (postLines parse first lines).2 ∧
      Seeding parse limits lines (fun n => (postLines parse first (lines.take n)).2) results := by
  obtain ⟨hlast, results, hreport, hlength, hlines⟩ := runSeedLines_ok hseeded
  obtain ⟨batches, frames, hstanding⟩ := FileService.standing_of_create hcreate
  have hopened : first.store = .opened first.store.bytes := by
    obtain ⟨scan, state, index, _, _, _, _, rfl⟩ := FileService.create_ok_iff.mp hcreate
    rfl
  refine ⟨results, hreport, hlast, ⟨hopened, ⟨batches, frames, hstanding⟩, hlength, ?_, hsettled⟩⟩
  intro n line hline
  obtain ⟨envelope, result, hchecked, hresult, hgives⟩ := hlines n line hline
  rw [Nat.zero_add] at hchecked hgives
  exact ⟨envelope, result, hchecked, hresult, hgives, postLines_take first hline hchecked⟩

/-- Take a file that seeds to the end over some journal, and whose rejected commands
stay rejected. However often a run over it is cut short, by a dead process or by an
append that fails with any part of its frame written: the book that is served is
always one that the uninterrupted run passes through. The next start recovers, and an
attempt that gets through ends with the same journal, book and index, and with a
report of the same outcomes and counts. -/
theorem interrupted_seeding_resumes (parse : Bytes → Option ParsedJson) (limits : LimitHierarchy)
    (bytes : Bytes) (first : FileService)
    (hcreate : CommandService.create (some (FileJournalStore.opened bytes)) limits = .ok first)
    (stream : SeedStream) (report : SeedRunReport) (last : FileService)
    (hseeded : runSeedFile parse first (some stream) = (.ok report, last))
    (hsettled : RejectionsStay parse first stream.lines) (attempt : SeedAttempt)
    (hrun : ReflTransGen (SeedAttempt.Step parse limits stream.lines)
      ⟨first, some (.empty, stream.lines)⟩ attempt) :
    (∃ n ≤ stream.lines.length, attempt.service.snapshot =
      (postLines parse first (stream.lines.take n)).2.snapshot) ∧
    (∀ again, attempt.progress = some (again, []) →
      attempt.service.SameBook last ∧ again.Agrees report) ∧
    ∃ (restarted final : FileService) (again : SeedRunReport),
      attempt.service.restart limits = .ok restarted ∧
      runSeedFile parse restarted (some stream) = (.ok again, final) ∧
      final.SameBook last ∧ again.Agrees report := by
  obtain ⟨hbad, hlines⟩ := runSeedFile_ok_iff.mp hseeded
  obtain ⟨results, rfl, rfl, h⟩ := seeding_of_run hcreate hlines hsettled
  have hfollows : attempt.Follows stream.lines
      (fun n => (postLines parse first (stream.lines.take n)).2) results := by
    induction hrun with
    | refl =>
      have hbegins : SeedAttempt.Follows stream.lines _ results
          ⟨first.withTail first.recoveredTornTail, some (.empty, stream.lines)⟩ :=
        h.begins (Nat.zero_le _)
      exact hbegins
    | tail _ hstep ih => exact h.step ih hstep
  have hend : stream.lines.take stream.lines.length = stream.lines := List.take_length
  obtain ⟨n, hat⟩ := hfollows.seededTo
  refine ⟨⟨n, hat.le, hat.snapshot⟩, ?_, ?_⟩
  · intro again hdone
    cases hfollows with
    | stopped _ => cases hdone
    | running fault torn hi hn hreport hrest hservice =>
      -- With no line ahead the service is behind the last one.
      obtain ⟨rfl, rfl⟩ := Prod.mk.inj (Option.some.inj hdone)
      have hlength := List.drop_eq_nil_iff.mp hrest.symm
      obtain rfl := Nat.le_antisymm hn (hlength.trans hi)
      obtain rfl := Nat.le_antisymm hi hlength
      subst hservice
      rw [← h.length] at hreport
      have hbook := FileService.sameBook_withFault
        (postLines parse first (stream.lines.take stream.lines.length)).2 fault torn
      rw [hend] at hbook
      simp only [hend]
      exact ⟨hbook, hreport.agrees⟩
  · obtain ⟨m, torn, hm, hrestart⟩ := h.restart hat
    have hempty : Retold results 0 .empty := ⟨[], rfl, rfl⟩
    obtain ⟨again, hagain, hretold⟩ := h.runSeedLines torn (Nat.zero_le m) hm hempty
    have hbook : (FileService.withTail (postLines parse first stream.lines).2 torn).SameBook
        (postLines parse first stream.lines).2 := ⟨rfl, rfl, rfl, rfl⟩
    simp only [List.drop_zero, hend] at hagain
    exact ⟨_, _, again, hrestart, runSeedFile_ok_iff.mpr ⟨hbad, hagain⟩, hbook, hretold.agrees⟩

theorem sampleStream_rejectionsStay :
    RejectionsStay sampleSeedParse (FileService.fresh ⟨∅⟩) sampleStream.lines := by
  intro i n line envelope rejection hi hn hline hdecode hrejected
  rw [sampleStream_lines] at hn hline hrejected ⊢
  have hn' : n ≤ 2 := hn
  have hi' : i < 2 := hi.trans_le hn'
  obtain rfl | rfl : i = 0 ∨ i = 1 := by omega
  · -- The end-of-day run is not rejected.
    obtain rfl : sampleBody = line := Option.some.inj hline
    have haccepted : (CommandService.execute (FileService.fresh ⟨∅⟩) sampleEod).1.isOk = true := by
      decide +kernel
    have hversioned : sampleEod.command.Versioned := by
      intro version hversion
      cases hversion
    rw [decodeCommandRequest_document hversioned (if_pos rfl)] at hdecode
    obtain rfl := Except.ok.inj hdecode
    have hfirst : (CommandService.execute (FileService.fresh ⟨∅⟩) sampleEod).1 = .error _ :=
      hrejected
    rw [hfirst] at haccepted
    cases haccepted
  · obtain rfl : n = 2 := by omega
    obtain rfl : sampleCancelBody = line := Option.some.inj hline
    have hparse : sampleSeedParse sampleCancelBody = some (requestDocument sampleCancel) := by
      have hne : sampleCancelBody ≠ sampleBody := by decide
      rw [sampleSeedParse, if_neg hne, if_pos rfl]
    have hversioned : sampleCancel.command.Versioned := by
      intro version hversion
      obtain rfl := Option.mem_some.mp hversion
      decide
    rw [decodeCommandRequest_document hversioned hparse] at hdecode
    obtain rfl := Except.ok.inj hdecode
    have hagain : ((postLines sampleSeedParse (FileService.fresh ⟨∅⟩)
        [sampleBody, sampleCancelBody]).2.execute sampleCancel).1 =
          .error (.domainRejected .tradeNotFound) := by decide +kernel
    exact ⟨_, hagain⟩

/-- The append of the sample's first line fails behind ten bytes of its frame. -/
theorem interrupted_seeding_resumes_sample :
    ∃ (failure : SeedError) (cut restarted final : FileService) (again : SeedRunReport),
      runSeedLine sampleSeedParse ((FileService.fresh ⟨∅⟩).withFault (some ⟨.appendFailed, 10⟩)) 1
        sampleBody = (.error failure, cut) ∧
      cut.restart ⟨∅⟩ = .ok restarted ∧
      runSeedFile sampleSeedParse restarted (some sampleStream) = (.ok again, final) ∧
      again.acceptedCount = 1 ∧ again.rejectedCount = 1 := by
  let first : FileService := FileService.fresh ⟨∅⟩
  have hfails : (runSeedLine sampleSeedParse (first.withFault (some ⟨.appendFailed, 10⟩)) 1
      sampleBody).1.isOk = false := by decide +kernel
  obtain ⟨report, hreport, haccepted, hrejected⟩ := sampleStream_run
  rcases hcut : runSeedLine sampleSeedParse (first.withFault (some ⟨.appendFailed, 10⟩)) 1
    sampleBody with ⟨failure | result, cut⟩
  · have hstop : SeedAttempt.Step sampleSeedParse ⟨∅⟩ sampleStream.lines
        ⟨first, some (.empty, sampleStream.lines)⟩ ⟨cut, none⟩ := by
      rw [sampleStream_lines]
      exact .stop _ hcut
    obtain ⟨_, _, restarted, final, again, hrestart, hagain, _, hagrees⟩ :=
      interrupted_seeding_resumes sampleSeedParse ⟨∅⟩ [] first (FileService.create_fresh ⟨∅⟩)
        sampleStream report _ (Prod.ext hreport rfl) sampleStream_rejectionsStay _ (.single hstop)
    exact ⟨failure, cut, restarted, final, again, rfl, hrestart, hagain,
      hagrees.accepted.trans haccepted, hagrees.rejected.trans hrejected⟩
  · rw [hcut] at hfails
    cases hfails

end Backbook
