import Backbook.HttpRoutes

namespace Backbook

open HttpServer

inductive SeedErrorCode
  | openFailed | readFailed | emptyLine | lineTooLarge | decodeFailed | executionFailed
deriving DecidableEq, Repr

structure SeedCommandResult where
  lineNumber : ℕ
  commandId : CommandId
  receipt : Option CommandReceipt := none
  error : Option CommandServiceError := none

structure SeedRunReport where
  commands : List SeedCommandResult
  acceptedCount : ℕ
  rejectedCount : ℕ

structure SeedError where
  code : SeedErrorCode
  lineNumber : ℕ
  decodeError : Option CommandDecodeError := none
  serviceError : Option CommandServiceError := none

def newline : UInt8 := 10

/-- `std::getline` to the end of a text. What follows the last newline is a line of
its own unless it is empty. -/
def getLines : Bytes → List Bytes
  | [] => []
  | byte :: bytes =>
    if byte = newline then [] :: getLines bytes
    else match getLines bytes with
      | [] => [[byte]]
      | line :: lines => (byte :: line) :: lines

structure SeedStream where
  bytes : Bytes
  bad : Bool

/-- The lines that the stream hands out. A line that a read error cuts off is not
among them. -/
def SeedStream.lines (stream : SeedStream) : List Bytes :=
  if stream.bad && stream.bytes.getLast?.any (· ≠ newline) then (getLines stream.bytes).dropLast
  else getLines stream.bytes

def SeedRunReport.empty : SeedRunReport := ⟨[], 0, 0⟩

def SeedRunReport.record (report : SeedRunReport) (result : SeedCommandResult) : SeedRunReport :=
  match result.receipt with
  | some _ => { report with
      commands := report.commands ++ [result]
      acceptedCount := report.acceptedCount + 1 }
  | none => { report with
      commands := report.commands ++ [result]
      rejectedCount := report.rejectedCount + 1 }

section Runs

variable {S : Type} [JournalStore S] (parse : Bytes → Option ParsedJson)

def decodeSeedLine (lineNumber : ℕ) (line : Bytes) : Except SeedError CommandEnvelope :=
  if line.isEmpty then .error ⟨.emptyLine, lineNumber, none, none⟩
  else if line.length > maximumRequestBodyBytes then
    .error ⟨.lineTooLarge, lineNumber, none, none⟩
  else match decodeCommandRequest parse line with
    | .error failure => .error ⟨.decodeFailed, lineNumber, some failure, none⟩
    | .ok envelope => .ok envelope

/-- What the run makes of an execution. A rejection by the domain is a result like
any other. -/
def seedResult (lineNumber : ℕ) (commandId : CommandId) :
    Except CommandServiceError CommandReceipt → Except SeedError SeedCommandResult
  | .ok receipt => .ok ⟨lineNumber, commandId, some receipt, none⟩
  | .error (.domainRejected rejection) =>
    .ok ⟨lineNumber, commandId, none, some (.domainRejected rejection)⟩
  | .error failure => .error ⟨.executionFailed, lineNumber, none, some failure⟩

def runSeedLine (service : CommandService S) (lineNumber : ℕ) (line : Bytes) :
    Except SeedError SeedCommandResult × CommandService S :=
  match decodeSeedLine parse lineNumber line with
  | .error failure => (.error failure, service)
  | .ok envelope =>
    let executed := service.execute envelope
    (seedResult lineNumber envelope.commandId executed.1, executed.2)

def runSeedLines (service : CommandService S) (report : SeedRunReport) (lineNumber : ℕ) :
    List Bytes → Except SeedError SeedRunReport × CommandService S
  | [] => (.ok report, service)
  | line :: lines =>
    match runSeedLine parse service (lineNumber + 1) line with
    | (.error failure, service) => (.error failure, service)
    | (.ok result, service) => runSeedLines service (report.record result) (lineNumber + 1) lines

def runSeedFile (service : CommandService S) (stream : Option SeedStream) :
    Except SeedError SeedRunReport × CommandService S :=
  match stream with
  | none => (.error ⟨.openFailed, 0, none, none⟩, service)
  | some stream =>
    match runSeedLines parse service .empty 0 stream.lines with
    | (.error failure, service) => (.error failure, service)
    | (.ok report, service) =>
      if stream.bad then (.error ⟨.readFailed, stream.lines.length, none, none⟩, service)
      else (.ok report, service)

def postLines (service : CommandService S) :
    List Bytes → List (Bytes × Response) × CommandService S
  | [] => ([], service)
  | line :: lines =>
    let served := serve parse service ⟨some jsonContentType, line⟩ .commands
    let rest := postLines served.2 lines
    ((line, served.1) :: rest.1, rest.2)

inductive SeedCommandResult.Reports : SeedCommandResult → Bytes × Response → Prop
  | accepted {line : Bytes} {envelope : CommandEnvelope} (lineNumber : ℕ)
      (receipt : CommandReceipt) (hdecode : decodeCommandRequest parse line = .ok envelope) :
      Reports ⟨lineNumber, envelope.commandId, some receipt, none⟩
        (line, setJsonResponse 200 (encodeCommandResponse receipt))
  | rejected {line : Bytes} {envelope : CommandEnvelope} (lineNumber : ℕ)
      (rejection : StateError) (hdecode : decodeCommandRequest parse line = .ok envelope) :
      Reports ⟨lineNumber, envelope.commandId, none, some (.domainRejected rejection)⟩
        (line, setProblemResponse (stateProblem rejection))

inductive SeedError.Reports : SeedError → Bytes × Response → Prop
  | emptyLine (lineNumber : ℕ) : Reports ⟨.emptyLine, lineNumber, none, none⟩
      ([], setProblemResponse (decodeProblem ⟨.malformedJson, []⟩))
  | lineTooLarge {line : Bytes} (lineNumber : ℕ)
      (hsize : line.length > maximumRequestBodyBytes) :
      Reports ⟨.lineTooLarge, lineNumber, none, none⟩ (line, setProblemResponse bodyTooLarge)
  | decodeFailed {line : Bytes} {failure : CommandDecodeError} (lineNumber : ℕ)
      (hdecode : decodeCommandRequest parse line = .error failure) :
      Reports ⟨.decodeFailed, lineNumber, some failure, none⟩
        (line, setProblemResponse (decodeProblem failure))
  | executionFailed {line : Bytes} {envelope : CommandEnvelope} {failure : CommandServiceError}
      (lineNumber : ℕ) (hdecode : decodeCommandRequest parse line = .ok envelope)
      (hfailure : ∀ rejection, failure ≠ .domainRejected rejection) :
      Reports ⟨.executionFailed, lineNumber, none, some failure⟩
        (line, setProblemResponse (problemFromServiceError failure))

end Runs

theorem getLines_line {line : Bytes} (h : newline ∉ line) (rest : Bytes) :
    getLines (line ++ newline :: rest) = line :: getLines rest := by
  induction line with
  | nil => simp [getLines]
  | cons byte line ih =>
    have hne : byte ≠ newline := Ne.symm (List.ne_of_not_mem_cons h)
    have hline : newline ∉ line := List.not_mem_of_not_mem_cons h
    rw [List.cons_append, getLines, if_neg hne, ih hline]

/-- A text that has a newline behind each of its lines is read as these lines. -/
theorem SeedStream.lines_written {lines : List Bytes} (h : ∀ line ∈ lines, newline ∉ line)
    (bad : Bool) : (SeedStream.mk (lines.flatMap (· ++ [newline])) bad).lines = lines := by
  have hread : getLines (lines.flatMap (· ++ [newline])) = lines := by
    induction lines with
    | nil => rfl
    | cons line lines ih =>
      have hfirst := h line List.mem_cons_self
      rw [List.flatMap_cons, List.append_assoc, List.singleton_append, getLines_line hfirst,
        ih fun later hlater => h later (List.mem_cons_of_mem _ hlater)]
  have hlast : (lines.flatMap (· ++ [newline])).getLast?.any (· ≠ newline) = false := by
    rcases List.eq_nil_or_concat lines with rfl | ⟨front, line, rfl⟩
    · rfl
    · simp
  simp only [SeedStream.lines, hread, hlast, Bool.and_false, Bool.false_eq_true, if_false]

section Cases

variable {S : Type} [JournalStore S] {parse : Bytes → Option ParsedJson}

/-- The post of a line, as the command route answers it. -/
theorem postLines_cons (service : CommandService S) (line : Bytes) (lines : List Bytes) :
    postLines parse service (line :: lines) =
      ((line, (commands parse service ⟨some jsonContentType, line⟩).1) ::
        (postLines parse (commands parse service ⟨some jsonContentType, line⟩).2 lines).1,
        (postLines parse (commands parse service ⟨some jsonContentType, line⟩).2 lines).2) := by
  simp only [postLines, serve_commands]

theorem postLines_append (service : CommandService S) (lines more : List Bytes) :
    postLines parse service (lines ++ more) =
      ((postLines parse service lines).1 ++
        (postLines parse (postLines parse service lines).2 more).1,
        (postLines parse (postLines parse service lines).2 more).2) := by
  induction lines generalizing service with
  | nil => rfl
  | cons line lines ih => simp only [List.cons_append, postLines, ih]

theorem seedResult_cases (lineNumber : ℕ) (commandId : CommandId)
    (answer : Except CommandServiceError CommandReceipt) :
    (∃ receipt, answer = .ok receipt ∧ seedResult lineNumber commandId answer =
        .ok ⟨lineNumber, commandId, some receipt, none⟩) ∨
      (∃ rejection, answer = .error (.domainRejected rejection) ∧
        seedResult lineNumber commandId answer =
          .ok ⟨lineNumber, commandId, none, some (.domainRejected rejection)⟩) ∨
      ∃ failure, answer = .error failure ∧
        (∀ rejection, failure ≠ .domainRejected rejection) ∧
        seedResult lineNumber commandId answer =
          .error ⟨.executionFailed, lineNumber, none, some failure⟩ := by
  cases answer with
  | ok receipt => exact Or.inl ⟨receipt, rfl, rfl⟩
  | error failure =>
    right
    cases failure with
    | domainRejected rejection => exact Or.inl ⟨rejection, rfl, rfl⟩
    | _ => exact Or.inr ⟨_, rfl, by simp, rfl⟩

theorem runSeedLine_decoded (service : CommandService S) {lineNumber : ℕ} {line : Bytes}
    {envelope : CommandEnvelope} (h : decodeSeedLine parse lineNumber line = .ok envelope) :
    runSeedLine parse service lineNumber line =
      (seedResult lineNumber envelope.commandId (service.execute envelope).1,
        (service.execute envelope).2) := by
  unfold runSeedLine
  simp only [h]

theorem decodeSeedLine_ok_iff {lineNumber : ℕ} {line : Bytes} {envelope : CommandEnvelope} :
    decodeSeedLine parse lineNumber line = .ok envelope ↔ line ≠ [] ∧
      line.length ≤ maximumRequestBodyBytes ∧
      decodeCommandRequest parse line = .ok envelope := by
  unfold decodeSeedLine
  simp only [List.isEmpty_iff]
  by_cases hnil : line = []
  · simp [hnil]
  by_cases hsize : line.length > maximumRequestBodyBytes
  · simp [hnil, hsize]
  rw [if_neg hnil, if_neg hsize]
  have hfits : line.length ≤ maximumRequestBodyBytes := Nat.le_of_not_gt hsize
  rcases decodeCommandRequest parse line with failure | decoded
  · simp
  · simp [hnil, hfits]

/-- The command route executes a line that passes its checks. -/
theorem commands_line (service : CommandService S) {line : Bytes} {envelope : CommandEnvelope}
    (hsize : line.length ≤ maximumRequestBodyBytes)
    (hdecode : decodeCommandRequest parse line = .ok envelope) :
    commands parse service ⟨some jsonContentType, line⟩ =
      ((match (service.execute envelope).1 with
        | .ok receipt => setJsonResponse 200 (encodeCommandResponse receipt)
        | .error failure => setProblemResponse (problemFromServiceError failure)),
        (service.execute envelope).2) := by
  have htype : isJsonContentType jsonContentType = true := by decide
  unfold commands
  simp only [Option.any_some, htype, Bool.not_true, Bool.false_eq_true, if_false,
    Nat.not_lt.mpr hsize, hdecode]
  rcases service.execute envelope with ⟨failure | receipt, next⟩
  · rfl
  · rfl

theorem SeedRunReport.record_all (report : SeedRunReport) (results : List SeedCommandResult) :
    results.foldl SeedRunReport.record report = ⟨report.commands ++ results,
      report.acceptedCount + results.countP (·.receipt.isSome),
      report.rejectedCount + results.countP (·.receipt.isNone)⟩ := by
  induction results generalizing report with
  | nil => simp
  | cons result results ih =>
    rw [List.foldl_cons, ih, List.countP_cons, List.countP_cons]
    unfold SeedRunReport.record
    cases result.receipt with
    | none => simp [Nat.add_assoc, Nat.add_comm]
    | some receipt => simp [Nat.add_assoc, Nat.add_comm]

/-- Behind one more line that passes its checks stands what it was executed to. -/
theorem postLines_take (service : CommandService S) {lines : List Bytes} {i lineNumber : ℕ}
    {line : Bytes} {envelope : CommandEnvelope} (hline : lines[i]? = some line)
    (hchecked : decodeSeedLine parse lineNumber line = .ok envelope) :
    (postLines parse service (lines.take (i + 1))).2 =
      ((postLines parse service (lines.take i)).2.execute envelope).2 := by
  obtain ⟨_, hsize, hdecode⟩ := decodeSeedLine_ok_iff.mp hchecked
  rw [List.take_add_one, hline, Option.toList_some, postLines_append, postLines_cons,
    commands_line _ hsize hdecode]
  rfl

/-- In a run that gets through every line passes its checks, and its execution gives
the result of the line. -/
theorem runSeedLines_ok {service last : CommandService S} {report final : SeedRunReport}
    {lineNumber : ℕ} {lines : List Bytes}
    (h : runSeedLines parse service report lineNumber lines = (.ok final, last)) :
    last = (postLines parse service lines).2 ∧ ∃ results : List SeedCommandResult,
      final = results.foldl SeedRunReport.record report ∧ results.length = lines.length ∧
      ∀ i line, lines[i]? = some line → ∃ envelope result,
        decodeSeedLine parse (lineNumber + i + 1) line = .ok envelope ∧
        results[i]? = some result ∧
        seedResult (lineNumber + i + 1) envelope.commandId
          ((postLines parse service (lines.take i)).2.execute envelope).1 = .ok result := by
  induction lines generalizing service report lineNumber with
  | nil =>
    obtain ⟨hfinal, rfl⟩ := Prod.mk.inj h
    exact ⟨rfl, [], (Except.ok.inj hfinal).symm, rfl, nofun⟩
  | cons line lines ih =>
    unfold runSeedLines at h
    rcases hchecked : decodeSeedLine parse (lineNumber + 1) line with failure | envelope
    · simp [runSeedLine, hchecked] at h
    rw [runSeedLine_decoded service hchecked] at h
    rcases hresult : seedResult (lineNumber + 1) envelope.commandId
      (service.execute envelope).1 with failure | result
    · simp [hresult] at h
    rw [hresult] at h
    obtain ⟨hlast, results, hfinal, hlength, hlines⟩ := ih h
    obtain ⟨_, hsize, hdecode⟩ := decodeSeedLine_ok_iff.mp hchecked
    have hnext : (commands parse service ⟨some jsonContentType, line⟩).2 =
        (service.execute envelope).2 := by
      rw [commands_line service hsize hdecode]
    refine ⟨?_, result :: results, hfinal, congrArg Nat.succ hlength, ?_⟩
    · rw [hlast, postLines_cons, hnext]
    · intro i other hother
      cases i with
      | zero =>
        obtain rfl := Option.some.inj hother
        exact ⟨envelope, result, hchecked, rfl, hresult⟩
      | succ i =>
        obtain ⟨envelope', result', hchecked', hat, hresult'⟩ := hlines i other hother
        have hnumber : lineNumber + 1 + i + 1 = lineNumber + (i + 1) + 1 := by omega
        rw [hnumber] at hchecked' hresult'
        refine ⟨envelope', result', hchecked', hat, ?_⟩
        rw [List.take_succ_cons, postLines_cons, hnext]
        exact hresult'

theorem runSeedFile_ok_iff {service last : CommandService S} {stream : SeedStream}
    {report : SeedRunReport} :
    runSeedFile parse service (some stream) = (.ok report, last) ↔ stream.bad = false ∧
      runSeedLines parse service .empty 0 stream.lines = (.ok report, last) := by
  rcases hrun : runSeedLines parse service .empty 0 stream.lines with ⟨failure | through, next⟩
  · simp [runSeedFile, hrun]
  · cases hbad : stream.bad with
    | false => simp [runSeedFile, hrun, hbad]
    | true => simp [runSeedFile, hrun, hbad]

end Cases

def sampleCancel : CommandEnvelope := ⟨⟨asciiBytes "C2", by decide⟩,
  .cancelTrade ⟨sampleId .trade, 1, none⟩⟩

def sampleCancelBody : Bytes :=
  asciiBytes "\x7b\"commandId\":\"C2\",\"type\":\"CANCEL_TRADE\",\"expectedVersion\":\"1\"," ++
    asciiBytes "\"payload\":\x7b\"tradeId\":\"A\"\x7d\x7d"

def sampleSeedParse (body : Bytes) : Option ParsedJson :=
  if body = sampleBody then some (requestDocument sampleEod)
  else if body = sampleCancelBody then some (requestDocument sampleCancel)
  else none

def sampleStream : SeedStream :=
  ⟨[sampleBody, sampleCancelBody].flatMap (· ++ [newline]), false⟩

theorem sampleStream_lines : sampleStream.lines = [sampleBody, sampleCancelBody] := by
  apply SeedStream.lines_written
  decide

/-- The run over that file on a fresh service accepts one line and rejects the other. -/
theorem sampleStream_run : ∃ report,
    (runSeedFile sampleSeedParse (FileService.fresh ⟨∅⟩) (some sampleStream)).1 = .ok report ∧
      report.acceptedCount = 1 ∧ report.rejectedCount = 1 := by
  have hrun : (runSeedFile sampleSeedParse (FileService.fresh ⟨∅⟩)
      (some sampleStream)).1.toOption.map (fun report =>
        (report.acceptedCount, report.rejectedCount)) = some (1, 1) := by decide +kernel
  cases houtcome : (runSeedFile sampleSeedParse (FileService.fresh ⟨∅⟩) (some sampleStream)).1 with
  | error failure =>
    rw [houtcome] at hrun
    cases hrun
  | ok report =>
    rw [houtcome] at hrun
    obtain ⟨haccepted, hrejected⟩ := Prod.mk.inj (Option.some.inj hrun)
    exact ⟨report, rfl, haccepted, hrejected⟩

end Backbook
