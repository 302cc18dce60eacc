import Backbook.BrowserRefresh
import Backbook.ResponseAgreement
import Backbook.ServiceRuns

namespace Backbook.HttpServer

open JsonTree

def maximumRequestBodyBytes : ℕ := 65536

def jsonContentType : Bytes := "application/json"

def problemContentType : Bytes := "application/problem+json"

structure Response extends HttpResponse where
  contentType : Bytes

def setJsonResponse (status : Int32) (body : Json) : Response := ⟨⟨status, body⟩, jsonContentType⟩

def setProblemResponse (problem : ProblemDetails) : Response :=
  ⟨⟨problem.status, encodeProblemResponse problem⟩, problemContentType⟩

def validationProblem (status : Int32) (title detail : Bytes)
    (violations : List FieldViolation := []) : ProblemDetails where
  code := .validationFailed
  status := status
  title := title
  detail := detail
  violations := violations

def toLower (character : UInt8) : UInt8 :=
  if 'A'.toUInt8 ≤ character ∧ character ≤ 'Z'.toUInt8 then character + 32 else character

def isJsonContentType (contentType : Bytes) : Bool :=
  let mediaType := contentType.takeWhile (· ≠ ';'.toUInt8)
  (mediaType.filter fun character => character ≠ ' '.toUInt8 ∧ character ≠ 9).map toLower =
    jsonContentType

def decodeProblem (error : CommandDecodeError) : ProblemDetails :=
  if error.code = .malformedJson then
    validationProblem 400 "Malformed JSON" "The request body is not valid JSON."
  else validationProblem 422 "Validation failed" "One or more request fields are invalid."
    error.violations

def unsupportedMediaType : ProblemDetails :=
  validationProblem 415 "Unsupported media type" "Content-Type must be application/json."

def bodyTooLarge : ProblemDetails :=
  validationProblem 413 "Request body too large" "The request body exceeds 64 KiB."

def methodNotAllowed : ProblemDetails :=
  validationProblem 405 "Method not allowed" "The HTTP method is not supported for this route."

def routeNotFound : ProblemDetails where
  code := .notFound
  status := 404
  title := "Route not found"
  detail := "The requested route does not exist."

structure Request where
  contentType : Option Bytes
  body : Bytes

section Handlers

variable {S : Type} [JournalStore S] (parse : Bytes → Option ParsedJson)
  (service : CommandService S) (request : Request)

def healthz : Response := setJsonResponse 200 (ofTable [("status", some (.string "ok"))])

def commands : Response × CommandService S :=
  if !request.contentType.any isJsonContentType then
    (setProblemResponse unsupportedMediaType, service)
  else if request.body.length > maximumRequestBodyBytes then
    (setProblemResponse bodyTooLarge, service)
  else match decodeCommandRequest parse request.body with
    | .error failure => (setProblemResponse (decodeProblem failure), service)
    | .ok envelope =>
      match service.execute envelope with
      | (.error failure, service) =>
        (setProblemResponse (problemFromServiceError failure), service)
      | (.ok receipt, service) => (setJsonResponse 200 (encodeCommandResponse receipt), service)

def setReadResponse : Except ResponseEncodingError Json → Response
  | .error _ => setProblemResponse internalProblem
  | .ok encoded => setJsonResponse 200 encoded

def errorHandler (response : Response) : Response :=
  if response.contentType = problemContentType then response
  else if response.status = 413 then setProblemResponse bodyTooLarge
  else if response.status = 405 then setProblemResponse methodNotAllowed
  else setProblemResponse routeNotFound

def exceptionHandler : Response := setProblemResponse internalProblem

/-- What the library has made of a request: a route, an error status of its own, or an
exception out of a handler. The handler of a command can throw before it has changed
anything, since `execute` allocates all it needs before its append, or behind the
execution, when it writes the answer. -/
inductive Dispatch
  | healthz | commands | state | ledger | settlements
  | refused (status : Int32)
  | threw (executed : Bool)
deriving DecidableEq

def handle : Dispatch → Response × CommandService S
  | .healthz => (healthz, service)
  | .commands => commands parse service request
  | .state => (setReadResponse (encodeStateResponse service.snapshot), service)
  | .ledger => (setReadResponse (encodeLedgerResponse service.snapshot), service)
  | .settlements => (setReadResponse (encodeSettlementsResponse service.snapshot), service)
  | .refused status => (⟨⟨status, .null⟩, []⟩, service)
  | .threw executed =>
    (exceptionHandler, if executed then (commands parse service request).2 else service)

def serve (dispatch : Dispatch) : Response × CommandService S :=
  let handled := handle parse service request dispatch
  if handled.1.status < 400 then handled else (errorHandler handled.1, handled.2)

end Handlers

def problemStatuses : List Int32 := [400, 404, 405, 409, 413, 415, 422, 500, 503]

/-- The console takes each status of a problem for a failure. -/
theorem problemStatuses_range {status : Int32} (h : status ∈ problemStatuses) :
    400 ≤ status ∧ status < 600 := by
  simp only [problemStatuses, List.mem_cons, List.not_mem_nil, or_false] at h
  rcases h with rfl | rfl | rfl | rfl | rfl | rfl | rfl | rfl | rfl <;> decide

theorem stateProblem_status (error : StateError) :
    (stateProblem error).status ∈ problemStatuses := by
  cases error with
  | limitFailure breach =>
    unfold stateProblem
    dsimp only
    split_ifs <;> simp [problemStatuses, Backbook.validationProblem]
  | _ => simp [stateProblem, problemStatuses, Backbook.validationProblem, internalProblem]

theorem problemFromServiceError_status (error : CommandServiceError) :
    (problemFromServiceError error).status ∈ problemStatuses := by
  cases error with
  | domainRejected stateError => exact stateProblem_status stateError
  | _ => simp [problemFromServiceError, problemStatuses, internalProblem]

theorem decodeProblem_status (error : CommandDecodeError) :
    (decodeProblem error).status ∈ problemStatuses := by
  unfold decodeProblem
  split_ifs <;> simp [validationProblem, problemStatuses]

/-- A problem passes the error boundary as it is. -/
theorem errorHandler_problem (problem : ProblemDetails) :
    errorHandler (setProblemResponse problem) = setProblemResponse problem := by
  simp [errorHandler, setProblemResponse]

/-- What the boundary makes of any response is a problem. -/
theorem errorHandler_cases (response : Response) (h : response.contentType ≠ problemContentType) :
    ∃ problem, errorHandler response = setProblemResponse problem ∧
      problem.status ∈ problemStatuses := by
  unfold errorHandler
  rw [if_neg h]
  split_ifs
  · exact ⟨bodyTooLarge, rfl, by decide⟩
  · exact ⟨methodNotAllowed, rfl, by decide⟩
  · exact ⟨routeNotFound, rfl, by decide⟩

/-- The console reads a problem as the problem that it is. -/
theorem request_problem {δ : Type} (decoder : Json → Browser.Decoded δ) {problem : ProblemDetails}
    (h : problem.status ∈ problemStatuses) :
    Browser.request decoder (setProblemResponse problem).toHttpResponse =
      .error (.problem problem.view) := by
  have hfails : ¬(200 ≤ problem.status ∧ problem.status < 300) := by
    obtain ⟨hlow, _⟩ := problemStatuses_range h
    rintro ⟨_, hhigh⟩
    rw [Int32.lt_iff_toInt_lt] at hhigh
    rw [Int32.le_iff_toInt_le] at hlow
    have h300 : (300 : Int32).toInt = 300 := by decide
    have h400 : (400 : Int32).toInt = 400 := by decide
    omega
  unfold Browser.request setProblemResponse
  rw [if_neg hfails]
  simp only [decodeProblem_json]

section Commands

variable {S : Type} [JournalStore S] {parse : Bytes → Option ParsedJson}
  {service : CommandService S} {request : Request} {envelope : CommandEnvelope}

def commandAnswer : Except CommandServiceError CommandReceipt → Response
  | .error failure => setProblemResponse (problemFromServiceError failure)
  | .ok receipt => setJsonResponse 200 (encodeCommandResponse receipt)

/-- A request to the command route is refused over every service, or it is one
execution over every service. -/
theorem commands_cases (parse : Bytes → Option ParsedJson) (request : Request) :
    (∃ problem, problem.status ∈ problemStatuses ∧ ∀ service : CommandService S,
        commands parse service request = (setProblemResponse problem, service)) ∨
      ∃ envelope, decodeCommandRequest parse request.body = .ok envelope ∧
        ∀ service : CommandService S, commands parse service request =
          (commandAnswer (service.execute envelope).1, (service.execute envelope).2) := by
  by_cases htype : request.contentType.any isJsonContentType = true
  · by_cases hsize : request.body.length > maximumRequestBodyBytes
    · left
      exact ⟨bodyTooLarge, by decide, fun _ => by simp [commands, htype, hsize]⟩
    · cases hdecode : decodeCommandRequest parse request.body with
      | error failure =>
        left
        exact ⟨decodeProblem failure, decodeProblem_status failure, fun _ => by
          simp [commands, htype, hsize, hdecode]⟩
      | ok envelope =>
        right
        refine ⟨envelope, rfl, ?_⟩
        intro service
        rcases hexecute : service.execute envelope with ⟨failure | receipt, next⟩
        · simp [commands, htype, hsize, hdecode, hexecute, commandAnswer]
        · simp [commands, htype, hsize, hdecode, hexecute, commandAnswer]
  · left
    exact ⟨unsupportedMediaType, by decide, fun _ => by simp [commands, htype]⟩

theorem serve_problem {problem : ProblemDetails} {next : CommandService S} {dispatch : Dispatch}
    (h : handle parse service request dispatch = (setProblemResponse problem, next)) :
    serve parse service request dispatch = (setProblemResponse problem, next) := by
  unfold serve
  rw [h]
  dsimp only
  split_ifs
  · rfl
  · rw [errorHandler_problem]

theorem serve_answer {answer : Except CommandServiceError CommandReceipt}
    {next : CommandService S} {dispatch : Dispatch}
    (h : handle parse service request dispatch = (commandAnswer answer, next)) :
    serve parse service request dispatch = (commandAnswer answer, next) := by
  cases answer with
  | error failure => exact serve_problem h
  | ok receipt =>
    have hstatus : (200 : Int32) < 400 := by decide
    unfold serve
    rw [h]
    exact if_pos hstatus

theorem serve_commands (parse : Bytes → Option ParsedJson) (service : CommandService S)
    (request : Request) :
    serve parse service request .commands = commands parse service request := by
  rcases commands_cases (S := S) parse request with ⟨problem, _, hrefuses⟩ |
    ⟨envelope, _, hexecutes⟩
  · have hhandled : handle parse service request .commands = _ := hrefuses service
    rw [serve_problem hhandled, hrefuses]
  · have hhandled : handle parse service request .commands = _ := hexecutes service
    rw [serve_answer hhandled, hexecutes]

/-- The library's own errors become problems at the boundary. -/
theorem serve_refused {status : Int32} (h : 400 ≤ status) : ∃ problem,
    problem.status ∈ problemStatuses ∧
      serve parse service request (.refused status) = (setProblemResponse problem, service) := by
  have hraw : ¬(status < 400) := by
    rw [Int32.not_lt]
    exact h
  have hne : ([] : Bytes) ≠ problemContentType := by decide
  obtain ⟨problem, hproblem, hmem⟩ := errorHandler_cases ⟨⟨status, .null⟩, []⟩ hne
  refine ⟨problem, hmem, ?_⟩
  unfold serve handle
  dsimp only
  rw [if_neg hraw, hproblem]

def clientResult : Except CommandServiceError CommandReceipt →
    Browser.ClientResult Browser.CommandResponse
  | .ok receipt => .ok receipt.view
  | .error failure => .error (.problem (problemFromServiceError failure).view)

theorem request_answer {isRealDay : Bytes → Bool}
    (hday : ∀ date : IsoDate, isRealDay date.toString = true)
    (answer : Except CommandServiceError CommandReceipt) :
    Browser.request (Browser.decodeCommandResponse isRealDay)
      (commandAnswer answer).toHttpResponse =
      clientResult answer := by
  cases answer with
  | error failure => exact request_problem _ (problemFromServiceError_status failure)
  | ok receipt =>
    have hstatus : (200 : Int32) ≤ 200 ∧ (200 : Int32) < 300 := by decide
    unfold Browser.request commandAnswer setJsonResponse
    rw [if_pos hstatus]
    simp only [decodeCommandResponse_json hday]
    rfl

theorem commandAnswer_status (answer : Except CommandServiceError CommandReceipt) :
    (commandAnswer answer).status = 200 ↔ ∃ receipt, answer = .ok receipt := by
  cases answer with
  | ok receipt => exact ⟨fun _ => ⟨receipt, rfl⟩, fun _ => rfl⟩
  | error failure =>
    constructor
    · intro h200
      have hrange := problemStatuses_range (problemFromServiceError_status failure)
      have hsame : (problemFromServiceError failure).status = 200 := h200
      rw [hsame] at hrange
      exact absurd hrange (by decide)
    · rintro ⟨receipt, hreceipt⟩
      cases hreceipt

/-- The document of a command is decoded to the command. -/
theorem decodeCommandRequest_document {body : Bytes} (hversioned : envelope.command.Versioned)
    (hparse : parse body = some (requestDocument envelope)) :
    decodeCommandRequest parse body = .ok envelope := by
  have hreads := (parseEnvelope_reads (requestDocument envelope).sorted).accepts envelope
    ⟨envelope, ⟨rfl, hversioned⟩, rfl⟩
  unfold decodeCommandRequest
  rw [hparse]
  simp only [hreads]
  rfl

theorem commands_document {contentType body : Bytes}
    (htype : isJsonContentType contentType = true)
    (hsize : body.length ≤ maximumRequestBodyBytes) (hversioned : envelope.command.Versioned)
    (hparse : parse body = some (requestDocument envelope)) :
    (commands parse service ⟨some contentType, body⟩).2 = (service.execute envelope).2 := by
  have hdecode := decodeCommandRequest_document hversioned hparse
  have hfits : ¬body.length > maximumRequestBodyBytes := Nat.not_lt.mpr hsize
  rcases hexecute : service.execute envelope with ⟨failure | receipt, next⟩
  · simp [commands, htype, hfits, hdecode, hexecute]
  · simp [commands, htype, hfits, hdecode, hexecute]

/-- Posting the document of a command executes it, or is refused. -/
theorem commands_document_cases (service : CommandService S) (request : Request)
    {isRealDay : Bytes → Bool}
    (hday : ∀ date : IsoDate, isRealDay date.toString = true)
    (hversioned : envelope.command.Versioned)
    (hparse : parse request.body = some (requestDocument envelope)) :
    ((commands parse service request).2 = service ∧ ∃ error,
        Browser.request (Browser.decodeCommandResponse isRealDay)
          (commands parse service request).1.toHttpResponse = .error error) ∨
      (commands parse service request).2 = (service.execute envelope).2 ∧
        Browser.request (Browser.decodeCommandResponse isRealDay)
          (commands parse service request).1.toHttpResponse =
            clientResult (service.execute envelope).1 := by
  rcases commands_cases (S := S) parse request with ⟨problem, hstatus, hrefuses⟩ |
    ⟨other, hdecode, hexecutes⟩
  · left
    rw [hrefuses]
    exact ⟨rfl, _, request_problem _ hstatus⟩
  · right
    rw [decodeCommandRequest_document hversioned hparse] at hdecode
    obtain rfl := Except.ok.inj hdecode
    rw [hexecutes]
    exact ⟨rfl, request_answer hday _⟩

/-- A command that has succeeded is answered with its result when it comes again. -/
theorem execute_again {receipt : CommandReceipt}
    (h : (service.execute envelope).1 = .ok receipt) :
    (service.execute envelope).2.execute envelope =
      (.ok ⟨receipt.result, true⟩, (service.execute envelope).2) := by
  rcases service.execute_cases envelope with ⟨hsame, hne, _⟩ |
    ⟨canonical, _, evaluation, _, hp, ⟨_, _, _, hexec⟩ | ⟨store, _, hexec⟩⟩
  · -- It was a replay already.
    obtain ⟨result, replay⟩ := receipt
    cases replay with
    | false => exact absurd h (hne result)
    | true =>
      rw [hsame]
      exact Prod.ext h hsame
  · rw [hexec] at h
    cases h
  · rw [hexec] at h ⊢
    obtain rfl := Except.ok.inj h
    simp [CommandService.execute, hp.canonical_eq]

end Commands

/-- What comes back from the command route: a problem over an untouched service, the
answer of one execution, or the internal problem behind one. -/
theorem serve_cases {S : Type} [JournalStore S] (parse : Bytes → Option ParsedJson)
    (service : CommandService S) (request : Request) {dispatch : Dispatch}
    (hdispatch : dispatch = .commands ∨ (∃ executed, dispatch = .threw executed) ∨
      ∃ status, 400 ≤ status ∧ dispatch = .refused status) :
    (∃ problem, problem.status ∈ problemStatuses ∧
        serve parse service request dispatch = (setProblemResponse problem, service)) ∨
      ∃ envelope, decodeCommandRequest parse request.body = .ok envelope ∧
        (∀ later : CommandService S, serve parse later request .commands =
          (commandAnswer (later.execute envelope).1, (later.execute envelope).2)) ∧
        (dispatch = .commands ∨ dispatch = .threw true ∧
          serve parse service request dispatch =
            (setProblemResponse internalProblem, (service.execute envelope).2)) := by
  have hinternal : internalProblem.status ∈ problemStatuses := by decide
  rcases commands_cases (S := S) parse request with ⟨problem, hstatus, hrefuses⟩ |
    ⟨envelope, hdecode, hexecutes⟩
  · left
    rcases hdispatch with rfl | ⟨executed, rfl⟩ | ⟨status, hstatus, rfl⟩
    · exact ⟨problem, hstatus, by rw [serve_commands, hrefuses]⟩
    · refine ⟨internalProblem, hinternal, serve_problem ?_⟩
      cases executed with
      | false => rfl
      | true =>
        rw [handle, if_pos rfl, hrefuses]
        rfl
    · exact serve_refused hstatus
  · rcases hdispatch with rfl | ⟨executed, rfl⟩ | ⟨status, hstatus, rfl⟩
    · right
      exact ⟨envelope, hdecode, fun later => by rw [serve_commands, hexecutes], Or.inl rfl⟩
    · cases executed with
      | false => exact Or.inl ⟨internalProblem, hinternal, serve_problem rfl⟩
      | true =>
        -- The answer is lost, but the execution is not.
        right
        refine ⟨envelope, hdecode, fun later => by rw [serve_commands, hexecutes],
          Or.inr ⟨rfl, serve_problem ?_⟩⟩
        rw [handle, if_pos rfl, hexecutes]
        rfl
    · exact Or.inl (serve_refused hstatus)

/-- Whatever a client posts to the command route and however the library hands it
on, the console reads the response as what it is. Either the service was not touched
and the console has the problem, or exactly one decoded command was executed. Then the
console has its receipt or the problem of its error, or an exception behind the
execution has left it with the internal problem. In this last case the same request,
sent again, is answered with the result that the first one had. A body that the
console writes for a command is that command. -/
theorem posted_commands_are_understood {S : Type} [JournalStore S] (isRealDay : Bytes → Bool)
    (hday : ∀ date : IsoDate, isRealDay date.toString = true)
    (parse : Bytes → Option ParsedJson) (service : CommandService S) (request : Request)
    (dispatch : Dispatch) (hdispatch : dispatch = .commands ∨
      (∃ executed, dispatch = .threw executed) ∨
      ∃ status, 400 ≤ status ∧ dispatch = .refused status) :
    ((∃ problem : ProblemDetails, (serve parse service request dispatch).2 = service ∧
        (serve parse service request dispatch).1.status = problem.status ∧
        problem.status ∈ problemStatuses ∧
        Browser.request (Browser.decodeCommandResponse isRealDay)
          (serve parse service request dispatch).1.toHttpResponse =
            .error (.problem problem.view)) ∨
      ∃ envelope, decodeCommandRequest parse request.body = .ok envelope ∧
        (serve parse service request dispatch).2 = (service.execute envelope).2 ∧
        (dispatch = .commands ∧
            ((serve parse service request dispatch).1.status = 200 ↔
              ∃ receipt, (service.execute envelope).1 = .ok receipt) ∧
            Browser.request (Browser.decodeCommandResponse isRealDay)
              (serve parse service request dispatch).1.toHttpResponse =
                clientResult (service.execute envelope).1 ∨
          dispatch = .threw true ∧ (serve parse service request dispatch).1.status = 500 ∧
            Browser.request (Browser.decodeCommandResponse isRealDay)
              (serve parse service request dispatch).1.toHttpResponse =
                .error (.problem internalProblem.view) ∧
            ∀ receipt, (service.execute envelope).1 = .ok receipt →
              serve parse (serve parse service request dispatch).2 request .commands =
                (setJsonResponse 200 (encodeCommandResponse ⟨receipt.result, true⟩),
                  (serve parse service request dispatch).2))) ∧
    ∀ envelope : CommandEnvelope, dispatch = .commands → envelope.command.Versioned →
      request.contentType = some jsonContentType →
      request.body.length ≤ maximumRequestBodyBytes →
      parse request.body = some (requestDocument envelope) →
      (serve parse service request dispatch).2 = (service.execute envelope).2 := by
  have hinternal : internalProblem.status ∈ problemStatuses := by decide
  constructor
  · rcases serve_cases parse service request hdispatch with ⟨problem, hstatus, hserve⟩ |
      ⟨envelope, hdecode, hserves, rfl | ⟨rfl, hthrew⟩⟩
    · left
      rw [hserve]
      exact ⟨problem, rfl, rfl, hstatus, request_problem _ hstatus⟩
    · right
      refine ⟨envelope, hdecode, ?_⟩
      rw [hserves]
      exact ⟨rfl, Or.inl ⟨rfl, commandAnswer_status _, request_answer hday _⟩⟩
    · right
      refine ⟨envelope, hdecode, ?_⟩
      rw [hthrew]
      refine ⟨rfl, Or.inr ⟨rfl, rfl, request_problem _ hinternal, ?_⟩⟩
      intro receipt hreceipt
      rw [hserves, execute_again hreceipt]
      rfl
  · rintro envelope rfl hversioned htype hsize hparse
    obtain ⟨contentType, body⟩ := request
    obtain rfl : contentType = some jsonContentType := htype
    rw [serve_commands]
    exact commands_document (by decide) hsize hversioned hparse

/-- The text of an end-of-day run, posted to the command route. -/
theorem posted_commands_are_understood_eod :
    (serve sampleParse (FileService.fresh ⟨∅⟩) ⟨some jsonContentType, sampleBody⟩ .commands).2 =
      (CommandService.execute (FileService.fresh ⟨∅⟩) sampleEod).2 := by
  obtain ⟨_, hdocument⟩ := posted_commands_are_understood (fun text => (IsoDate.parse text).isOk)
    IsoDate.parse_toString_isOk sampleParse (FileService.fresh ⟨∅⟩)
    ⟨some jsonContentType, sampleBody⟩ .commands
    (Or.inl rfl)
  have hsize : sampleBody.length ≤ maximumRequestBodyBytes := by decide
  exact hdocument sampleEod rfl nofun rfl hsize (if_pos rfl)

end Backbook.HttpServer
