import Backbook.HttpRoutes
import Backbook.ThreadObservations

/-! Commands on their way from the forms of the console to the service. A form keeps
the envelope that it has prepared until it hears of success, the hook lets one
write through at a time, and requests and responses may be late or lost. -/
namespace Backbook.Browser

open Relation VisibleTrace

/-- The signature stands for the text of the logical request. -/
structure PreparedCommandSubmission (σ : Type) where
  signature : σ
  command : CommandEnvelope
deriving DecidableEq

def prepareCommandSubmission {σ : Type} [DecidableEq σ]
    (previous : Option (PreparedCommandSubmission σ)) (signature : σ)
    (create : Unit → CommandEnvelope) : PreparedCommandSubmission σ :=
  match previous with
  | some previous =>
    if previous.signature = signature then previous else ⟨signature, create ()⟩
  | none => ⟨signature, create ()⟩

/-- A logical request of the console, without the identifiers it draws. The
version of an amendment is one on the screen, and those begin with 1. Left out are
the forms whose documents decode to no command and change no service: an amount
beyond 64 bits, or a date in the year 0. -/
inductive Draft
  | book (value : BookTradeCommand)
  | amend (tradeId : TradeId) (expectedVersion : UInt32) (versioned : expectedVersion ≠ 0)
      (replacementTerms : Backbook.FxTerms)
  | eod (value : RunEodCommand)
deriving DecidableEq

inductive Form
  | bookDialog | amendDialog | eodButton
deriving DecidableEq

def Draft.form : Draft → Form
  | .book _ => .bookDialog
  | .amend _ _ _ _ => .amendDialog
  | .eod _ => .eodButton

def Draft.command (reversalIds : ReversalPostingIds) (postingIds : ConfirmationPostingIds) :
    Draft → Command
  | .book value => .bookTrade value
  | .amend tradeId expectedVersion _ terms =>
    .amendTrade ⟨tradeId, expectedVersion, terms, reversalIds, postingIds⟩
  | .eod value => .runEod value

theorem Draft.command_versioned (draft : Draft) (reversalIds : ReversalPostingIds)
    (postingIds : ConfirmationPostingIds) : (draft.command reversalIds postingIds).Versioned := by
  cases draft with
  | book value => exact nofun
  | amend tradeId expectedVersion versioned terms =>
    intro version hversion
    obtain rfl := Option.mem_some.mp hversion
    exact versioned
  | eod value => exact nofun

def Draft.Describes (draft : Draft) (envelope : CommandEnvelope) : Prop :=
  ∃ reversalIds postingIds, envelope.command = draft.command reversalIds postingIds

abbrev Submission := PreparedCommandSubmission Draft

inductive Write
  | posting (request : ℕ) (submission : Submission)
  | refreshing (submission : Submission) (response : CommandResponse)

structure Client where
  pending : Form → Option Submission
  write : Option Write

def Client.initial : Client := ⟨fun _ => none, none⟩

def Client.withPending (client : Client) (form : Form) (submission : Option Submission) : Client :=
  { client with pending := Function.update client.pending form submission }

/-- What a form does on success. The dialogs close; the button forgets a submission
that is still its own. -/
def Client.release (client : Client) (submission : Submission) : Client :=
  match submission.signature.form with
  | .eodButton =>
    if client.pending .eodButton = some submission then client.withPending .eodButton none
    else client
  | form => client.withPending form none

structure Deployment (C : Type) where
  service : FileService
  client : C → Client
  requests : ℕ → Option CommandEnvelope
  responses : ℕ → Option (ClientResult CommandResponse)
  sent : ℕ
  drawn : List CommandId

def Deployment.started (C : Type) (service : FileService) : Deployment C :=
  ⟨service, fun _ => .initial, fun _ => none, fun _ => none, 0, []⟩

inductive Activity (C : Type)
  | posted (client : C) (draft : Draft) (envelope : CommandEnvelope)
  | blocked (client : C) (draft : Draft)
  | succeeded (client : C) (draft : Draft) (envelope : CommandEnvelope)
      (response : CommandResponse)
  | failed (client : C) (envelope : CommandEnvelope) (error : ClientError)
  | closed (client : C) (form : Form)
  | reloaded (client : C)

variable {C : Type} [DecidableEq C]

def Deployment.withClient (d : Deployment C) (client : C) (next : Client) : Deployment C :=
  { d with client := Function.update d.client client next }

def Deployment.prepare (d : Deployment C) (client : C) (draft : Draft)
    (envelope : CommandEnvelope) : Submission :=
  prepareCommandSubmission ((d.client client).pending draft.form) draft fun _ => envelope

section Steps

variable (isRealDay : Bytes → Bool) (parse : Bytes → Option ParsedJson)
  (stringify : CommandEnvelope → Bytes) (limits : LimitHierarchy)

def handlePost (service : FileService) (envelope : CommandEnvelope) :
    ClientResult CommandResponse × FileService :=
  let handled := HttpServer.commands parse service
    ⟨some HttpServer.jsonContentType, stringify envelope⟩
  (request (decodeCommandResponse isRealDay) handled.1.toHttpResponse, handled.2)

/-- A user's, the network's or the server's next step. The identifiers of a new
envelope were never drawn before and are in no journal. -/
inductive Deployment.Step : Deployment C → Option (Activity C) → Deployment C → Prop
  | post {d : Deployment C} (client : C) (draft : Draft) (envelope : CommandEnvelope)
      (hdraft : draft.Describes envelope) (hfresh : envelope.commandId ∉ d.drawn)
      (hunused : d.service.idempotency[envelope.commandId]? = none)
      (idle : (d.client client).write = none) :
      Step d (some (.posted client draft (d.prepare client draft envelope).command))
        { d.withClient client
            ⟨Function.update (d.client client).pending draft.form
              (some (d.prepare client draft envelope)),
              some (.posting d.sent (d.prepare client draft envelope))⟩ with
          requests := Function.update d.requests d.sent
            (some (d.prepare client draft envelope).command)
          sent := d.sent + 1
          drawn := envelope.commandId :: d.drawn }
  /-- The hook turns a write away that comes too early, but the form has prepared it. -/
  | block {d : Deployment C} (client : C) (draft : Draft) (envelope : CommandEnvelope)
      (hdraft : draft.Describes envelope) (hfresh : envelope.commandId ∉ d.drawn)
      (hunused : d.service.idempotency[envelope.commandId]? = none) :
      Step d (some (.blocked client draft))
        { d.withClient client ((d.client client).withPending draft.form
            (some (d.prepare client draft envelope))) with
          drawn := envelope.commandId :: d.drawn }
  | close {d : Deployment C} (client : C) (form : Form) :
      Step d (some (.closed client form))
        (d.withClient client ((d.client client).withPending form none))
  | reload {d : Deployment C} (client : C) :
      Step d (some (.reloaded client)) (d.withClient client .initial)
  | deliver {d : Deployment C} {number : ℕ} {envelope : CommandEnvelope}
      (fault : Option WriteFault) (h : d.requests number = some envelope) :
      Step d none { d with
        service := (handlePost isRealDay parse stringify (d.service.withFault fault) envelope).2
        requests := Function.update d.requests number none
        responses := Function.update d.responses number
          (some (handlePost isRealDay parse stringify (d.service.withFault fault) envelope).1) }
  | dropRequest {d : Deployment C} (number : ℕ) :
      Step d none { d with requests := Function.update d.requests number none }
  | dropResponse {d : Deployment C} (number : ℕ) :
      Step d none { d with responses := Function.update d.responses number none }
  | accept {d : Deployment C} {client : C} {number : ℕ} {submission : Submission}
      {response : CommandResponse}
      (h : (d.client client).write = some (.posting number submission))
      (hresponse : d.responses number = some (.ok response)) :
      Step d none (d.withClient client
        { d.client client with write := some (.refreshing submission response) })
  | refuse {d : Deployment C} {client : C} {number : ℕ} {submission : Submission}
      {error : ClientError} (h : (d.client client).write = some (.posting number submission))
      (hresponse : d.responses number = some (.error error)) :
      Step d (some (.failed client submission.command error))
        (d.withClient client { d.client client with write := none })
  | giveUp {d : Deployment C} {client : C} {number : ℕ} {submission : Submission}
      (reason : TransportReason) (message : Bytes)
      (h : (d.client client).write = some (.posting number submission)) :
      Step d (some (.failed client submission.command (.transport reason message)))
        (d.withClient client { d.client client with write := none })
  | finish {d : Deployment C} {client : C} {submission : Submission}
      {response : CommandResponse}
      (h : (d.client client).write = some (.refreshing submission response)) :
      Step d (some (.succeeded client submission.signature submission.command response))
        (d.withClient client { (d.client client).release submission with write := none })
  | restart {d : Deployment C} {restarted : FileService}
      (h : d.service.restart limits = .ok restarted) :
      Step d none { d with service := restarted }

end Steps

end Backbook.Browser
