import Cprogramming.Library.Runs
import Cprogramming.Library.Decimals

/-!
# Several requests on one connection

`on_url`, `send_err` and `on_message_complete` of `main.c`, called for every message
that the parser finds on a connection. A header is written behind the ones before it
into one buffer of `BUF_SIZE` bytes, a body replaces the one before it, and the kind of
response stays set from one message to the next.
-/

namespace Cprogramming.EventServer.Pipeline

open Library.CStrings Library.Decimals Library.Runs

set_option autoImplicit false

/-! ## Texts -/

def crlf : List UInt8 := [13, 10]

inductive HttpStatus where
  | ok
  | notFound
  | internalServerError
deriving DecidableEq

def HttpStatus.code : HttpStatus → Nat
  | .ok => 200
  | .notFound => 404
  | .internalServerError => 500

def HttpStatus.str : HttpStatus → List UInt8
  | .ok => bytesOf "OK"
  | .notFound => bytesOf "Not Found"
  | .internalServerError => bytesOf "Internal Server Error"

/-- What the first byte of a printed registry can be, if there is one: every metric
begins with `# HELP`. -/
structure MetricsText where
  bytes : List UInt8
  begins : bytes = [] ∨ ∃ rest, bytes = 35 :: rest

/-- The collection of the metrics fails somewhere, or prints a text. -/
inductive Collected where
  | failed
  | printed (metrics : MetricsText)

/-- What the parser reports of a message: the method, the pieces of the URL and the
version. -/
structure Message where
  isGet : Bool
  url : List (List UInt8)
  httpMajor : Nat
  httpMinor : Nat
  collected : Collected

def statusLine (message : Message) (status : HttpStatus) : List UInt8 :=
  bytesOf "HTTP/" ++ (printDecimal message.httpMajor ++ (bytesOf "." ++
    (printDecimal message.httpMinor ++ (bytesOf " " ++ (printDecimal status.code ++ (bytesOf " " ++
      (status.str ++ crlf)))))))

def serverLine : List UInt8 := bytesOf "Server: obsd-prom-exporter" ++ crlf

def connectionLine : List UInt8 := bytesOf "Connection: close" ++ crlf

def errHeader (message : Message) (status : HttpStatus) : List UInt8 :=
  statusLine message status ++ (serverLine ++ (connectionLine ++ crlf))

def okHeader (message : Message) (off : Nat) : List UInt8 :=
  statusLine message .ok ++ (serverLine ++
    (bytesOf "Content-Type: text/plain; version=0.0.4; charset=utf-8" ++ crlf ++
      (bytesOf "Content-Length: " ++ printDecimal off ++ crlf ++ (connectionLine ++ crlf))))

/-! ## The callbacks -/

def bufSize : Nat := 2048

inductive ResponseType where
  | notFound
  | metrics
deriving DecidableEq

/-- The response in `struct req`, and the messages that have been answered. -/
structure Request where
  resp : ResponseType
  header : List UInt8
  body : List UInt8
  done : Bool
  answered : List Message

def newRequest : Request := ⟨.notFound, [], [], false, []⟩

/-- There is no result where the program exits. -/
def onUrl (isGet : Bool) (resp : ResponseType) (url : List UInt8) : Option ResponseType :=
  let next := if isGet ∧ (bytesOf "/metrics").isPrefixOf url then .metrics else resp
  if isGet ∧ (bytesOf "/stopme").isPrefixOf url then none else some next

def sendErr (request : Request) (message : Message) (status : HttpStatus) : Request :=
  { request with header := request.header ++ errHeader message status, done := true }

def onMessageComplete (request : Request) (message : Message) : Request :=
  match request.resp with
  | .notFound => sendErr request message .notFound
  | .metrics =>
    match message.collected with
    | .failed => sendErr request message .internalServerError
    | .printed metrics =>
      { request with
        header := request.header ++ okHeader message metrics.bytes.length
        body := metrics.bytes
        done := true }

def receive (request : Option Request) (message : Message) : Option Request := do
  let before ← request
  let resp ← message.url.foldlM (onUrl message.isGet) before.resp
  let after := onMessageComplete { before with resp := resp } message
  return { after with answered := before.answered ++ [message] }

/-! ## What should be queued -/

def recognised (message : Message) : Bool :=
  message.isGet && message.url.any fun url => (bytesOf "/metrics").isPrefixOf url

def stops (message : Message) : Bool :=
  message.isGet && message.url.any fun url => (bytesOf "/stopme").isPrefixOf url

def response (message : Message) : List UInt8 × List UInt8 :=
  if recognised message then
    match message.collected with
    | .failed => (errHeader message .internalServerError, [])
    | .printed metrics => (okHeader message metrics.bytes.length, metrics.bytes)
  else (errHeader message .notFound, [])

def responses (messages : List Message) : List UInt8 :=
  messages.flatMap fun message => (response message).1 ++ (response message).2

structure Queued (request : Request) : Prop where
  room : request.header.length ≤ bufSize
  bytes : request.header ++ request.body = responses request.answered

def Right : Option Request → Prop
  | none => True
  | some request => Queued request

instance (request : Request) : Decidable (Queued request) :=
  decidable_of_iff (request.header.length ≤ bufSize ∧
      request.header ++ request.body = responses request.answered)
    ⟨fun both => ⟨both.1, both.2⟩, fun queued => ⟨queued.room, queued.bytes⟩⟩

instance : (request : Option Request) → Decidable (Right request)
  | none => .isTrue trivial
  | some request => inferInstanceAs (Decidable (Queued request))

/-- The message finds no body, is recognised if one before it was, and its header has
room behind the others. -/
def Fits (request : Option Request) (message : Message) : Prop :=
  ∀ before ∈ request, stops message = false → before.body = [] ∧
    (before.resp = .metrics → recognised message = true) ∧
    before.header.length + (response message).1.length ≤ bufSize

/-! ## One message -/

variable {message : Message} {request : Request}

theorem urls_fold (isGet : Bool) (urls : List (List UInt8)) (resp : ResponseType) :
    urls.foldlM (onUrl isGet) resp =
      if isGet && urls.any fun url => (bytesOf "/stopme").isPrefixOf url then none
      else some (if isGet && urls.any fun url => (bytesOf "/metrics").isPrefixOf url then .metrics
        else resp) := by
  induction urls generalizing resp with
  | nil => simp
  | cons url rest ih =>
    cases isGet with
    | false => simpa [onUrl] using ih resp
    | true =>
      by_cases stop : (bytesOf "/stopme").isPrefixOf url = true
      · simp [onUrl, stop]
      · by_cases metric : (bytesOf "/metrics").isPrefixOf url = true
        · simp [onUrl, ih, metric, stop]
        · simp [onUrl, ih, metric, stop]

/-- The header that a message adds, with the kind of response that is set. -/
def addedHeader (resp : ResponseType) (message : Message) : List UInt8 :=
  match resp, message.collected with
  | .notFound, _ => errHeader message .notFound
  | .metrics, .failed => errHeader message .internalServerError
  | .metrics, .printed metrics => okHeader message metrics.bytes.length

theorem complete_header (request : Request) (message : Message) :
    (onMessageComplete request message).header =
      request.header ++ addedHeader request.resp message := by
  simp only [onMessageComplete, addedHeader]
  cases request.resp with
  | notFound => rfl
  | metrics =>
    cases message.collected with
    | failed => rfl
    | printed metrics => rfl

def bodyAfter (resp : ResponseType) (body : List UInt8) (message : Message) : List UInt8 :=
  match resp, message.collected with
  | .metrics, .printed metrics => metrics.bytes
  | _, _ => body

theorem complete_body (request : Request) (message : Message) :
    (onMessageComplete request message).body = bodyAfter request.resp request.body message := by
  simp only [onMessageComplete, bodyAfter]
  cases request.resp with
  | notFound => rfl
  | metrics =>
    cases message.collected with
    | failed => rfl
    | printed metrics => rfl

theorem receive_stops (request : Request) (stop : stops message = true) :
    receive (some request) message = none := by
  have exits := urls_fold message.isGet message.url request.resp
  rw [← stops, if_pos stop] at exits
  simp [receive, exits]

/-- The kind of response that is set when the message is complete. -/
def setResp (request : Request) (message : Message) : ResponseType :=
  if recognised message then .metrics else request.resp

theorem receive_answers (request : Request) (goes : stops message = false) :
    ∃ next, receive (some request) message = some next ∧
      next.header = request.header ++ addedHeader (setResp request message) message ∧
      next.body = bodyAfter (setResp request message) request.body message ∧
      next.answered = request.answered ++ [message] := by
  have urls := urls_fold message.isGet message.url request.resp
  rw [← stops, ← recognised, goes, if_neg Bool.false_ne_true, ← setResp] at urls
  simp only [receive, urls, Option.bind_eq_bind, Option.bind_some]
  exact ⟨_, rfl, complete_header _ message, complete_body _ message, rfl⟩

theorem responses_append (messages : List Message) (message : Message) :
    responses (messages ++ [message]) =
      responses messages ++ ((response message).1 ++ (response message).2) := by
  simp [responses]

theorem response_eq (empty : request.body = [])
    (known : request.resp = .metrics → recognised message = true) :
    addedHeader (setResp request message) message = (response message).1 ∧
      bodyAfter (setResp request message) request.body message = (response message).2 := by
  cases seen : recognised message with
  | true =>
    rw [setResp, response, seen, if_pos rfl, if_pos rfl]
    simp only [addedHeader, bodyAfter]
    cases message.collected with
    | failed => exact ⟨rfl, empty⟩
    | printed metrics => exact ⟨rfl, rfl⟩
  | false =>
    have unset : request.resp = .notFound := by
      cases resp : request.resp with
      | notFound => rfl
      | metrics =>
        rw [known resp] at seen
        cases seen
    rw [setResp, response, seen, if_neg Bool.false_ne_true, if_neg Bool.false_ne_true, unset]
    exact ⟨rfl, empty⟩

/-! ## Headers as bytes -/

theorem status_line_begins (message : Message) (status : HttpStatus) (rest : List UInt8) :
    ∃ more, statusLine message status ++ rest = 72 :: more := by
  have http : bytesOf "HTTP/" = [72, 84, 84, 80, 47] := by decide
  exact ⟨_, rfl⟩

theorem added_begins (resp : ResponseType) (message : Message) :
    ∃ more, addedHeader resp message = 72 :: more := by
  cases resp with
  | notFound => exact status_line_begins message .notFound _
  | metrics =>
    rw [addedHeader.eq_def]
    cases message.collected with
    | failed => exact status_line_begins message .internalServerError _
    | printed metrics => exact status_line_begins message .ok _

theorem status_line_differs {one other : HttpStatus} {rest more : List UInt8}
    (same : statusLine message one ++ rest = statusLine message other ++ more) : one = other := by
  simp only [statusLine, List.append_assoc, List.append_cancel_left_eq] at same
  have ok : printDecimal HttpStatus.ok.code = [50, 48, 48] := by decide
  have notFound : printDecimal HttpStatus.notFound.code = [52, 48, 52] := by decide
  have internal : printDecimal HttpStatus.internalServerError.code = [53, 48, 48] := by decide
  cases one <;> cases other <;> first | rfl | simp [ok, notFound, internal] at same

/-! ## Whole runs -/

structure Known (request : Request) : Prop where
  queued : Queued request
  body : request.body = [] ∨ ∃ rest, request.body = 35 :: rest

theorem body_after_begins (resp : ResponseType) {body : List UInt8} (message : Message)
    (begins : body = [] ∨ ∃ rest, body = 35 :: rest) :
    bodyAfter resp body message = [] ∨ ∃ rest, bodyAfter resp body message = 35 :: rest := by
  cases resp with
  | notFound => exact begins
  | metrics =>
    rw [bodyAfter.eq_def]
    cases message.collected with
    | failed => exact begins
    | printed metrics => exact metrics.begins

theorem fits_known (goes : stops message = false) (known : Known request)
    (fits : Fits (some request) message) :
    ∃ next, receive (some request) message = some next ∧ Known next := by
  obtain ⟨empty, seen, room⟩ := fits request rfl goes
  obtain ⟨next, received, header, body, answered⟩ := receive_answers request goes
  have begins := body_after_begins (setResp request message) message known.body
  obtain ⟨sameHeader, sameBody⟩ := response_eq empty seen
  refine ⟨next, received, ⟨?_, ?_⟩, ?_⟩
  · rw [header, sameHeader, List.length_append]
    exact room
  · have before := known.queued.bytes
    rw [empty, List.append_nil] at before
    rw [header, body, answered, responses_append, ← before, sameHeader, sameBody, List.append_assoc]
  · rw [body]
    exact begins

theorem misfit_not_right (known : Known request) (misfit : ¬ Fits (some request) message) :
    ¬ Right (receive (some request) message) := by
  simp only [Fits, Option.mem_def, Option.some.injEq, forall_eq', Classical.not_imp] at misfit
  obtain ⟨goes, violated⟩ := misfit
  obtain ⟨next, received, header, body, answered⟩ := receive_answers request goes
  rw [received]
  rintro ⟨room, bytes⟩
  rw [header, body, answered, responses_append, ← known.queued.bytes, List.append_assoc,
    List.append_assoc, List.append_cancel_left_eq] at bytes
  rcases known.body with empty | ⟨rest, begins⟩
  · rw [empty, List.nil_append] at bytes
    by_cases stale : request.resp = .metrics ∧ recognised message = false
    · -- The kind of response is left from an earlier message.
      have set : setResp request message = .metrics := by
        rw [setResp, stale.2, if_neg Bool.false_ne_true]
        exact stale.1
      have expected : (response message).1 = errHeader message .notFound := by
        rw [response, stale.2, if_neg Bool.false_ne_true]
      rw [set, expected, addedHeader.eq_def] at bytes
      cases collected : message.collected with
      | failed =>
        simp only [collected, errHeader, List.append_assoc] at bytes
        cases status_line_differs bytes
      | printed metrics =>
        simp only [collected, okHeader, errHeader, List.append_assoc] at bytes
        cases status_line_differs bytes
    · have seen : request.resp = .metrics → recognised message = true := by
        intro set
        by_contra unseen
        exact stale ⟨set, Bool.not_eq_true _ ▸ unseen⟩
      obtain ⟨sameHeader, _⟩ := response_eq empty seen
      rw [header, sameHeader, List.length_append] at room
      exact violated ⟨empty, seen, room⟩
  · -- A body comes before the header.
    obtain ⟨more, first⟩ := added_begins (setResp request message) message
    rw [begins, first] at bytes
    simp at bytes

/-- For every messages on a connection: the header fits its buffer and the queue is
header and body message by message in every state of a run, exactly when every message
fits. -/
theorem pipeline_right_iff (messages : List Message) :
    Throughout receive Right (some newRequest) messages ↔
      EachStep receive Fits (some newRequest) messages := by
  refine throughout_iff_of_good_steps receive
    (fun state => ∀ request, state = some request → Known request) Right Fits ?_ ?_ ?_ _ ?_ messages
  · intro state known
    cases state with
    | none => trivial
    | some request => exact (known request rfl).queued
  · intro state message known fits next received
    cases state with
    | none => cases received
    | some request =>
      cases goes : stops message with
      | true =>
        rw [receive_stops request goes] at received
        cases received
      | false =>
        obtain ⟨after, same, kept⟩ :=
          fits_known goes (known request rfl) fits
        rw [same] at received
        cases received
        exact kept
  · intro state message known misfit
    cases state with
    | none => exact absurd (fun before impossible => by cases impossible) misfit
    | some request => exact misfit_not_right (known request rfl) misfit
  · rintro request ⟨⟩
    exact ⟨⟨Nat.zero_le _, rfl⟩, Or.inl rfl⟩

/-- A request for the metrics that prints "#", and one for a file that is not there. -/
def metricsMessage : Message :=
  ⟨true, [bytesOf "/metrics"], 1, 1, .printed ⟨[35], Or.inr ⟨[], rfl⟩⟩⟩

def missingMessage : Message := ⟨true, [bytesOf "/"], 1, 1, .failed⟩

/-- With two requests for the metrics the first body is lost; twenty-nine headers of 73
bytes do not fit. -/
theorem pipelined_requests_mixed :
    ¬ Throughout receive Right (some newRequest) [metricsMessage, metricsMessage] ∧
      ¬ Throughout receive Right (some newRequest) (List.replicate 29 missingMessage) := by
  constructor
  · intro right
    exact absurd (throughout_run receive Right _ _ right) (by decide +kernel)
  · intro right
    exact absurd (throughout_run receive Right _ _ right) (by decide +kernel)

end Cprogramming.EventServer.Pipeline
