import Kurul.JsValue
import Kurul.Runtime

/-!
# Kurul.Http.AllExceptionsFilter

The filter that answers a request when something was thrown, whatever it was.

* `readBody_isSome`, `mapHttpClientError_isSome`, `prismaLike_isSome` — when its reads do not throw.
* `answered_iff_of_some` — what is left to ask once a branch has set its variables.
* `answered_iff` — the values that are answered, and reported, as they should be.
-/

namespace Kurul
namespace AllExceptionsFilter

/-! ## What the filter writes -/

structure ValidationDetail where
  field : JsString
  constraint : Option JsString
  message : JsString

structure ProblemDetails where
  statusCode : Number
  error : JsString
  /-- A string, as long as the `message` of what was thrown is one. -/
  message : JsValue
  details : Option (List ValidationDetail)
  path : Option JsString
  timestamp : JsString
  requestId : Option JsString

structure ServerErrorContext where
  requestId : Option JsString
  method : Option JsString
  path : Option JsString
  statusCode : Number

/-- What is handed to the tracker: the value, or an error made of its text. -/
inductive Reported where
  | exception (value : JsValue)
  | wrapped (message : JsString)

structure Report where
  error : Reported
  context : ServerErrorContext
  line : JsValue
  stack : Option JsValue

inductive Event where
  | failure (report : Report)
  | response (problem : ProblemDetails)

def Event.report? : Event → Option Report
  | .failure report => some report
  | .response _ => none

def Event.problem? : Event → Option ProblemDetails
  | .failure _ => none
  | .response problem => some problem

/-- A computation of the filter: what it gives, nothing if it throws, and what it did. -/
structure Filtering (α : Type) where
  result : Option α
  events : List Event

instance : Monad Filtering where
  pure a := ⟨some a, []⟩
  bind x f := match x.result with
    | none => ⟨none, x.events⟩
    | some a => ⟨(f a).result, x.events ++ (f a).events⟩

def read {α : Type} (value : Option α) : Filtering α := ⟨value, []⟩

/-! ## The source -/

/-- `STATUS_CODES`. -/
def statusCodes : List (Int × JsString) :=
  [(100, js "Continue"), (101, js "Switching Protocols"), (102, js "Processing"), (103, js "Early Hints"),
    (200, js "OK"), (201, js "Created"), (202, js "Accepted"), (203, js "Non-Authoritative Information"),
    (204, js "No Content"), (205, js "Reset Content"), (206, js "Partial Content"), (207, js "Multi-Status"),
    (208, js "Already Reported"), (226, js "IM Used"), (300, js "Multiple Choices"),
    (301, js "Moved Permanently"), (302, js "Found"), (303, js "See Other"), (304, js "Not Modified"),
    (305, js "Use Proxy"), (307, js "Temporary Redirect"), (308, js "Permanent Redirect"),
    (400, js "Bad Request"), (401, js "Unauthorized"), (402, js "Payment Required"), (403, js "Forbidden"),
    (404, js "Not Found"), (405, js "Method Not Allowed"), (406, js "Not Acceptable"),
    (407, js "Proxy Authentication Required"), (408, js "Request Timeout"), (409, js "Conflict"),
    (410, js "Gone"), (411, js "Length Required"), (412, js "Precondition Failed"),
    (413, js "Payload Too Large"), (414, js "URI Too Long"), (415, js "Unsupported Media Type"),
    (416, js "Range Not Satisfiable"), (417, js "Expectation Failed"), (418, js "I'm a Teapot"),
    (421, js "Misdirected Request"), (422, js "Unprocessable Entity"), (423, js "Locked"),
    (424, js "Failed Dependency"), (425, js "Too Early"), (426, js "Upgrade Required"),
    (428, js "Precondition Required"), (429, js "Too Many Requests"),
    (431, js "Request Header Fields Too Large"), (451, js "Unavailable For Legal Reasons"),
    (500, js "Internal Server Error"), (501, js "Not Implemented"), (502, js "Bad Gateway"),
    (503, js "Service Unavailable"), (504, js "Gateway Timeout"), (505, js "HTTP Version Not Supported"),
    (506, js "Variant Also Negotiates"), (507, js "Insufficient Storage"), (508, js "Loop Detected"),
    (509, js "Bandwidth Limit Exceeded"), (510, js "Not Extended"),
    (511, js "Network Authentication Required")]

def reasonPhrase (statusCode : Number) : JsString :=
  ((statusCode.integer?.bind fun z => (statusCodes.find? fun e => e.1 = z)).map Prod.snd).getD (js "Error")

/-- `JSON.stringify(value) ?? String(value)`, or `String(value)` where that throws. -/
def describe : JsValue → Option JsString
  | .number .nan _ => some (js "null")
  | .number (.of (.infinite _)) _ => some (js "null")
  | .object o => match o.json with
    | some (some text) => some text
    | _ => o.text
  | value => value.toText

/-- One item of `details`: nothing inside if it is none. -/
def asValidationDetail (item : JsValue) : Option (Option ValidationDetail) :=
  match item.isRecord with
  | none => some none
  | some o => do
    match ← o.get (js "field") with
    | .string field =>
      match ← o.get (js "message") with
      | .string message =>
        match ← o.get (js "constraint") with
        | .string constraint => some (some ⟨field, some constraint, message⟩)
        | _ => some (some ⟨field, none, message⟩)
      | _ => some none
    | _ => some none

/-- The items up to one that is none. -/
def validationDetails : List JsValue → Option (Option (List ValidationDetail))
  | [] => some (some [])
  | item :: rest => do
    match ← asValidationDetail item with
    | none => some none
    | some detail => return (← validationDetails rest).map (detail :: ·)

/-- `Array.isArray(value)`, with the elements. -/
def elements : JsValue → Option (Option (List JsValue))
  | .object o => o.elements
  | _ => some none

def asValidationDetails (value : JsValue) : Option (Option (List ValidationDetail)) := do
  match ← elements value with
  | none => some none
  | some items => validationDetails items

def detailFromMessage (message : JsString) : ValidationDetail :=
  let field := message.takeWhile (· ≠ Fin.ofNat 65536 32)
  ⟨if field = [] then js "unknown" else field, none, message⟩

def detailsFromMessages (messages : List JsValue) : Option (List ValidationDetail) :=
  messages.mapM fun item => (describe item).map detailFromMessage

def mapPrismaError (code : JsValue) : Option (Int × JsString) :=
  match code with
  | .string s =>
    if s = js "P2002" then some (409, js "Resource already exists")
    else if s = js "P2025" then some (404, js "Resource not found")
    else if s = js "P2003" then some (409, js "Related resource conflict")
    else none
  | _ => none

/-- `HTTP_CLIENT_ERROR_MESSAGES[statusCode] ?? reasonPhrase(statusCode)`. -/
def clientErrorMessage (statusCode : Int) : JsString :=
  if statusCode = 413 then js "Request body is too large" else reasonPhrase (.ofInt statusCode)

/-- A whole number that is the status of the client's failure. -/
def clientStatus (status statusCode : JsValue) : Option Int :=
  match status, statusCode with
  | .number x _, .number y _ =>
    if x = y then x.integer?.filter fun z => 400 ≤ z && z ≤ 499 else none
  | _, _ => none

def mapHttpClientError (exception : JsValue) : Option (Option (Int × JsString)) :=
  match exception with
  | .object o => do
    if !(← o.ancestry).isError then return none
    let status ← o.get (js "status")
    match ← o.get (js "expose") with
    | .bool _ =>
      let statusCode ← o.get (js "statusCode")
      return (clientStatus status statusCode).map fun z => (z, clientErrorMessage z)
    | _ => return none
  | _ => some none

structure Request where
  requestId : Option JsString
  method : Option JsString
  url : Option JsString

/-- Of `SAFE_REQUEST_ID`. -/
def safeUnit (u : CodeUnit) : Bool :=
  (48 ≤ u.val && u.val ≤ 57) || (65 ≤ u.val && u.val ≤ 90) || (97 ≤ u.val && u.val ≤ 122) ||
    u.val == 46 || u.val == 95 || u.val == 126 || u.val == 45

def sanitizeRequestId (value : Option JsString) : Option JsString :=
  value.filter fun id => 8 ≤ id.length && id.length ≤ 128 && id.all safeUnit

def getRequestId (request : Request) : Option JsString := sanitizeRequestId request.requestId

def reportFailure (error : Reported) (context : ServerErrorContext) (message : JsValue)
    (stack : Option JsValue) : Filtering Unit := do
  let line ← match context.requestId with
    | none => pure message
    | some id => do
      let text ← read message.interpolated
      pure (.string (text ++ js " (requestId=" ++ id ++ js ")"))
  ⟨some (), [.failure ⟨error, context, line, stack⟩]⟩

/-- The variables of `catch` that its branches set. -/
structure Answer where
  statusCode : Number
  error : JsString
  message : JsValue
  details : Option (List ValidationDetail)

/-- As they are at the start. -/
def Answer.unexpected : Answer :=
  ⟨.ofInt 500, reasonPhrase (.ofInt 500), .string (js "An unexpected error occurred"), none⟩

/-- The process and the moment. -/
structure Env where
  production : Bool
  now : Instant

/-- A failure with its message and its stack, which are read first. -/
def reportObject (exception : JsValue) (o : ObjectReads JsValue) (context : ServerErrorContext) :
    Filtering JsValue := do
  let message ← read (o.get (js "message"))
  let stack ← read (o.get (js "stack"))
  reportFailure (.exception exception) context message (if stack.isUndefined then none else some stack)
  pure message

/-- What the `message` of a response makes of an answer. -/
def readMessage (answer : Answer) (message : JsValue) : Option Answer :=
  match message with
  | .string s => some { answer with message := .string s }
  | _ => do
    match ← elements message with
    | none => some answer
    | some messages =>
      let details ← detailsFromMessages messages
      some { answer with message := .string (js "Validation failed"), details := some details }

/-- What the status of an `HttpException` makes of them. -/
def Answer.ofStatus (statusCode : Number) : Answer :=
  ⟨statusCode, reasonPhrase statusCode, Answer.unexpected.message, none⟩

/-- What an `HttpException` says of itself. -/
def readBody (statusCode : Number) (body : JsValue) : Option Answer :=
  match body with
  | .string s => some { Answer.ofStatus statusCode with message := .string s }
  | _ => match body.isRecord with
    | none => some (.ofStatus statusCode)
    | some o => do
      let answer ← readMessage (.ofStatus statusCode) (← o.get (js "message"))
      let error := match ← o.get (js "error") with
        | .string s => s
        | _ => answer.error
      let details ← asValidationDetails (← o.get (js "details"))
      some { answer with error, details := details <|> answer.details }

/-- `exception instanceof PrismaClientKnownRequestError`, or what looks like one. -/
def prismaLike (exception : JsValue) : Option Bool :=
  match exception with
  | .object o => do
    match ← o.ancestry with
    | .prismaClientKnownRequestError => some true
    | _ =>
      if o.callable then return false
      match ← o.get (js "code") with
      | .string _ => o.has (js "clientVersion")
      | _ => some false
  | _ => some false

def mapped (status : Int) (message : JsString) : Answer :=
  ⟨.ofInt status, reasonPhrase (.ofInt status), .string message, none⟩

/-- The last branch: nothing but the text of the value. -/
def answerDescribed (env : Env) (context : ServerErrorContext) (exception : JsValue) : Filtering Answer := do
  let described ← read (describe exception)
  let text := js "Non-Error exception thrown: " ++ described
  reportFailure (.wrapped text) context (.string text) none
  pure (if env.production then .unexpected else { Answer.unexpected with message := .string described })

/-- The branch of an error that says nothing of its status. -/
def answerFailure (env : Env) (context : ServerErrorContext) (o : ObjectReads JsValue) : Filtering Answer := do
  let message ← reportObject (.object o) o context
  pure (if env.production then .unexpected else { Answer.unexpected with message })

/-- The branch of an `HttpException`. -/
def answerHttp (context : ServerErrorContext) (o : ObjectReads JsValue) (status : Number)
    (response : JsValue) : Filtering Answer := do
  let answer ← read (readBody status response)
  if status.atLeast 500 then
    let _ ← reportObject (.object o) o { context with statusCode := status }
    pure answer
  else pure answer

/-- The branches of the other objects. -/
def answerObject (env : Env) (context : ServerErrorContext) (o : ObjectReads JsValue) (isError : Bool)
    (httpClientError : Option (Int × JsString)) : Filtering Answer := do
  if ← read (prismaLike (.object o)) then
    match mapPrismaError (← read (o.get (js "code"))) with
    | some (status, message) => pure (mapped status message)
    | none => answerFailure env context o
  else
    match httpClientError with
    | some (status, message) => pure (mapped status message)
    | none => if isError then answerFailure env context o else answerDescribed env context (.object o)

/-- The branches. Only an object is an instance of a class. -/
def answer (env : Env) (context : ServerErrorContext) (exception : JsValue) : Filtering Answer := do
  let httpClientError ← read (mapHttpClientError exception)
  match exception with
  | .object o =>
    match ← read o.ancestry with
    | .httpException status response => answerHttp context o status response
    | ancestry => answerObject env context o ancestry.isError httpClientError
  | _ => answerDescribed env context exception

/-- `response.status(statusCode).json(problem)`, of a response not sent yet: a status is a whole number
of three digits, and the problem has to have a text. -/
def respond (problem : ProblemDetails) : Filtering Unit :=
  match problem.statusCode.integer? with
  | some z =>
    if 100 ≤ z ∧ z ≤ 999 ∧ problem.message.serializable = true then ⟨some (), [.response problem]⟩
    else ⟨none, []⟩
  | none => ⟨none, []⟩

def failureContext (request : Request) : ServerErrorContext :=
  ⟨getRequestId request, request.method, request.url, .ofInt 500⟩

def Answer.problem (a : Answer) (env : Env) (request : Request) : ProblemDetails :=
  ⟨a.statusCode, a.error, a.message, a.details, request.url, toISOString env.now, getRequestId request⟩

end AllExceptionsFilter

def AllExceptionsFilter.catch (env : Env) (request : Request) (exception : JsValue) : Filtering Unit := do
  let answer ← answer env (failureContext request) exception
  respond (answer.problem env request)

namespace AllExceptionsFilter

/-! ## What is asked of it -/

/-- What an `HttpException` was given as its status. -/
def ownStatus (exception : JsValue) : Option Number :=
  match exception.ancestry with
  | some (.httpException status _) => some status
  | _ => none

/-- The status of a Prisma error, known by its class or by its looks, whose code is mapped. -/
def prismaStatus (exception : JsValue) : Option Int :=
  match exception with
  | .object o =>
    if prismaLike exception = some true then ((o.get (js "code")).bind mapPrismaError).map Prod.fst else none
  | _ => none

/-- The status of an `http-errors` client error. -/
def clientErrorStatus (exception : JsValue) : Option Int :=
  (mapHttpClientError exception).join.map Prod.fst

def dueStatus (exception : JsValue) : Number :=
  (ownStatus exception).getD (.ofInt ((prismaStatus exception <|> clientErrorStatus exception).getD 500))

/-- Answered once and with the right status, reported if it is the server's, and nothing said of it in
production. -/
structure Answered (env : Env) (request : Request) (exception : JsValue) (run : Filtering Unit) : Prop where
  returns : run.result = some ()
  response : ∃ problem : ProblemDetails, problem.statusCode = dueStatus exception ∧
    run.events.filterMap Event.problem? = [problem] ∧
    (env.production = true → ownStatus exception = none → problem.statusCode.atLeast 500 = true →
      problem = Answer.unexpected.problem env request)
  reports : (run.events.filterMap Event.report?).length = if (dueStatus exception).atLeast 500 then 1 else 0

/-! ## When it is -/

def ThreeDigits (status : Number) : Prop := ∃ z, status.integer? = some z ∧ 100 ≤ z ∧ z ≤ 999

/-- The reads of `mapHttpClientError` do not throw. -/
def StatusReadable (o : ObjectReads JsValue) : Prop :=
  (o.get (js "status")).isSome ∧ ∃ expose, o.get (js "expose") = some expose ∧
    ((∃ b, expose = .bool b) → (o.get (js "statusCode")).isSome)

/-- The value has a text. -/
def Describable : JsValue → Prop
  | .object o => (∃ text, o.json = some (some text)) ∨ o.text.isSome
  | _ => True

/-- What is read of the response of an `HttpException` can be read, and what it says can be written. -/
def BodyReadable (body : JsValue) : Prop :=
  ∀ o, body.isRecord = some o →
    (∃ message, o.get (js "message") = some message ∧ ∃ messages, elements message = some messages ∧
      ∀ items ∈ messages, ∀ item ∈ items, Describable item) ∧
    (o.get (js "error")).isSome ∧
    ∃ details, o.get (js "details") = some details ∧ (asValidationDetails details).isSome

/-- The message and the stack can be read, and the message stands in a line with the id of the request. -/
def Reportable (request : Request) (o : ObjectReads JsValue) : Prop :=
  ∃ message stack, o.get (js "message") = some message ∧ o.get (js "stack") = some stack ∧
    (getRequestId request = none ∨ message.interpolated.isSome)

/-- Outside production the message is answered, and has to have a text as JSON. -/
def Showable (env : Env) (o : ObjectReads JsValue) : Prop :=
  env.production = true ∨ ∀ message ∈ o.get (js "message"), message.serializable = true

/-- The reads that tell a Prisma error from another do not throw. -/
def LooksReadable (ancestry : Ancestry JsValue) (o : ObjectReads JsValue) : Prop :=
  match ancestry with
  | .prismaClientKnownRequestError => True
  | _ => o.callable = true ∨ ∃ code, o.get (js "code") = some code ∧
      ((∃ s, code = .string s) → (o.has (js "clientVersion")).isSome)

def Answerable (env : Env) (request : Request) (exception : JsValue) : Prop :=
  ∀ o, exception = .object o → ∃ ancestry, o.ancestry = some ancestry ∧
    (ancestry.isError = true → StatusReadable o) ∧
    match ancestry with
    | .httpException status response =>
      BodyReadable response ∧ ThreeDigits status ∧ (status.atLeast 500 = true → Reportable request o)
    | ancestry =>
      LooksReadable ancestry o ∧
        if prismaLike exception = some true then
          ∃ code, o.get (js "code") = some code ∧ ((mapPrismaError code).isSome ∨
            clientErrorStatus exception = none ∧ Reportable request o ∧ Showable env o)
        else (clientErrorStatus exception).isSome ∨
          if ancestry.isError then Reportable request o ∧ Showable env o else Describable exception

/-- An object without a prototype that holds a `bigint`: neither `JSON.stringify` nor `String` takes it. -/
def holder : JsValue := .object {
  callable := false
  ancestry := some .other
  get := fun name => some (if name = js "n" then .bigint 1 else .undefined)
  has := fun name => some (name = js "n")
  elements := some none
  text := none
  json := none }

/-- Thrown, it is not answered at all. -/
theorem catch_holder :
    ¬ Answered ⟨true, 0⟩ ⟨none, none, none⟩ holder
      (AllExceptionsFilter.catch ⟨true, 0⟩ ⟨none, none, none⟩ holder) := by
  intro hanswered
  have hreturns : (none : Option Unit) = some () := hanswered.returns
  cases hreturns

/-! ### Running it -/

section Run

variable {α β : Type} {env : Env} {request : Request} {context : ServerErrorContext} {exception : JsValue}
  {o : ObjectReads JsValue}

@[simp] theorem read_some_bind (a : α) (f : α → Filtering β) : read (some a) >>= f = f a := rfl

@[simp] theorem read_none_bind (f : α → Filtering β) : read none >>= f = ⟨none, []⟩ := rfl

@[simp] theorem pure_bind (a : α) (f : α → Filtering β) : (pure a : Filtering α) >>= f = f a := rfl

@[simp] theorem mk_some_bind (a : α) (events : List Event) (f : α → Filtering β) :
    (⟨some a, events⟩ : Filtering α) >>= f = ⟨(f a).result, events ++ (f a).events⟩ := rfl

@[simp] theorem mk_none_bind (events : List Event) (f : α → Filtering β) :
    (⟨none, events⟩ : Filtering α) >>= f = ⟨none, events⟩ := rfl

theorem result_bind (x : Filtering α) (f : α → Filtering β) :
    (x >>= f).result = x.result.bind fun a => (f a).result := by
  obtain ⟨result, events⟩ := x
  cases result <;> rfl

/-- A failure is reported once, unless its line cannot be written. -/
theorem reportFailure_eq (error : Reported) {message : JsValue} (stack : Option JsValue)
    (h : context.requestId = none ∨ message.interpolated.isSome) :
    ∃ r, reportFailure error context message stack = ⟨some (), [.failure r]⟩ := by
  unfold reportFailure
  cases hid : context.requestId with
  | none => exact ⟨_, rfl⟩
  | some id =>
    rw [hid] at h
    obtain ⟨text, htext⟩ := Option.isSome_iff_exists.mp (h.resolve_left nofun)
    refine ⟨⟨error, context, .string (text ++ js " (requestId=" ++ id ++ js ")"), stack⟩, ?_⟩
    simp only [htext, read_some_bind, pure_bind]

theorem reportFailure_none {error : Reported} {message : JsValue} {stack : Option JsValue}
    (h : ¬ (context.requestId = none ∨ message.interpolated.isSome)) :
    reportFailure error context message stack = ⟨none, []⟩ := by
  rw [not_or] at h
  unfold reportFailure
  cases hid : context.requestId with
  | none => exact absurd hid h.1
  | some id =>
    have hnone : message.interpolated = none := by simpa using h.2
    simp only [hnone, read_none_bind]

theorem reportObject_eq (exception : JsValue) (hid : context.requestId = getRequestId request)
    (h : Reportable request o) :
    ∃ message r, o.get (js "message") = some message ∧
      reportObject exception o context = ⟨some message, [.failure r]⟩ := by
  obtain ⟨message, stack, hmessage, hstack, hline⟩ := h
  obtain ⟨r, hr⟩ := reportFailure_eq (.exception exception)
    (if stack.isUndefined then none else some stack) (hid ▸ hline)
  refine ⟨message, r, hmessage, ?_⟩
  simp only [reportObject, hmessage, hstack, read_some_bind, hr, mk_some_bind]
  rfl

theorem reportObject_none (exception : JsValue) (hid : context.requestId = getRequestId request)
    (h : ¬ Reportable request o) :
    (reportObject exception o context).result = none := by
  unfold reportObject
  cases hmessage : o.get (js "message") with
  | none => rfl
  | some message =>
    cases hstack : o.get (js "stack") with
    | none => rfl
    | some stack =>
      have hline : ¬ (context.requestId = none ∨ message.interpolated.isSome) := fun hline =>
        h ⟨message, stack, hmessage, hstack, hid ▸ hline⟩
      simp only [read_some_bind, reportFailure_none hline, mk_none_bind]

theorem describe_isSome (v : JsValue) : (describe v).isSome ↔ Describable v := by
  cases v with
  | number x digits =>
    cases x with
    | nan => exact iff_of_true rfl trivial
    | of n => cases n <;> exact iff_of_true rfl trivial
  | object o =>
    simp only [describe, Describable]
    cases hjson : o.json with
    | none => simp
    | some text => cases text <;> simp
  | _ => exact iff_of_true rfl trivial

theorem detailsFromMessages_isSome (messages : List JsValue) :
    (detailsFromMessages messages).isSome ↔ ∀ item ∈ messages, Describable item := by
  unfold detailsFromMessages
  induction messages with
  | nil => simp
  | cons item rest ih =>
    rw [List.mapM_cons, List.forall_mem_cons, ← ih, ← describe_isSome]
    cases describe item with
    | none => simp
    | some text => cases rest.mapM fun item => (describe item).map detailFromMessage <;> simp

theorem readMessage_isSome (a : Answer) (message : JsValue) : (readMessage a message).isSome ↔
    ∃ messages, elements message = some messages ∧ ∀ items ∈ messages, ∀ item ∈ items, Describable item := by
  have hread : ∀ elements : Option (Option (List JsValue)), (elements.bind fun
      | none => some a
      | some messages => (detailsFromMessages messages).bind fun details =>
        some { a with message := .string (js "Validation failed"), details := some details }).isSome ↔
      ∃ messages, elements = some messages ∧ ∀ items ∈ messages, ∀ item ∈ items, Describable item := by
    rintro (_ | _ | messages)
    · simp
    · simp
    · simp only [← detailsFromMessages_isSome, Option.mem_def, Option.some.injEq, forall_eq', exists_eq_left']
      cases hdetails : detailsFromMessages messages <;> simp [hdetails]
  cases message with
  | object o => exact hread o.elements
  | _ => exact iff_of_true rfl ⟨none, rfl, nofun⟩

theorem readMessage_eq_some {a b : Answer} {message : JsValue} (h : readMessage a message = some b)
    (ha : ∃ s, a.message = .string s) : b.statusCode = a.statusCode ∧ ∃ s, b.message = .string s := by
  unfold readMessage at h
  split at h
  · cases h
    exact ⟨rfl, _, rfl⟩
  · obtain ⟨messages, _, hb⟩ := Option.bind_eq_some_iff.mp h
    cases messages with
    | none =>
      cases hb
      exact ⟨rfl, ha⟩
    | some messages =>
      obtain ⟨details, _, hb⟩ := Option.bind_eq_some_iff.mp hb
      cases hb
      exact ⟨rfl, _, rfl⟩

theorem readBody_isSome (status : Number) (body : JsValue) :
    (readBody status body).isSome ↔ BodyReadable body := by
  unfold readBody BodyReadable
  cases body with
  | object o =>
    by_cases hcallable : o.callable = true
    · have hrecord : (JsValue.object o).isRecord = none := by simp [JsValue.isRecord, hcallable]
      exact iff_of_true (by rw [hrecord]; rfl) fun _ h => nomatch hrecord.symm.trans h
    · have hrecord : (JsValue.object o).isRecord = some o := by simp [JsValue.isRecord, hcallable]
      simp only [hrecord, Option.some.injEq, forall_eq']
      cases hmessage : o.get (js "message") with
      | none => simp
      | some message =>
        have hsome := readMessage_isSome (.ofStatus status) message
        cases hread : readMessage (.ofStatus status) message with
        | none =>
          rw [hread] at hsome
          refine iff_of_false (by simp [hread]) ?_
          rintro ⟨⟨_, ⟨⟩, hmessages⟩, _⟩
          exact nomatch hsome.mpr hmessages
        | some a =>
          rw [hread] at hsome
          cases herror : o.get (js "error") with
          | none => simp
          | some error =>
            cases hdetails : o.get (js "details") with
            | none => simp
            | some details =>
              cases hvalid : asValidationDetails details with
              | none => simp [hvalid]
              | some _ => simpa [hread, hvalid] using hsome
  | _ => exact iff_of_true rfl nofun

/-- The status is the exception's, and the message a string. -/
theorem readBody_eq_some {status : Number} {body : JsValue} {a : Answer} (h : readBody status body = some a) :
    a.statusCode = status ∧ ∃ s, a.message = .string s := by
  unfold readBody at h
  split at h
  · cases h
    exact ⟨rfl, _, rfl⟩
  · split at h
    · cases h
      exact ⟨rfl, _, rfl⟩
    · obtain ⟨message, _, h⟩ := Option.bind_eq_some_iff.mp h
      obtain ⟨b, hb, h⟩ := Option.bind_eq_some_iff.mp h
      obtain ⟨error, _, h⟩ := Option.bind_eq_some_iff.mp h
      obtain ⟨details, _, h⟩ := Option.bind_eq_some_iff.mp h
      obtain ⟨valid, _, h⟩ := Option.bind_eq_some_iff.mp h
      cases h
      exact readMessage_eq_some hb ⟨_, rfl⟩

theorem mapHttpClientError_isSome (o : ObjectReads JsValue) : (mapHttpClientError (.object o)).isSome ↔
    ∃ ancestry, o.ancestry = some ancestry ∧ (ancestry.isError = true → StatusReadable o) := by
  simp only [mapHttpClientError, StatusReadable]
  cases hancestry : o.ancestry with
  | none => simp
  | some ancestry =>
    by_cases herror : ancestry.isError = true
    · cases hstatus : o.get (js "status") with
      | none => simp [herror]
      | some status =>
        cases hexpose : o.get (js "expose") with
        | none => simp [herror]
        | some expose => cases expose <;> cases hcode : o.get (js "statusCode") <;> simp [herror]
    · simp [herror]

theorem prismaLike_isSome {ancestry : Ancestry JsValue} (h : o.ancestry = some ancestry) :
    (prismaLike (.object o)).isSome ↔ LooksReadable ancestry o := by
  simp only [prismaLike, h]
  have hlooks : (if o.callable = true then some false else do
      match ← o.get (js "code") with
      | .string _ => o.has (js "clientVersion")
      | _ => some false).isSome = true ↔ (o.callable = true ∨ ∃ code, o.get (js "code") = some code ∧
        ((∃ s, code = .string s) → (o.has (js "clientVersion")).isSome)) := by
    by_cases hcallable : o.callable = true
    · simp [hcallable]
    · cases hcode : o.get (js "code") with
      | none => simp [hcallable]
      | some code => cases code <;> simp [hcallable]
  cases ancestry with
  | prismaClientKnownRequestError => exact iff_of_true rfl trivial
  | _ => exact hlooks

theorem integer_ofInt (z : Int) : (Number.ofInt z).integer? = some z := by
  simp [Number.ofInt, Number.integer?]

theorem atLeast_ofInt (z bound : Int) : (Number.ofInt z).atLeast bound = decide (bound ≤ z) := by
  simp only [Number.ofInt, Number.atLeast, Rat.intCast_le_intCast]

theorem mapPrismaError_eq_some {code : JsValue} {z : Int} {message : JsString}
    (h : mapPrismaError code = some (z, message)) : z = 404 ∨ z = 409 := by
  unfold mapPrismaError at h
  split at h
  · split at h
    · cases h; exact .inr rfl
    split at h
    · cases h; exact .inl rfl
    split at h
    · cases h; exact .inr rfl
    · cases h
  · cases h

theorem clientErrorStatus_range {v : JsValue} {z : Int} (h : clientErrorStatus v = some z) :
    400 ≤ z ∧ z ≤ 499 := by
  have hstatus : ∀ {status code : JsValue}, clientStatus status code = some z → 400 ≤ z ∧ z ≤ 499 := by
    intro status code h
    unfold clientStatus at h
    split at h
    · split at h
      · simpa using (Option.filter_eq_some_iff.mp h).2
      · cases h
    · cases h
  obtain ⟨⟨_, message⟩, hmap, rfl⟩ := Option.map_eq_some_iff.mp h
  have hmap := Option.join_eq_some_iff.mp hmap
  unfold mapHttpClientError at hmap
  split at hmap
  · obtain ⟨ancestry, _, hmap⟩ := Option.bind_eq_some_iff.mp hmap
    split at hmap
    · cases hmap
    · obtain ⟨status, _, hmap⟩ := Option.bind_eq_some_iff.mp hmap
      obtain ⟨expose, _, hmap⟩ := Option.bind_eq_some_iff.mp hmap
      split at hmap
      · obtain ⟨code, _, hmap⟩ := Option.bind_eq_some_iff.mp hmap
        obtain ⟨_, hz, heq⟩ := Option.map_eq_some_iff.mp (Option.some.inj hmap)
        cases heq
        exact hstatus hz
      · cases hmap
  · cases hmap

/-! ### The answer -/

theorem not_answered (h : (answer env (failureContext request) exception).result = none) :
    ¬ Answered env request exception (AllExceptionsFilter.catch env request exception) := by
  intro hanswered
  have hreturns := hanswered.returns
  rw [AllExceptionsFilter.catch, result_bind, h] at hreturns
  cases hreturns

/-- What is left to ask once a branch has set its variables. -/
theorem answered_iff_of_some {a : Answer} (reports : List Report)
    (h : answer env (failureContext request) exception = ⟨some a, reports.map .failure⟩) :
    Answered env request exception (AllExceptionsFilter.catch env request exception) ↔
      ThreeDigits a.statusCode ∧ a.message.serializable = true ∧ a.statusCode = dueStatus exception ∧
        reports.length = (if (dueStatus exception).atLeast 500 then 1 else 0) ∧
        (env.production = true → ownStatus exception = none → a.statusCode.atLeast 500 = true →
          a.problem env request = Answer.unexpected.problem env request) := by
  rw [AllExceptionsFilter.catch, h, mk_some_bind]
  by_cases hsent : ThreeDigits a.statusCode ∧ a.message.serializable = true
  · obtain ⟨⟨z, hz, hlow, hhigh⟩, hjson⟩ := hsent
    have hrespond : respond (a.problem env request) = ⟨some (), [.response (a.problem env request)]⟩ := by
      simp [respond, Answer.problem, hz, hlow, hhigh, hjson]
    have hsent : (reports.map Event.failure ++
        [Event.response (a.problem env request)]).filterMap Event.problem? = [a.problem env request] := by
      have hnone : reports.filterMap (Event.problem? ∘ Event.failure) = [] :=
        List.filterMap_eq_nil_iff.mpr fun _ _ => rfl
      rw [List.filterMap_append, List.filterMap_map, hnone]
      rfl
    have hcount : (reports.map Event.failure ++
        [Event.response (a.problem env request)]).filterMap Event.report? = reports := by
      have hall : reports.filterMap (Event.report? ∘ Event.failure) = reports := List.filterMap_some
      rw [List.filterMap_append, List.filterMap_map, hall]
      exact List.append_nil reports
    rw [hrespond]
    constructor
    · rintro ⟨-, ⟨problem, hstatus, hone, hsilent⟩, hreports⟩
      obtain rfl : problem = a.problem env request := List.singleton_inj.mp (hone.symm.trans hsent)
      exact ⟨⟨z, hz, hlow, hhigh⟩, hjson, hstatus, (congrArg List.length hcount) ▸ hreports, hsilent⟩
    · rintro ⟨-, -, hstatus, hreports, hsilent⟩
      exact ⟨rfl, ⟨a.problem env request, hstatus, hsent, hsilent⟩,
        (congrArg List.length hcount).trans hreports⟩
  · refine iff_of_false (fun hanswered => hsent ?_) fun h => hsent ⟨h.1, h.2.1⟩
    have hreturns : (respond (a.problem env request)).result = some () := hanswered.returns
    unfold respond at hreturns
    split at hreturns
    · split at hreturns
      · rename_i z hz h
        exact ⟨⟨z, hz, h.1, h.2.1⟩, h.2.2⟩
      · cases hreturns
    · cases hreturns

/-- Answered with the status of a client's failure. -/
theorem answered_of_mapped {z : Int} {message : JsString} (hz : 400 ≤ z ∧ z ≤ 499)
    (hdue : dueStatus exception = .ofInt z)
    (h : answer env (failureContext request) exception = ⟨some (mapped z message), []⟩) :
    Answered env request exception (AllExceptionsFilter.catch env request exception) := by
  have hless : (Number.ofInt z).atLeast 500 = false := by
    rw [atLeast_ofInt, decide_eq_false (by omega)]
  have hdigits : ThreeDigits (.ofInt z) := ⟨z, integer_ofInt z, by omega, by omega⟩
  refine (answered_iff_of_some [] h).mpr ⟨hdigits, rfl, hdue.symm, ?_, fun _ _ hlarge => ?_⟩
  · rw [hdue, hless]
    rfl
  · exact absurd hlarge (by rw [mapped, hless]; simp)

/-- Answered as an unexpected failure: what is left to ask is that none was due that is another. -/
theorem answered_iff_of_unexpected {message : JsValue} {r : Report}
    (h : answer env (failureContext request) exception =
      ⟨some (if env.production then .unexpected else { Answer.unexpected with message }), [.failure r]⟩) :
    Answered env request exception (AllExceptionsFilter.catch env request exception) ↔
      dueStatus exception = .ofInt 500 ∧ (env.production = true ∨ message.serializable = true) := by
  have hlarge : (Number.ofInt 500).atLeast 500 = true := by rw [atLeast_ofInt]; rfl
  have hdigits : ThreeDigits (.ofInt 500) := ⟨500, integer_ofInt 500, by omega, by omega⟩
  rw [answered_iff_of_some [r] h]
  by_cases hproduction : env.production = true
  · simp only [if_pos hproduction]
    constructor
    · rintro ⟨-, -, hdue, -⟩
      exact ⟨hdue.symm, .inl hproduction⟩
    · rintro ⟨hdue, -⟩
      exact ⟨hdigits, rfl, hdue.symm, by rw [hdue, hlarge]; rfl, fun _ _ _ => trivial⟩
  · simp only [if_neg hproduction]
    constructor
    · rintro ⟨-, hjson, hdue, -⟩
      exact ⟨hdue.symm, .inr hjson⟩
    · rintro ⟨hdue, hjson⟩
      exact ⟨hdigits, hjson.resolve_left hproduction, hdue.symm, by rw [hdue, hlarge]; rfl,
        fun h => absurd h hproduction⟩

/-- The branch of an error that says nothing of its status. -/
theorem answered_failure_iff
    (h : answer env (failureContext request) exception = answerFailure env (failureContext request) o) :
    Answered env request exception (AllExceptionsFilter.catch env request exception) ↔
      dueStatus exception = .ofInt 500 ∧ Reportable request o ∧ Showable env o := by
  by_cases hreport : Reportable request o
  · obtain ⟨message, r, hmessage, hrun⟩ := reportObject_eq (.object o)
      (show (failureContext request).requestId = getRequestId request from rfl) hreport
    rw [answerFailure, hrun, mk_some_bind] at h
    rw [answered_iff_of_unexpected h]
    simp [hreport, Showable, hmessage]
  · rw [answerFailure] at h
    refine iff_of_false (not_answered ?_) fun h => hreport h.2.1
    rw [h, result_bind, reportObject_none _ rfl hreport]
    rfl

/-- The branch of a value that is no error. -/
theorem answered_described_iff
    (h : answer env (failureContext request) exception =
      answerDescribed env (failureContext request) exception) :
    Answered env request exception (AllExceptionsFilter.catch env request exception) ↔
      dueStatus exception = .ofInt 500 ∧ Describable exception := by
  rw [← describe_isSome]
  cases hdescribe : describe exception with
  | none =>
    refine iff_of_false (not_answered ?_) fun h => nomatch h.2
    rw [h, answerDescribed, hdescribe]
    rfl
  | some described =>
    let text := js "Non-Error exception thrown: " ++ described
    have hline : (failureContext request).requestId = none ∨ (JsValue.string text).interpolated.isSome :=
      .inr rfl
    obtain ⟨r, hr⟩ := reportFailure_eq (.wrapped text) none hline
    have hrun : answerDescribed env (failureContext request) exception =
        ⟨some (if env.production then .unexpected else { Answer.unexpected with message := .string described }),
          [.failure r]⟩ := by
      rw [answerDescribed, hdescribe, read_some_bind]
      exact congrArg (· >>= fun _ => pure _) hr
    rw [answered_iff_of_unexpected (h.trans hrun)]
    simp [JsValue.serializable]

theorem ownStatus_eq {ancestry : Ancestry JsValue} (h : o.ancestry = some ancestry)
    (hother : ∀ status response, ancestry ≠ .httpException status response) :
    ownStatus (.object o) = none := by
  simp only [ownStatus, JsValue.ancestry, h]
  split
  · rename_i status response heq
    exact absurd (Option.some.inj heq) (hother status response)
  · rfl

/-- Of the errors with no status of their own, those that are due a failure of the server. -/
theorem dueStatus_eq_iff (hown : ownStatus exception = none) (hprisma : prismaStatus exception = none) :
    dueStatus exception = .ofInt 500 ↔ clientErrorStatus exception = none := by
  rw [dueStatus, hown, hprisma]
  cases hclient : clientErrorStatus exception with
  | none => simp
  | some z =>
    have hrange := clientErrorStatus_range hclient
    refine iff_of_false (fun h => ?_) nofun
    have hz : (Number.ofInt z).integer? = (Number.ofInt 500).integer? := congrArg Number.integer? h
    rw [integer_ofInt, integer_ofInt, Option.some.injEq] at hz
    omega

/-- An `HttpException`. -/
theorem answered_http_iff {status : Number} {response : JsValue}
    (hancestry : o.ancestry = some (.httpException status response))
    (h : answer env (failureContext request) (.object o) =
      answerHttp (failureContext request) o status response) :
    Answered env request (.object o) (AllExceptionsFilter.catch env request (.object o)) ↔
      BodyReadable response ∧ ThreeDigits status ∧ (status.atLeast 500 = true → Reportable request o) := by
  have hown : ownStatus (.object o) = some status := by simp [ownStatus, JsValue.ancestry, hancestry]
  have hdue : dueStatus (.object o) = status := by rw [dueStatus, hown, Option.getD_some]
  have hid (statusCode : Number) :
      { failureContext request with statusCode }.requestId = getRequestId request := rfl
  rw [← readBody_isSome status response]
  cases hbody : readBody status response with
  | none =>
    refine iff_of_false (not_answered ?_) fun h => nomatch h.1
    rw [h, answerHttp, hbody]
    rfl
  | some a =>
    obtain ⟨hstatus, s, hmessage⟩ := readBody_eq_some hbody
    rw [answerHttp, hbody, read_some_bind] at h
    have hjson : a.message.serializable = true := by rw [hmessage]; rfl
    by_cases hlarge : status.atLeast 500 = true
    · rw [if_pos hlarge] at h
      by_cases hreport : Reportable request o
      · obtain ⟨message, r, _, hrun⟩ := reportObject_eq (.object o)
          (hid status) hreport
        rw [hrun, mk_some_bind] at h
        rw [answered_iff_of_some [r] h, hstatus, hdue, hown, if_pos hlarge]
        simp [hjson, hreport]
      · refine iff_of_false (not_answered ?_) fun h => hreport (h.2.2 hlarge)
        have hnone := reportObject_none (.object o)
          (hid status) hreport
        rw [h, result_bind, hnone]
        rfl
    · rw [if_neg hlarge] at h
      rw [answered_iff_of_some [] h, hstatus, hdue, hown, if_neg hlarge]
      simp [hjson, hlarge]

/-- An object of another class. -/
theorem answered_object_iff {ancestry : Ancestry JsValue} {client : Option (Int × JsString)}
    (hancestry : o.ancestry = some ancestry)
    (hother : ∀ status response, ancestry ≠ .httpException status response)
    (hclient : mapHttpClientError (.object o) = some client)
    (h : answer env (failureContext request) (.object o) =
      answerObject env (failureContext request) o ancestry.isError client) :
    Answered env request (.object o) (AllExceptionsFilter.catch env request (.object o)) ↔
      LooksReadable ancestry o ∧
        if prismaLike (.object o) = some true then
          ∃ code, o.get (js "code") = some code ∧ ((mapPrismaError code).isSome ∨
            clientErrorStatus (.object o) = none ∧ Reportable request o ∧ Showable env o)
        else (clientErrorStatus (.object o)).isSome ∨
          if ancestry.isError then Reportable request o ∧ Showable env o else Describable (.object o) := by
  have hown := ownStatus_eq hancestry hother
  have hstatus : clientErrorStatus (.object o) = client.map Prod.fst := by rw [clientErrorStatus, hclient]; rfl
  rw [← prismaLike_isSome hancestry]
  cases hprisma : prismaLike (.object o) with
  | none =>
    refine iff_of_false (not_answered ?_) fun h => nomatch h.1
    unfold answerObject at h
    rw [h, hprisma]
    rfl
  | some looks =>
    unfold answerObject at h
    rw [hprisma, read_some_bind] at h
    cases looks with
    | true =>
      rw [if_pos rfl] at h
      rw [if_pos rfl]
      cases hcode : o.get (js "code") with
      | none =>
        refine iff_of_false (not_answered ?_) fun h => by simp at h
        rw [h, hcode]
        rfl
      | some code =>
        rw [hcode, read_some_bind] at h
        cases hmap : mapPrismaError code with
        | none =>
          rw [hmap] at h
          have hnone : prismaStatus (.object o) = none := by simp [prismaStatus, hprisma, hcode, hmap]
          rw [answered_failure_iff h, dueStatus_eq_iff hown hnone]
          simp [hmap]
        | some found =>
          obtain ⟨z, message⟩ := found
          rw [hmap] at h
          have hsome : prismaStatus (.object o) = some z := by simp [prismaStatus, hprisma, hcode, hmap]
          have hdue : dueStatus (.object o) = .ofInt z := by rw [dueStatus, hown, hsome]; rfl
          have hrange := mapPrismaError_eq_some hmap
          exact iff_of_true (answered_of_mapped (by omega) hdue h) ⟨rfl, code, rfl, .inl (by rw [hmap]; rfl)⟩
    | false =>
      have hnone : prismaStatus (.object o) = none := by simp [prismaStatus, hprisma]
      rw [if_neg (by simp)] at h
      rw [if_neg (by simp), hstatus]
      cases client with
      | some found =>
        obtain ⟨z, message⟩ := found
        have hsome : clientErrorStatus (.object o) = some z := hstatus
        have hdue : dueStatus (.object o) = .ofInt z := by rw [dueStatus, hown, hnone, hsome]; rfl
        exact iff_of_true (answered_of_mapped (clientErrorStatus_range hsome) hdue h) ⟨rfl, .inl rfl⟩
      | none =>
        have hdue : dueStatus (.object o) = .ofInt 500 := (dueStatus_eq_iff hown hnone).mpr hstatus
        by_cases herror : ancestry.isError = true
        · rw [if_pos herror]
          have hrun := h.trans (if_pos herror)
          rw [answered_failure_iff hrun]
          simp [hdue]
        · rw [if_neg herror]
          have hrun := h.trans (if_neg herror)
          rw [answered_described_iff hrun]
          simp [hdue]

/-- The values that are answered once and reported when they should be, whatever they are. -/
theorem answered_iff (env : Env) (request : Request) (exception : JsValue) :
    Answered env request exception (AllExceptionsFilter.catch env request exception) ↔
      Answerable env request exception := by
  unfold Answerable
  cases exception with
  | object o =>
    simp only [JsValue.object.injEq, forall_eq']
    have hreadable := mapHttpClientError_isSome o
    cases hclient : mapHttpClientError (.object o) with
    | none =>
      rw [hclient] at hreadable
      refine iff_of_false (not_answered ?_) fun ⟨ancestry, hancestry, hstatus, _⟩ =>
        nomatch hreadable.mpr ⟨ancestry, hancestry, hstatus⟩
      rw [answer, hclient]
      rfl
    | some client =>
      rw [hclient] at hreadable
      obtain ⟨ancestry, hancestry, hstatus⟩ := hreadable.mp rfl
      simp only [hancestry, Option.some.injEq, exists_eq_left']
      refine Iff.trans ?_ (and_iff_right hstatus).symm
      have hrun : answer env (failureContext request) (.object o) =
          read (some ancestry) >>= fun ancestry => match ancestry with
            | .httpException status response => answerHttp (failureContext request) o status response
            | ancestry => answerObject env (failureContext request) o ancestry.isError client := by
        unfold answer
        rw [hclient, read_some_bind, ← hancestry]
      cases ancestry with
      | httpException status response => exact answered_http_iff hancestry hrun
      | _ => exact answered_object_iff hancestry nofun hclient hrun
  | _ =>
    refine iff_of_true ((answered_described_iff rfl).mpr ⟨?_, trivial⟩) nofun
    rw [dueStatus_eq_iff rfl rfl]
    rfl

end Run

end AllExceptionsFilter
end Kurul
