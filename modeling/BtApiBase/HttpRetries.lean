import BtApiBase.Effects
import BtApiBase.Redaction

/-!
# HTTP requests and their retries

`HttpClient` turns a response into a body or an exception, and `Feed.http_request`
turns the exception into a pause and another request, or into the end. A client
error with a JSON body counts as a body, and status 429 is a client error: such
a response is handed out without a pause. `httpx` is known by what it delivers.
-/

namespace HttpRetries

open PyText PyDict PyValue Redaction Effects

/-- What `httpx` gives of a response: `headers.get`, `json()`, which is `none`
where it raises a `ValueError`, and `text`. -/
structure Response where
  statusCode : Int
  headers : PyStr → Option PyStr
  json : Option PyVal
  text : PyStr

def Response.isSuccess (r : Response) : Bool := 200 ≤ r.statusCode && r.statusCode ≤ 299

/-- The exceptions of `httpx` that the client names, and any other one. -/
inductive Failure where
  | timeout (text : PyStr)
  | connect (text : PyStr)
  | request (text : PyStr)
  | raised (e : PyExc)

inductive ErrorClass where
  | rateLimit | auth | server | requestFailed | request | requestTimeout
  | builtin (t : ExcType)
  deriving DecidableEq

/-- An exception on its way to the caller; `text` is what `str` makes of it. -/
structure HttpError where
  cls : ErrorClass
  text : PyStr
  context : PyVal := .none
  statusCode : Option Int := none
  retryAfter : Option PyFloat := none

def HttpError.ofExc (e : PyExc) : HttpError := { cls := .builtin e.type, text := e.text }

/-- What the interpreter and the platform decide. -/
structure Env where
  py : Interp
  passes : Passes
  sanitizeUrl : PyStr → PyStr
  /-- `float(text)`: `none` stands for `ValueError`. -/
  float : PyStr → Option PyFloat
  /-- The longest duration in seconds that `time.sleep` takes. -/
  longest : Rat

structure Feed where
  exchangeName : PyStr
  env : Env

/-- The arguments of `http_request` that an outcome depends on. -/
structure Request where
  url : PyStr
  headers : List (PyStr × PyStr)
  timeout : PyVal

/-- The answers that are still to come, one for each request, and the pauses
that were made. -/
structure World where
  answers : Stream' (Except Failure Response)
  slept : List PyFloat

variable (env : Env) (feed : Feed)

/-! ## The exceptions -/

/-- `UnifiedError.__post_init__` and `__str__` -/
def unifiedError (cls : ErrorClass) (code venue message : PyStr) (context : PyMap) : HttpError :=
  let sanitized := sanitizeValue env.py env.passes (.dict
    [(.str "message", .str message), (.str "original_error", .none), (.str "context", .dict context)])
  let field := fun k => match sanitized with
    | .dict d => PyMap.get d k
    | _ => .none
  { cls
    text := u "[" ++ venue ++ u "] " ++ code ++ u ": " ++ env.py.str (field "message")
    context := field "context" }

def withResponse (response : PyVal) : PyMap :=
  if truthy response then [(.str "raw_response", response)] else []

def unifiedRateLimitError (venue : PyStr) (response : PyVal) : HttpError :=
  unifiedError env .rateLimit "RATE_LIMIT_EXCEEDED" venue "Rate limit exceeded" (withResponse response)

def unifiedAuthError (venue : PyStr) (response : PyVal) (message : PyStr) : HttpError :=
  unifiedError env .auth "INVALID_API_KEY" venue message (withResponse response)

def serverError (venue : PyStr) (status : Int) (response : PyVal) : HttpError :=
  unifiedError env .server "INTERNAL_ERROR" venue "Server error"
    [(.str "status", .int status), (.str "raw_response", response)]

def requestError (exchangeName detail : PyStr) : HttpError where
  cls := .request
  text := exchangeName ++ u " request error" ++ if detail = [] then [] else u " — " ++ detail

def requestFailedError (venue message : PyStr) (status : Option Int) : HttpError :=
  let message := if message = [] then u "Request failed" else message
  let detail := message ++ match status with
    | some code => u " (HTTP " ++ intText code ++ u ")"
    | none => []
  { requestError (if venue = [] then u "unknown" else venue) detail with
    cls := .requestFailed
    statusCode := status }

def requestTimeoutError (exchangeName : PyStr) (timeout : PyVal) : HttpError where
  cls := .requestTimeout
  text := exchangeName ++ u " request timeout (" ++ env.py.str timeout ++ u "s)"

/-! ## `HttpClient` -/

/-- `body.get("msg", body.get("message", default))` -/
def bodyMessage (body : PyVal) (default : PyStr) : Except HttpError PyVal :=
  match body with
  | .dict d => .ok (PyMap.getOr d "msg" (PyMap.getOr d "message" (.str default)))
  | _ => .error (.ofExc ⟨.attributeError, "object has no attribute 'get'"⟩)

/-- `f"HTTP {status}: {sanitize_text(message)}"` -/
def statusMessage (status : Int) (message : PyVal) : PyStr :=
  u "HTTP " ++ intText status ++ u ": " ++ sanitizeText env.py env.passes message []

/-- `_handle_error` -/
def handleError (r : Response) : Except HttpError HttpError :=
  let venue := feed.exchangeName
  let status := r.statusCode
  let body := r.json.getD (.dict [(.str "text", .str r.text)])
  if status = 429 then
    .ok { unifiedRateLimitError feed.env venue body with
      retryAfter := (r.headers "Retry-After").bind feed.env.float }
  else if status = 401 ∨ status = 403 then do
    let message ← bodyMessage body "Auth error"
    .ok (unifiedAuthError feed.env venue body (statusMessage feed.env status message))
  else if 500 ≤ status then
    .ok (serverError feed.env venue status body)
  else do
    let message ← bodyMessage body "Request failed"
    .ok (requestFailedError venue (statusMessage feed.env status message) (some status))

def raiseError (r : Response) : Except HttpError PyVal := do throw (← handleError feed r)

/-- `_process_response` -/
def processResponse (r : Response) : Except HttpError PyVal :=
  if r.isSuccess then
    .ok (r.json.getD (.dict [(.str "text", .str r.text), (.str "status_code", .int r.statusCode)]))
  else if 400 ≤ r.statusCode ∧ r.statusCode < 500 ∧ r.statusCode ≠ 404 ∧ r.statusCode ≠ 410 then
    match r.json with
    | some body => .ok body
    | none => raiseError feed r
  else raiseError feed r

def sensitiveMappingValues (headers : List (PyStr × PyStr)) : List PyVal :=
  (headers.filter fun h => isSensitiveKey env.py (.str h.1)).map fun h => .str h.2

/-- What the client raises where there is no response. -/
def failureError (headers : List (PyStr × PyStr)) : Failure → HttpError
  | .timeout text => failed "Request timeout: " text
  | .connect text => failed "Connection error: " text
  | .request text => failed "HTTP client error: " text
  | .raised e => .ofExc e
where
  failed (what : String) (text : PyStr) : HttpError :=
    requestFailedError feed.exchangeName
      (what ++ sanitizeText feed.env.py feed.env.passes (.str text) (sensitiveMappingValues feed.env headers))
      none

/-- `HttpClient.request` -/
def clientRequest (headers : List (PyStr × PyStr)) : Eff HttpError World PyVal := do
  let w ← get
  modify fun w => { w with answers := w.answers.tail }
  match w.answers.head with
  | .error failure => throw (failureError feed headers failure)
  | .ok response => ofExcept (processResponse feed response)

/-! ## `Feed` -/

/-- `time.sleep` -/
def sleep (duration : PyFloat) : Eff HttpError World Unit :=
  match duration with
  | .nan => throw (.ofExc (valueError "Invalid value NaN (not a number)"))
  | .inf _ => throw (.ofExc tooLarge)
  | .negZero => modify fun w => { w with slept := w.slept ++ [duration] }
  | .finite q =>
    if feed.env.longest < |q| then throw (.ofExc tooLarge)
    else if q < 0 then throw (.ofExc (valueError "sleep length must be non-negative"))
    else modify fun w => { w with slept := w.slept ++ [duration] }
where
  tooLarge : PyExc := ⟨.overflowError, "timestamp too large to convert to C PyTime_t"⟩

/-- `_time.sleep(min(0.5 * (2**attempt), 2.0))`; from 2**1024 on, an integer is
too large for a float. -/
def sleepBackoff (attempt : Nat) : Eff HttpError World Unit :=
  if attempt < 1024 then sleep feed (.finite (min (1 / 2 * 2 ^ attempt) 2))
  else throw (.ofExc ⟨.overflowError, "int too large to convert to float"⟩)

/-- `_retry_backoff` -/
def retryBackoff (attempt : Nat) (e : HttpError) : Eff HttpError World Unit :=
  match e.retryAfter with
  | none => sleepBackoff feed attempt
  | some retryAfter => tryCatch (sleep feed retryAfter) fun raised =>
    if raised.cls = .builtin .typeError ∨ raised.cls = .builtin .valueError then
      sleepBackoff feed attempt
    else throw raised

variable (request : Request) (maxRetries : Int)

/-- The `for` loop of `http_request` over the attempts that are left. -/
def attempts : List Nat → Eff HttpError World PyVal
  | [] => pure .none
  | attempt :: rest => tryCatch (clientRequest feed request.headers) fun e =>
    if e.cls = .requestFailed ∧ (e.statusCode = some 404 ∨ e.statusCode = some 410 ∨
        u "404" <:+: e.text ∨ u "410" <:+: e.text) then
      throw (requestError feed.exchangeName
        (u "endpoint gone/not found: " ++ feed.env.sanitizeUrl request.url))
    else if attempt < maxRetries - 1 then do
      retryBackoff feed attempt e
      attempts rest
    else if e.cls = .requestFailed ∧ u "timeout" <:+: feed.env.py.lower e.text then
      throw (requestTimeoutError feed.env feed.exchangeName request.timeout)
    else throw e

def httpRequest : Eff HttpError World PyVal :=
  attempts feed request maxRetries (List.range maxRetries.toNat)

/-! ## Responses with status 429 -/

/-- A finite duration that is not negative. -/
def NonNeg : PyFloat → Prop
  | .finite q => 0 ≤ q
  | .negZero => True
  | _ => False

/-- `time.sleep` takes no longer one. -/
def Fits : PyFloat → Prop
  | .finite q => q ≤ env.longest
  | _ => True

/-- A response with status 429 whose `Retry-After` header asks for `delay`. -/
structure Limited (r : Response) (delay : PyFloat) : Prop where
  status : r.statusCode = 429
  header : (r.headers "Retry-After").bind env.float = some delay
  nonneg : NonNeg delay

variable {env feed}

variable {request maxRetries}

def exampleFeed : Feed where
  exchangeName := "TEST"
  env :=
    { py := .ascii
      passes := ⟨id, id, id⟩
      sanitizeUrl := id
      float := fun text => if text = u "2" then some (.finite 2) else none
      longest := 9223372036 }

def accepted : Response := ⟨200, fun _ => none, some (.dict []), "\x7b\x7d"⟩

end HttpRetries
