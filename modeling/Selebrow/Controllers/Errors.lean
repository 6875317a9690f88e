import Selebrow.Go

/-!
# Errors and their status codes

An error is a chain: each link but the last wraps another error.  `errors.Is` and
`errors.As` look along the chain, and the helpers of `models` look with them and then add
a link of their own.  `ErrorHandler` writes the status at the end.
-/

namespace Selebrow.Controllers

/-! ## Errors -/

structure ErrorBody where
  error : GoString
  message : GoString
  stackTrace : GoString
deriving DecidableEq, Repr

/-- The last link of a chain. -/
inductive Root
  | deadlineExceeded
  | canceled
  | new (text : GoString)
deriving DecidableEq, Repr

/-- An error that a handler may return.  `errors.Wrap` makes two links: the message, and
the stack around it. -/
inductive Err
  | root (r : Root)
  | withMessage (cause : Err) (msg : GoString)
  | withStack (cause : Err)
  | errorMessage (code : Int) (err : Err) (message : GoString)
  | w3c (code : Int) (err : Err) (value : ErrorBody)
  | http (code : Int) (message : GoString)
deriving DecidableEq, Repr

def Root.text : Root → GoString
  | .deadlineExceeded => bytes (CtxErr.text .deadlineExceeded)
  | .canceled => bytes (CtxErr.text .canceled)
  | .new text => text

namespace Err

/-- `Error()` -/
def text : Err → GoString
  | root r => r.text
  | withMessage cause msg => msg ++ bytes ": " ++ cause.text
  | withStack cause => cause.text
  | errorMessage _ err _ => err.text
  | w3c _ err _ => err.text
  | http code message => bytes "code=" ++ bytes (toString code) ++ bytes ", message=" ++ message

/-- The error and what it wraps, the outermost first. -/
def links : Err → List Err
  | root r => [root r]
  | withMessage cause msg => withMessage cause msg :: cause.links
  | withStack cause => withStack cause :: cause.links
  | errorMessage code err message => errorMessage code err message :: err.links
  | w3c code err value => w3c code err value :: err.links
  | http code message => [http code message]

/-- `errors.Is` with one of the errors of `context` -/
def is (err : Err) (target : Root) : Bool := err.links.any fun e => e = root target

/-- `Code()`, where there is one -/
def ownCode : Err → Option Int
  | errorMessage code _ _ => some code
  | w3c code _ _ => some code
  | _ => none

/-- `errors.As` with an `ErrorWithCode`: the code of what is found. -/
def code (err : Err) : Option Int := err.links.findSome? ownCode

def asHTTP : Err → Option Int
  | http code _ => some code
  | _ => none

def asW3C : Err → Option (Int × ErrorBody)
  | w3c code _ value => some (code, value)
  | _ => none

end Err

/-! ## The helpers -/

/-- `errors.Wrap` -/
def wrap (err : Err) (msg : GoString) : Err := .withStack (.withMessage err msg)

def newErrorMessage (code : Int) (err : Err) : Err := .errorMessage code err err.text

def statusRequestCancelled : Int := 499

def newQuoteExceededError (err : Err) : Err := newErrorMessage 429 err
def newTimeoutError (err : Err) : Err := newErrorMessage 504 err
def newCancelledError (err : Err) : Err := newErrorMessage statusRequestCancelled err

def wrapTimeoutErr (err : Err) (msg : GoString) : Err :=
  wrap (if err.is .deadlineExceeded ∧ err.code = none then newTimeoutError err else err) msg

def wrapCancelledErr (err : Err) : Err :=
  if err.is .canceled ∧ err.code = none then newCancelledError err else err

section

variable (format : Err → GoString)

/-- `format` is `fmt.Sprintf("%+v", err)`. -/
def newW3CErr (code : Int) (errText : GoString) (err : Err) : Err :=
  .w3c code err { error := errText, message := err.text, stackTrace := format err }

def wdSessionNotCreatedError (err : Err) : Err :=
  newW3CErr format (err.code.getD 500) (bytes "session not created") err

end

/-- What the handler does: it writes a response, or leaves that to echo. -/
inductive Response
  | json (code : Int) (body : ErrorBody)
  | string (code : Int) (text : GoString)
  | defaultHandler (err : Err)
deriving DecidableEq, Repr

/-- The status that the handler itself writes. -/
def Response.status : Response → Option Int
  | json code _ => some code
  | string code _ => some code
  | defaultHandler _ => none

def errorHandler (err : Err) (committed : Bool) : Option Response :=
  match err.links.findSome? Err.asHTTP with
  | some _ => some (.defaultHandler err)
  | none =>
    if committed then none
    else
      match err.links.findSome? Err.asW3C with
      | some (code, value) => some (.json code value)
      | none => some (.string (err.code.getD 500) err.text)

/-! ## Chains -/

/-- A plain error under any number of wrappers. -/
inductive Chain
  | root (r : Root)
  | wrap (c : Chain) (msg : GoString)
  | message (code : Int) (c : Chain)

def Chain.err : Chain → Err
  | root r => .root r
  | wrap c msg => Controllers.wrap c.err msg
  | message code c => newErrorMessage code c.err

/-- The code of the outermost link that has one, else that of the root. -/
def Err.expectedStatus (err : Err) : Int :=
  err.code.getD <|
    if err.is .deadlineExceeded then 504 else if err.is .canceled then 499 else 500

/-- What a session that could not be created for a reason is answered with. -/
def webdriverResponse (format : Err → GoString) (err : Err) (msg : GoString) : Option Response :=
  errorHandler (wdSessionNotCreatedError format (wrapCancelledErr (wrapTimeoutErr err msg))) false

def playwrightResponse (err : Err) (msg : GoString) : Option Response :=
  errorHandler (wrapCancelledErr (wrapTimeoutErr err msg)) false

/-! ## What a link changes -/

section

variable {err : Err} {target : Root} {msg : GoString} {n : Int}

@[simp] theorem code_wrap (err : Err) (msg : GoString) : (wrap err msg).code = err.code := rfl

@[simp] theorem code_newErrorMessage (n : Int) (err : Err) :
    (newErrorMessage n err).code = some n := rfl

@[simp] theorem is_wrap (err : Err) (msg : GoString) (target : Root) :
    (wrap err msg).is target = err.is target := rfl

@[simp] theorem is_newErrorMessage (n : Int) (err : Err) (target : Root) :
    (newErrorMessage n err).is target = err.is target := rfl

theorem is_wrapTimeoutErr (err : Err) (msg : GoString) (target : Root) :
    (wrapTimeoutErr err msg).is target = err.is target := by
  rw [wrapTimeoutErr, is_wrap]
  split
  · rw [newTimeoutError, is_newErrorMessage]
  · rfl

/-- A code that is there stays, and a deadline without one gets one. -/
theorem code_wrapTimeoutErr (err : Err) (msg : GoString) :
    (wrapTimeoutErr err msg).code =
      err.code.or (if err.is .deadlineExceeded then some 504 else none) := by
  rw [wrapTimeoutErr, code_wrap]
  cases hcode : err.code with
  | some n =>
    rw [if_neg (by simp)]
    exact hcode
  | none =>
    rw [Option.none_or]
    by_cases h : err.is .deadlineExceeded = true
    · rw [if_pos ⟨h, rfl⟩, if_pos h]
      rfl
    · rw [if_neg (fun hc => h hc.1), if_neg h]
      exact hcode

theorem code_wrapCancelledErr (err : Err) :
    (wrapCancelledErr err).code = err.code.or (if err.is .canceled then some 499 else none) := by
  rw [wrapCancelledErr]
  cases hcode : err.code with
  | some n =>
    rw [if_neg (by simp)]
    exact hcode
  | none =>
    rw [Option.none_or]
    by_cases h : err.is .canceled = true
    · rw [if_pos ⟨h, rfl⟩, if_pos h]
      rfl
    · rw [if_neg (fun hc => h hc.1), if_neg h]
      exact hcode

theorem code_wdSessionNotCreatedError (format : Err → GoString) (err : Err) :
    (wdSessionNotCreatedError format err).code = some (err.code.getD 500) := rfl

/-- The status behind both helpers. -/
theorem code_wrapped (err : Err) (msg : GoString) :
    (wrapCancelledErr (wrapTimeoutErr err msg)).code.getD 500 = err.expectedStatus := by
  rw [code_wrapCancelledErr, code_wrapTimeoutErr, is_wrapTimeoutErr, Err.expectedStatus]
  cases err.code with
  | some n => rfl
  | none =>
    cases err.is .deadlineExceeded with
    | true => rfl
    | false => cases err.is .canceled <;> rfl

end

/-! ## What the handler finds -/

/-- No link of the error is one that the handler treats in a way of its own. -/
structure Plain (err : Err) : Prop where
  http : err.links.findSome? Err.asHTTP = none
  w3c : err.links.findSome? Err.asW3C = none

section

variable {err : Err}

theorem Plain.wrap (h : Plain err) (msg : GoString) : Plain (wrap err msg) := ⟨h.http, h.w3c⟩

theorem Plain.newErrorMessage (h : Plain err) (code : Int) : Plain (newErrorMessage code err) :=
  ⟨h.http, h.w3c⟩

theorem plain_chain (c : Chain) : Plain c.err := by
  induction c with
  | root r => exact ⟨rfl, rfl⟩
  | wrap c msg ih => exact ih.wrap msg
  | message code c ih => exact ih.newErrorMessage code

theorem Plain.wrapTimeoutErr (h : Plain err) (msg : GoString) : Plain (wrapTimeoutErr err msg) := by
  apply Plain.wrap
  split
  · exact h.newErrorMessage 504
  · exact h

theorem Plain.wrapCancelledErr (h : Plain err) : Plain (wrapCancelledErr err) := by
  rw [Controllers.wrapCancelledErr]
  split
  · exact h.newErrorMessage statusRequestCancelled
  · exact h

theorem Plain.errorHandler (h : Plain err) :
    errorHandler err false = some (.string (err.code.getD 500) err.text) := by
  rw [Controllers.errorHandler, h.http, h.w3c]
  rfl

theorem Plain.errorHandler_w3c (h : Plain err) (code : Int) (value : ErrorBody) :
    Controllers.errorHandler (.w3c code err value) false = some (.json code value) := by
  have hnone : (Err.w3c code err value).links.findSome? Err.asHTTP = none := h.http
  rw [Controllers.errorHandler, hnone]
  rfl

end

/-! ## The same status on both paths -/

/-- Both protocols answer with the status of the chain, and no helper replaces a code. -/
theorem statuses_agree (format : Err → GoString) (c : Chain) (msg : GoString) :
    (webdriverResponse format c.err msg).bind Response.status = some c.err.expectedStatus ∧
      (playwrightResponse c.err msg).bind Response.status = some c.err.expectedStatus ∧
      ∀ n, c.err.code = some n → (wrapTimeoutErr c.err msg).code = some n ∧
        (wrapCancelledErr c.err).code = some n ∧
        (wdSessionNotCreatedError format c.err).code = some n := by
  have hplain : Plain (wrapCancelledErr (wrapTimeoutErr c.err msg)) :=
    ((plain_chain c).wrapTimeoutErr msg).wrapCancelledErr
  refine ⟨?_, ?_, ?_⟩
  · rw [webdriverResponse, wdSessionNotCreatedError, newW3CErr, hplain.errorHandler_w3c,
      Option.bind_some, Response.status, code_wrapped]
  · rw [playwrightResponse, hplain.errorHandler, Option.bind_some, Response.status, code_wrapped]
  · intro n hn
    refine ⟨?_, ?_, ?_⟩
    · rw [code_wrapTimeoutErr, hn, Option.some_or]
    · rw [code_wrapCancelledErr, hn, Option.some_or]
    · rw [code_wdSessionNotCreatedError, hn, Option.getD_some]

/-- A quota wait that timed out keeps its code. -/
example (msg msg' : GoString) :
    (playwrightResponse (newQuoteExceededError (wrap (.root .deadlineExceeded) msg)) msg').bind
      Response.status = some 429 := rfl

end Selebrow.Controllers
