/-
  What a provider failure means for the circuit breaker.

  A raised value is cut down to the record that may be stored (`toStoredError`: no secrets, at
  most a thousand characters) and classified by the blast radius of the failure
  (`classifyProviderCircuitFailure`).  Request-specific failures have no class and never trip a
  circuit.
-/
import NexusCode.Shared.Errors
import NexusCode.Circuit.Scope

namespace NexusCode.Circuit

open Lib Lib.Regex Shared

/-- `MAX_ERROR_MESSAGE_LENGTH`. -/
def maxErrorMessageLength : Nat := 1000

/-- `ProviderCircuitError`, the stored projection of a failure. -/
structure StoredError where
  code : AdapterErrorCode
  message : String
  retryable : Bool
  httpStatus : Option Nat := none
  retryAfterMs : Option Int := none
deriving DecidableEq

/-- What a caller can hand to `recordFailure`: an adapter error, or any other raised value by
    the text it prints as. -/
inductive Failure where
  | adapter (e : AdapterError)
  | other (message : String)

/-- A literal under the `i` flag. -/
def wi (s : String) : Regex := lit ignoreCase s

def whiteChar : Regex := chr JsString.isWhite

/-- The characters of an opaque token, besides letters and digits. -/
def tokenChar (marks : List Char) : Regex := chr fun c => c.isAlphanum || marks.contains c

/-- `[-_]?` between the two halves of a key name. -/
def joined (a b : String) : Regex :=
  chain [wi a, opt (chr fun c => c == '_' || c == '-'), wi b]

/-- `sanitizeErrorMessage(message)`. -/
def sanitizeErrorMessage (message : String) : String :=
  let bearer := chain [wordBoundary, wi "Bearer", plus whiteChar,
    plus (tokenChar ['.', '_', '~', '+', '/', '=', '-'])]
  let name := chain [wordBoundary, choice [joined "api" "key", joined "access" "token",
    joined "refresh" "token", wi "secret", wi "password"]]
  let value := chain [star whiteChar, chr fun c => c == ':' || c == '=', star whiteChar,
    plus (chr fun c => !JsString.isWhite c && c != ',' && c != ';')]
  let vendorKey := chain [wordBoundary,
    choice [w "sk", chain [w "xox", chr ("baprs".toList.contains ·)],
      chain [w "gh", chr ("pousr".toList.contains ·)]],
    chr fun c => c == '-' || c == '_', atLeast 8 (tokenChar ['_', '-']), wordBoundary]
  JsString.sliceTo maxErrorMessageLength
    (replaceAll eps vendorKey "[REDACTED]"
      (replaceAll name value "=[REDACTED]"
        (replaceAll eps bearer "Bearer [REDACTED]" message)))

/-- `toStoredError(error)`. -/
def toStoredError : Failure → StoredError
  | .adapter e =>
    { code := e.code
      message := sanitizeErrorMessage e.message
      retryable := e.retryable
      httpStatus := e.opts.httpStatus
      retryAfterMs := e.opts.retryAfterMs }
  | .other message =>
    { code := .unknown, message := sanitizeErrorMessage message, retryable := true }

/-- Prose about a rejected credential. -/
def credentialPattern : Regex :=
  chain [wordBoundary, choice [w "invalid", w "expired", w "revoked", w "missing"], w " ",
    opt (w "api "), choice [w "key", w "token", w "credential"], opt (w "s"), wordBoundary]

/-- Prose about a model that is gone. -/
def modelPattern : Regex :=
  chain [wordBoundary, choice [w "model", w "deployment"], wordBoundary, star (chr isDot),
    wordBoundary,
    choice [w "not found", w "unavailable", w "unsupported", w "disabled", w "deprecated",
      w "decommissioned"], wordBoundary]

/-- The codes that are transient whatever else the error says. -/
def transientCodes : List AdapterErrorCode :=
  [.rateLimit, .overloaded, .transport, .cliExit, .parse, .emptyOutput, .unknown]

/-- The classification of a stored error. -/
def classifyStored (stored : StoredError) : Option Reason :=
  let text := JsString.toLowerAscii stored.message
  if stored.code = .quotaExhausted ∨
      looksLikeQuotaExhaustion stored.message stored.code.text = true then some .quota
  else if stored.code = .auth ∨ stored.httpStatus = some 401 ∨
      test credentialPattern text = true then some .auth
  else if (stored.code = .invalidRequest ∨ stored.httpStatus = some 404 ∨
      stored.httpStatus = some 410) ∧ test modelPattern text = true then some .modelUnavailable
  else if stored.code ∈ transientCodes ∨ stored.retryable = true ∨
      stored.httpStatus.any (500 ≤ ·) = true then some .transient
  else none

/-- `classifyProviderCircuitFailure(error)`; `none` is a request-specific failure. -/
def classifyProviderCircuitFailure (error : Failure) : Option Reason :=
  classifyStored (toStoredError error)

end NexusCode.Circuit
