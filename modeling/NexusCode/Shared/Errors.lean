/-
  The error taxonomy every provider adapter maps its failures onto, and the matcher that tells a
  usage ceiling from a short-lived rate limit.

  The patterns are transcribed one by one; the flags of the originals are in the comparison of
  characters (`exactly` here, since the text is lower-cased first).
-/
import NexusCode.Lib.Regex

namespace NexusCode.Shared

open Lib

/-- `AdapterErrorCode`. -/
inductive AdapterErrorCode where
  | auth
  | rateLimit
  | quotaExhausted
  | overloaded
  | invalidRequest
  | contextLength
  | contentFilter
  | cancelled
  | transport
  | cliExit
  | parse
  | emptyOutput
  | unknown
deriving DecidableEq

/-- The wire name of a code. -/
def AdapterErrorCode.text : AdapterErrorCode → String
  | auth => "auth"
  | rateLimit => "rate_limit"
  | quotaExhausted => "quota_exhausted"
  | overloaded => "overloaded"
  | invalidRequest => "invalid_request"
  | contextLength => "context_length"
  | contentFilter => "content_filter"
  | cancelled => "cancelled"
  | transport => "transport"
  | cliExit => "cli_exit"
  | parse => "parse"
  | emptyOutput => "empty_output"
  | unknown => "unknown"

/-- `AdapterErrorOptions`, the members that are read.  Times are whole milliseconds. -/
structure AdapterErrorOptions where
  retryable : Option Bool := none
  retryAfterMs : Option Int := none
  httpStatus : Option Nat := none
  providerId : Option String := none

/-- `AdapterError`. -/
structure AdapterError where
  code : AdapterErrorCode
  message : String
  opts : AdapterErrorOptions := {}

/-- Codes that retry by default (transient / server-side). -/
def defaultRetryable : List AdapterErrorCode := [.rateLimit, .overloaded, .transport]

/-- `get retryable()`. -/
def AdapterError.retryable (e : AdapterError) : Bool :=
  e.opts.retryable.getD (defaultRetryable.contains e.code)

/-! ## Usage ceilings -/

open Regex

/-- A literal word of a pattern without the `i` flag. -/
def w (s : String) : Regex := lit exactly s

/-- `\b` in a pattern without the `u` flag. -/
def wordBoundary : Regex := boundary isWord

/-- The patterns on the lower-cased message. -/
def quotaPatterns : List Regex := [
  chain [wordBoundary, w "insufficient",
    plus (chr fun c => c == '_' || JsString.isWhite c || c == '-'), w "quota", wordBoundary],
  chain [wordBoundary, w "quota ", opt (choice [w "has been ", w "is "]),
    choice [w "exceeded", w "exhausted"], wordBoundary],
  chain [wordBoundary, w "exceeded ", choice [w "your", w "the"], w " ", opt (w "current "),
    w "quota", wordBoundary],
  chain [wordBoundary,
    choice [w "usage", w "spending", w "billing", w "monthly", w "daily"], w " limit ",
    opt (w "has been "), choice [w "reached", w "exceeded", w "expired"], wordBoundary],
  chain [wordBoundary, choice [w "reached", w "hit", w "exceeded"], w " ",
    choice [w "your", w "the"], w " ",
    choice [w "usage", w "spending", w "billing", w "monthly", w "daily"], w " limit",
    wordBoundary],
  chain [wordBoundary, w "billing hard limit", wordBoundary],
  chain [wordBoundary, w "credit balance ", opt (w "is "),
    choice [w "too low", w "depleted", w "exhausted"], wordBoundary],
  chain [wordBoundary, choice [w "no", w "not enough", w "insufficient"], w " ", opt (w "api "),
    w "credit", opt (w "s"), wordBoundary],
  chain [wordBoundary, w "purchase ", opt (w "more "), w "credit", opt (w "s"), wordBoundary],
  chain [wordBoundary, w "add ", opt (w "more "), w "credit", opt (w "s"), wordBoundary],
  chain [wordBoundary, w "you", choice [w "'ve", w " have"], w " hit your limit", wordBoundary],
  chain [wordBoundary, w "limit reset", opt (w "s"), wordBoundary]]

/-- The provider codes that mean a usage ceiling. -/
def quotaCodes : List String := [
  "insufficient_quota", "billing_hard_limit_reached", "usage_limit_reached",
  "usage_limit_exceeded", "quota_exceeded", "quota_exhausted", "service_quota_exceeded_exception"]

/-- `camelCase` to `snake_case`, as `replace(/([a-z0-9])([A-Z])/g, "$1_$2")` does. -/
def splitCamel : List Char → List Char
  | a :: b :: rest =>
    if (a.isLower || a.isDigit) && b.isUpper then a :: '_' :: b :: splitCamel rest
    else a :: splitCamel (b :: rest)
  | l => l

/-- `looksLikeQuotaExhaustion(message, providerCode)`. -/
def looksLikeQuotaExhaustion (message providerCode : String) : Bool :=
  let snake := String.ofList (splitCamel (JsString.trim providerCode).toList)
  let code := replaceAll eps (plus (chr fun c => JsString.isWhite c || c == '-')) "_"
    (JsString.toLowerAscii snake)
  quotaCodes.contains code ||
    quotaPatterns.any fun r => test r (JsString.toLowerAscii message)

example : looksLikeQuotaExhaustion "Error: you've hit your limit" "" = true := by decide +kernel

end NexusCode.Shared
