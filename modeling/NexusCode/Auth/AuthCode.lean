/-
  The authorization code flow: waiting for the redirect on the loopback server.

  Any process or web page that guesses the port can send requests to it, so a request that does not
  carry the state of the login is answered and forgotten.

    1. `onRequest`            — the handler; it parses the request target, which can throw.
    2. `step`                 — requests, the timeout and the abort signal, in any order.
    3. `Unmoved`              — no stray request ends the login.
    4. **`unmoved_iff`**      — nor does any whose target can be parsed.

  An exception in the handler is not caught: it ends the process.  The URL parser is that of the
  runtime.
-/
import NexusCode.Auth.TokenStore

namespace NexusCode.Auth.AuthCode

open Lib List Option

/-- What the flow reads of a parsed request target. -/
structure Url where
  pathname : String
  searchParams : List (String × String)

/-- `url.searchParams.get(name)`. -/
def Url.get (url : Url) (name : String) : Option String :=
  (url.searchParams.find? (·.1 = name)).map (·.2)

/-- What a login is started with, and what it has generated. -/
structure Login where
  state : String
  redirectPath : String
  redirectUri : String
  codeVerifier : Option String
  timeoutMs : Nat

/-- `OAuthError`. -/
structure OAuthError where
  code : String
  message : String
  description : Option String
deriving DecidableEq

/-- How the promise settles. -/
inductive Outcome where
  | resolved (code : String)
  | rejected (error : OAuthError)
deriving DecidableEq

def SUCCESS_HTML : String :=
  "<!doctype html><meta charset=utf-8><title>NexusCode</title>" ++
  "<body style=\"font-family:system-ui;padding:3rem;text-align:center\">" ++
  "<h2>Login complete</h2><p>You can close this window and return to your terminal.</p></body>"

def FAILURE_HTML : String :=
  "<!doctype html><meta charset=utf-8><title>NexusCode</title>" ++
  "<body style=\"font-family:system-ui;padding:3rem;text-align:center\">" ++
  "<h2>Login failed</h2><p>Return to your terminal to see what happened.</p></body>"

/-- What `respond` writes. -/
structure Response where
  status : Nat
  html : String

/-- What happens while the flow waits; a signal that is aborted from the beginning is an abort that
    comes first. -/
inductive Event where
  /-- `req.url` -/
  | request (url : Option String)
  | timeout
  | abort

/-- The flow waits, its promise has settled, or the process has ended with an exception. -/
inductive State where
  | waiting
  | settled (outcome : Outcome)
  | crashed
deriving DecidableEq

/-- What the code is exchanged with. -/
structure Exchange where
  code : String
  redirectUri : String
  codeVerifier : Option String
deriving DecidableEq

section

-- `parse target` is `new URL(target, "http://127.0.0.1")`; `none` if that throws
variable (parse : String → Option Url) (login : Login)

/-- `onRequest(req, res)`: the answer and, if the request settles the promise, how; `none` if the
    target cannot be parsed. -/
def onRequest (url : Option String) : Option (Response × Option Outcome) :=
  match parse (url.getD "/") with
  | none => none
  | some url =>
    if url.pathname ≠ login.redirectPath ∨ url.get "state" ≠ some login.state then
      some (⟨400, FAILURE_HTML⟩, none)
    else
      match truthy (url.get "error") with
      | some err =>
        some (⟨400, FAILURE_HTML⟩, some (.rejected
          ⟨err, "authorization endpoint returned \"" ++ err ++ "\"", url.get "error_description"⟩))
      | none =>
        match truthy (url.get "code") with
        | none => some (⟨400, FAILURE_HTML⟩, none)
        | some code => some (⟨200, SUCCESS_HTML⟩, some (.resolved code))

/-- `finish` for the timer. -/
def timedOut : Outcome :=
  .rejected ⟨"timeout", "login timed out after " ++ toString login.timeoutMs ++
    "ms with no redirect", none⟩

/-- `onAbort()`. -/
def cancelled : Outcome := .rejected ⟨"cancelled", "login cancelled", none⟩

/-- One event: the answer to a request, and the next state.  Once the promise has settled the
    listeners are removed. -/
def step : State → Event → Option Response × State
  | .waiting, .request url =>
    match onRequest parse login url with
    | none => (none, .crashed)
    | some (response, none) => (some response, .waiting)
    | some (response, some outcome) => (some response, .settled outcome)
  | .waiting, .timeout => (none, .settled (timedOut login))
  | .waiting, .abort => (none, .settled cancelled)
  | s, _ => (none, s)

/-- The server as a machine. -/
def machine : Machine State Event (Option Response) := ⟨step parse login⟩

/-- What `runAuthorizationCodeFlow` exchanges at the token endpoint. -/
def exchange : State → Option Exchange
  | .settled (.resolved code) => some ⟨code, login.redirectUri, login.codeVerifier⟩
  | _ => none

/-! ## The property -/

/-- The request is the redirect of this login, and carries a code or an error. -/
def Genuine (url : Url) : Prop :=
  url.pathname = login.redirectPath ∧ url.get "state" = some login.state ∧
    ((truthy (url.get "error")).isSome ∨ (truthy (url.get "code")).isSome)

/-- An event that may end the login. -/
def Ends : Event → Prop
  | .request url => ∃ parsed, parse (url.getD "/") = some parsed ∧ Genuine login parsed
  | .timeout => True
  | .abort => True

/-- What the flow is after the event that ended it. -/
def EndedBy (event : Event) (s : State) : Prop :=
  ∃ outcome, s = .settled outcome ∧
    ∀ x, exchange login s = some x → ∃ url parsed, event = .request url ∧
      parse (url.getD "/") = some parsed ∧ Genuine login parsed ∧ parsed.get "code" = some x.code

/-- **No stray request ends the login**: the flow waits as long as no event that may end it has
    occurred, and the first one that may does; a code that is exchanged is that of this request. -/
structure Unmoved (events : List Event) : Prop where
  waits : ∀ pre, pre <+: events → (∀ e ∈ pre, ¬ Ends parse login e) →
    (machine parse login).run .waiting pre = .waiting
  ends : ∀ pre e post, events = pre ++ e :: post → (∀ e ∈ pre, ¬ Ends parse login e) →
    Ends parse login e → EndedBy parse login e ((machine parse login).run .waiting events)

/-- **The condition**: up to the event that ends the login, all request targets can be parsed. -/
def Parsable (events : List Event) : Prop :=
  ∀ pre url post, events = pre ++ .request url :: post → (∀ e ∈ pre, ¬ Ends parse login e) →
    (parse (url.getD "/")).isSome

/-! ## One event -/

variable {parse login}

theorem onRequest_stray {url : Option String} {parsed : Url}
    (hparse : parse (url.getD "/") = some parsed) (h : ¬ Genuine login parsed) :
    onRequest parse login url = some (⟨400, FAILURE_HTML⟩, none) := by
  unfold onRequest
  rw [hparse]
  dsimp only
  split
  · rfl
  · rename_i hmatch
    obtain ⟨hpath, hstate⟩ := not_or.mp hmatch
    have hneither : ¬ ((truthy (parsed.get "error")).isSome ∨ (truthy (parsed.get "code")).isSome) :=
      fun hcarries => h ⟨not_not.mp hpath, not_not.mp hstate, hcarries⟩
    obtain ⟨herror, hcode⟩ := not_or.mp hneither
    rw [not_isSome_iff_eq_none.mp herror, not_isSome_iff_eq_none.mp hcode]

/-- The redirect settles the promise, with its own code if with any. -/
theorem onRequest_genuine {url : Option String} {parsed : Url}
    (hparse : parse (url.getD "/") = some parsed) (h : Genuine login parsed) :
    ∃ response outcome, onRequest parse login url = some (response, some outcome) ∧
      ∀ code, outcome = .resolved code → parsed.get "code" = some code := by
  obtain ⟨hpath, hstate, hcarries⟩ := h
  unfold onRequest
  rw [hparse]
  dsimp only
  rw [if_neg (not_or.mpr ⟨not_not.mpr hpath, not_not.mpr hstate⟩)]
  cases herror : truthy (parsed.get "error") with
  | some err => exact ⟨_, _, rfl, fun code hcode => nomatch hcode⟩
  | none =>
    rw [herror] at hcarries
    obtain ⟨code, hcode⟩ := isSome_iff_exists.mp (hcarries.resolve_left nofun)
    rw [hcode]
    refine ⟨_, _, rfl, fun code' hsame => ?_⟩
    obtain rfl := Outcome.resolved.inj hsame
    exact (filter_eq_some_iff.mp hcode).1

/-- An event that may not end the login leaves the flow waiting, exactly if its target, where it is a
    request, can be parsed. -/
theorem step_waits_iff {e : Event} (h : ¬ Ends parse login e) :
    (step parse login .waiting e).2 = .waiting ↔
      ∀ url, e = .request url → (parse (url.getD "/")).isSome := by
  cases e with
  | timeout => exact absurd trivial h
  | abort => exact absurd trivial h
  | request url =>
    cases hparse : parse (url.getD "/") with
    | none =>
      have hcrash : (step parse login .waiting (.request url)).2 = .crashed := by
        have hthrows : onRequest parse login url = none := by
          unfold onRequest
          rw [hparse]
        unfold step
        dsimp only
        rw [hthrows]
      rw [hcrash]
      refine iff_of_false nofun fun hall => ?_
      have hsome := hall url rfl
      rw [hparse] at hsome
      nomatch hsome
    | some parsed =>
      have hstray := onRequest_stray hparse fun hgenuine => h ⟨parsed, hparse, hgenuine⟩
      have hwaits : (step parse login .waiting (.request url)).2 = .waiting := by
        unfold step
        dsimp only
        rw [hstray]
      refine iff_of_true hwaits fun other hsame => ?_
      rw [← Event.request.inj hsame, hparse]
      rfl

theorem step_ends {e : Event} (h : Ends parse login e) :
    EndedBy parse login e (step parse login .waiting e).2 := by
  cases e with
  | timeout => exact ⟨_, rfl, fun x hx => nomatch hx⟩
  | abort => exact ⟨_, rfl, fun x hx => nomatch hx⟩
  | request url =>
    obtain ⟨parsed, hparse, hgenuine⟩ := h
    obtain ⟨response, outcome, hrequest, hcode⟩ := onRequest_genuine hparse hgenuine
    have hsettled : (step parse login .waiting (.request url)).2 = .settled outcome := by
      unfold step
      dsimp only
      rw [hrequest]
    refine ⟨outcome, hsettled, fun x hx => ⟨url, parsed, rfl, hparse, hgenuine, ?_⟩⟩
    rw [hsettled] at hx
    cases outcome with
    | rejected error => nomatch hx
    | resolved code =>
      obtain rfl := some.inj hx
      exact hcode code rfl

/-! ## Whole runs -/

theorem run_settled (outcome : Outcome) (events : List Event) :
    (machine parse login).run (.settled outcome) events = .settled outcome := by
  induction events with
  | nil => rfl
  | cons e events ih => exact ih

/-- As long as targets can be parsed, stray events leave the flow waiting. -/
theorem run_waits {pre post : List Event} (hparse : Parsable parse login (pre ++ post))
    (h : ∀ e ∈ pre, ¬ Ends parse login e) :
    (machine parse login).run .waiting pre = .waiting := by
  induction pre with
  | nil => rfl
  | cons e pre ih =>
    obtain ⟨he, hpre⟩ := forall_mem_cons.mp h
    have hstep : (step parse login .waiting e).2 = .waiting := by
      refine (step_waits_iff he).mpr fun url hurl => ?_
      exact hparse [] url (pre ++ post) (by rw [hurl]; rfl) fun e he => absurd he not_mem_nil
    show (machine parse login).run (step parse login .waiting e).2 pre = .waiting
    rw [hstep]
    refine ih (fun first url rest heq hfirst => ?_) hpre
    exact hparse (e :: first) url rest (by rw [cons_append, heq, cons_append])
      (forall_mem_cons.mpr ⟨he, hfirst⟩)

/-- **A login survives exactly the requests whose target can be parsed.** -/
theorem unmoved_iff {events : List Event} :
    Unmoved parse login events ↔ Parsable parse login events := by
  constructor
  · intro h pre url post heq hpre
    by_cases hends : Ends parse login (.request url)
    · obtain ⟨parsed, hparse, -⟩ := hends
      rw [hparse]
      rfl
    · have hbefore := h.waits pre ⟨_, heq.symm⟩ hpre
      have hafter := h.waits (pre ++ [.request url]) ⟨post, by rw [heq]; simp⟩ fun e he => by
        rcases mem_append.mp he with he | he
        · exact hpre e he
        · rwa [mem_singleton.mp he]
      rw [Machine.run_append, hbefore] at hafter
      exact (step_waits_iff hends).mp hafter url rfl
  · intro h
    refine ⟨fun pre hprefix hpre => ?_, fun pre e post heq hpre hends => ?_⟩
    · obtain ⟨post, rfl⟩ := hprefix
      exact run_waits h hpre
    · subst heq
      have hended := step_ends hends
      obtain ⟨outcome, hsettled, -⟩ := hended
      rw [Machine.run_append, run_waits h hpre]
      show EndedBy parse login e ((machine parse login).run (step parse login .waiting e).2 post)
      rw [hsettled, run_settled, ← hsettled]
      exact step_ends hends

end

/-! ## A request for two slashes -/

/-- The redirect of a login. -/
def redirect : String := "/callback?state=s3cr3t&code=4711"

/-- The parser, for the request targets below: an authority without a host is not accepted. -/
def runtimeParser (target : String) : Option Url :=
  if target = "//" then none
  else if target = redirect then some ⟨"/callback", [("state", "s3cr3t"), ("code", "4711")]⟩
  else some ⟨target, []⟩

def login : Login := ⟨"s3cr3t", "/callback", "http://127.0.0.1:4711/callback", none, 300000⟩

/-- **One request ends the process** before the redirect comes, which would have ended the login. -/
theorem crashed_by_slashes :
    (machine runtimeParser login).run .waiting [.request (some "//"), .request (some redirect)] =
        .crashed ∧
      exchange login ((machine runtimeParser login).run .waiting
        [.request (some "/favicon.ico"), .request (some redirect)]) =
        some ⟨"4711", "http://127.0.0.1:4711/callback", none⟩ ∧
      ¬ Unmoved runtimeParser login [.request (some "//"), .request (some redirect)] := by
  refine ⟨by decide, by decide, fun h => ?_⟩
  have hparse := unmoved_iff.mp h [] (some "//") [.request (some redirect)] rfl
    fun e he => absurd he not_mem_nil
  revert hparse
  decide

end NexusCode.Auth.AuthCode
