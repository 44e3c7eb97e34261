import Columbia.Gateway.RateLimit
import Columbia.Js.Utf8
import Columbia.Lib.Transition
import Mathlib.Data.List.Perm.Subperm
import Mathlib.Data.Rat.Defs

/-! # What leaves the gateway: `FilteredHttpRequestHandler` over an `http.Client`

The handler checks the target and pays for one request; the client then sends it, and follows redirects on its own. A
request leaves when the client hands it to its transport. Calls run side by side and share the limiter. Strings are
their bytes.
-/
namespace Columbia.Gateway.Handler
open Columbia.Js Columbia.Lib Columbia.Gateway.RateLimit
set_option autoImplicit false

def text (s : String) : Bytes := utf8Encode (str s)

structure Url where
  Scheme : Bytes
  Host : Bytes
  Path : Bytes
  deriving DecidableEq

/-- `URL.Parse` and `URL.IsAbs` of the standard library. -/
structure NetUrl where
  parse : Url → Bytes → Option Url
  isAbs : Bytes → Bool

/-- The part of an `http.Request` that decides where it goes. -/
structure Request where
  Method : Bytes
  URL : Url
  Host : Bytes
  deriving DecidableEq

structure Response where
  StatusCode : Nat
  Header : List (Bytes × Bytes)
  Body : Bytes
  deriving DecidableEq

def Response.get (resp : Response) (key : Bytes) : Bytes := (resp.Header.lookup key).getD []

inductive HandleError
  | GatewayTargetForbiddenError
  | sendFailed
  | badLocation
  | stoppedAfter10Redirects
  deriving DecidableEq

inductive Metric
  | fire (result : Bytes)
  | responseStatus (stage : Bytes) (status : Nat)
  deriving DecidableEq

def removeEmptyPort (host : Bytes) : Bytes := if host.getLast? = some 58 then host.dropLast else host

/-- Both decoders build the request with `http.NewRequest`, which takes the host from the URL. -/
def newRequest (method : Bytes) (url : Url) : Request :=
  let host := removeEmptyPort url.Host
  ⟨method, { url with Host := host }, host⟩

/-! ## `http.Client` with the default redirect policy -/

def redirectStatus (status : Nat) : Bool := status ∈ [301, 302, 303, 307, 308]

def redirectMethod (method : Bytes) (status : Nat) : Bytes :=
  if status ∈ [301, 302, 303] ∧ method ≠ text "GET" ∧ method ≠ text "HEAD" then text "GET" else method

inductive Hop
  | deliver (resp : Response)
  | fail (error : HandleError)
  | follow (req : Request)

/-- What the client does with an answer to the last of the requests it has made. -/
def nextHop (net : NetUrl) (reqs : List Request) (req : Request) (resp : Response) : Hop :=
  let loc := resp.get (text "Location")
  if redirectStatus resp.StatusCode = false ∨ loc = [] then .deliver resp
  else
    match net.parse req.URL loc with
    | none => .fail .badLocation
    | some url =>
      if 10 ≤ reqs.length then .fail .stoppedAfter10Redirects
      else
        -- a relative location keeps a host that is not the URL's
        let host := if req.Host ≠ req.URL.Host ∧ net.isAbs loc = false then req.Host else []
        .follow ⟨redirectMethod req.Method resp.StatusCode, url, host⟩

/-- The transport sends a request to no other URL. -/
def supported (url : Url) : Bool := (url.Scheme = text "http" ∨ url.Scheme = text "https") ∧ url.Host ≠ []

/-! ## `FilteredHttpRequestHandler` -/

structure TargetRewrite where
  Scheme : Bytes
  Host : Bytes

structure FilteredHttpRequestHandler where
  allowedOrigins : Option (List Bytes)
  targetRewrites : Option (Bytes → Option TargetRewrite)

def FilteredHttpRequestHandler.forbids (h : FilteredHttpRequestHandler) (req : Request) : Bool :=
  match h.allowedOrigins with
  | none => false
  | some origins => req.Host ∉ origins

def FilteredHttpRequestHandler.rewrite (h : FilteredHttpRequestHandler) (req : Request) : Request :=
  match h.targetRewrites with
  | none => req
  | some rewrites =>
    match rewrites req.URL.Host with
    | none => req
    | some newTarget => { req with URL := { req.URL with Scheme := newTarget.Scheme, Host := newTarget.Host } }

def tooManyRequests (retryAfter : Int) : Response where
  StatusCode := 429
  Header := [(text "Retry-After", text (toString retryAfter)), (text "Content-Type", text "text/plain; charset=utf-8")]
  Body := text "rate limited\n"

/-- `reqs` are the requests the client has made so far. -/
inductive Call
  | idle
  | sending (req : Request) (reqs : List Request)
  | waiting (req : Request) (reqs : List Request)
  | done (result : Except HandleError Response) (metrics : List Metric)

structure Outgoing where
  call : Nat
  request : Request

/-- `paid` lists the calls whose `allow` returned true. -/
structure Egress (K : Type) where
  limiter : Option (GlobalRateLimiter K)
  paid : List Nat
  outgoing : List Outgoing

inductive Action
  | handle (method : Bytes) (url : Url) (now : Int)
  | roundTrip
  | fails
  | answers (resp : Response)

def failed (error : HandleError) : Call := .done (.error error) [.fire (text "request_failed")]

section
variable {K : Type} [Add K] [Sub K] [Mul K] [Div K] [LE K] [LT K] [DecidableLE K] [DecidableLT K] [IntCast K]
variable (net : NetUrl) (toInt : K → Int) (h : FilteredHttpRequestHandler)

/-- `Handle` up to the call of the client. -/
def handle (s : Egress K) (i : Nat) (req : Request) (now : Int) : Egress K × Call :=
  if h.forbids req then (s, .done (.error .GatewayTargetForbiddenError) [.fire (text "request_forbidden")])
  else
    match allow s.limiter now with
    | (false, limiter) =>
      ({ s with limiter := limiter },
        .done (.ok (tooManyRequests (retryAfterSeconds toInt limiter))) [.fire (text "rate_limited")])
    | (true, limiter) => ({ s with limiter := limiter, paid := s.paid ++ [i] }, .sending (h.rewrite req) [])

def answered (req : Request) (reqs : List Request) (resp : Response) : Call :=
  match nextHop net reqs req resp with
  | .deliver resp =>
    .done (.ok resp) [.responseStatus (text "upstream") resp.StatusCode, .fire (text "success")]
  | .fail error => failed error
  | .follow next => .sending next reqs

def act (i : Nat) (action : Action) (s : Egress K) (call : Call) : Option (Egress K × Call) :=
  match action, call with
  | .handle method url now, .idle => some (handle toInt h s i (newRequest method url) now)
  | .roundTrip, .sending req reqs =>
    if supported req.URL then some ({ s with outgoing := s.outgoing ++ [⟨i, req⟩] }, .waiting req (reqs ++ [req]))
    else none
  | .fails, .sending _ _ => some (s, failed .sendFailed)
  | .fails, .waiting _ _ => some (s, failed .sendFailed)
  | .answers resp, .waiting req reqs => some (s, answered net req reqs resp)
  | _, _ => none

/-- The process that `main` starts with this limit. -/
def gateway (qpm now : Int) : Calls (Egress K) Call Action Empty where
  start := ⟨newGlobalRateLimiter qpm now, [], []⟩
  idle := .idle
  act := act net toInt h
  env := nofun

end

/-! ## Budget and allowlist -/

section
variable {K : Type} (net : NetUrl) (h : FilteredHttpRequestHandler)

/-- An allowlisted host, or the configured rewrite of one. -/
def Granted (origins : List Bytes) (h : FilteredHttpRequestHandler) (host : Bytes) : Prop :=
  host ∈ origins ∨ ∃ origin ∈ origins, ∃ rewrites target, h.targetRewrites = some rewrites ∧
    rewrites origin = some target ∧ host = target.Host

/-- What leaves goes where it may, and each request is matched by a successful `allow` of its own call. -/
structure WithinBudget (origins : List Bytes) (h : FilteredHttpRequestHandler) (s : Egress K) : Prop where
  hosts : ∀ out ∈ s.outgoing, Granted origins h out.request.URL.Host
  paid : (s.outgoing.map Outgoing.call).Subperm s.paid

/-- The answer is a redirect with a location that can be followed. -/
def Redirects (req : Request) (resp : Response) : Prop :=
  redirectStatus resp.StatusCode = true ∧ resp.get (text "Location") ≠ [] ∧
    ∃ url, net.parse req.URL (resp.get (text "Location")) = some url ∧ supported url = true

/-- No request is answered by a redirect. -/
def NoRedirect (p : Pool (Egress K) Call) : Calls.Label Action Empty → Prop
  | .act i (.answers resp) => ∀ req reqs, p.calls i = .waiting req reqs → ¬Redirects net req resp
  | _ => True

def sent (s : Egress K) (i : Nat) : Nat := (s.outgoing.map Outgoing.call).count i

/-- Without redirects a call sends the request it has paid for, once; the client may still try to follow one to a URL
to which nothing can be sent. -/
def CallInv (origins : List Bytes) (i : Nat) (s : Egress K) : Call → Prop
  | .idle => sent s i = 0 ∧ s.paid.count i = 0
  | .sending req reqs => sent s i ≤ s.paid.count i ∧ (supported req.URL = true →
      Granted origins h req.URL.Host ∧ reqs = [] ∧ sent s i = 0 ∧ s.paid.count i = 1)
  | .waiting req reqs => reqs = [req] ∧ sent s i = 1 ∧ s.paid.count i = 1
  | .done _ _ => sent s i ≤ s.paid.count i

variable {net h}

theorem granted_rewrite {origins : List Bytes} (hOrigins : h.allowedOrigins = some origins) {method : Bytes} {url : Url}
    (hAllowed : h.forbids (newRequest method url) = false) :
    Granted origins h (h.rewrite (newRequest method url)).URL.Host := by
  have hHost : (newRequest method url).URL.Host ∈ origins := by
    change (newRequest method url).Host ∈ origins
    simpa [FilteredHttpRequestHandler.forbids, hOrigins] using hAllowed
  unfold FilteredHttpRequestHandler.rewrite
  split
  · exact .inl hHost
  rename_i rewrites hRewrites
  split
  · exact .inl hHost
  · rename_i target hTarget
    exact .inr ⟨_, hHost, rewrites, target, hRewrites, hTarget, rfl⟩

theorem nextHop_of_not_redirects {reqs : List Request} {req : Request} {resp : Response}
    (hStay : ¬Redirects net req resp) {next : Request} (hFollow : nextHop net reqs req resp = .follow next) :
    supported next.URL = false := by
  unfold nextHop at hFollow
  simp only at hFollow
  split at hFollow
  · cases hFollow
  rename_i hRedirect
  split at hFollow
  · cases hFollow
  rename_i url hUrl
  simp only [not_or, Bool.not_eq_false] at hRedirect
  split at hFollow
  · cases hFollow
  · cases hFollow
    by_contra hSupported
    exact hStay ⟨hRedirect.1, hRedirect.2, url, hUrl, by simpa using hSupported⟩

theorem nextHop_of_redirects (reqs : List Request) {req : Request} {resp : Response} (hShort : reqs.length < 10)
    (hRedirect : Redirects net req resp) :
    ∃ next, nextHop net reqs req resp = .follow next ∧ supported next.URL = true := by
  obtain ⟨hStatus, hLocation, url, hUrl, hSupported⟩ := hRedirect
  refine ⟨⟨redirectMethod req.Method resp.StatusCode, url,
    if req.Host ≠ req.URL.Host ∧ net.isAbs (resp.get (text "Location")) = false then req.Host else []⟩, ?_, hSupported⟩
  simp only [nextHop]
  rw [if_neg (by simp [hStatus, hLocation]), hUrl]
  simp only
  rw [if_neg (by omega)]

theorem answered_of_not_redirects {req : Request} (reqs : List Request) {resp : Response}
    (hStay : ¬Redirects net req resp) : (∃ result metrics, answered net req reqs resp = .done result metrics) ∨
      ∃ next, answered net req reqs resp = .sending next reqs ∧ supported next.URL = false := by
  unfold answered
  split
  · exact .inl ⟨_, _, rfl⟩
  · exact .inl ⟨_, _, rfl⟩
  · rename_i next hFollow
    exact .inr ⟨next, rfl, nextHop_of_not_redirects hStay hFollow⟩

/-- What a step of call `i` does to the calls that have paid and to what has left. -/
inductive Step (net : NetUrl) (h : FilteredHttpRequestHandler) (i : Nat) (action : Action) (s t : Egress K) :
    Call → Call → Prop
  | turnedAway (result : Except HandleError Response) (metrics : List Metric) (hPaid : t.paid = s.paid)
      (hOutgoing : t.outgoing = s.outgoing) : Step net h i action s t .idle (.done result metrics)
  | admitted (method : Bytes) (url : Url) (hAllowed : h.forbids (newRequest method url) = false)
      (hPaid : t.paid = s.paid ++ [i]) (hOutgoing : t.outgoing = s.outgoing) :
      Step net h i action s t .idle (.sending (h.rewrite (newRequest method url)) [])
  | leaves (req : Request) (reqs : List Request) (hSupported : supported req.URL = true) (hPaid : t.paid = s.paid)
      (hOutgoing : t.outgoing = s.outgoing ++ [⟨i, req⟩]) :
      Step net h i action s t (.sending req reqs) (.waiting req (reqs ++ [req]))
  | lost (req : Request) (reqs : List Request) (call : Call)
      (hCall : call = .sending req reqs ∨ call = .waiting req reqs) (hSame : t = s) :
      Step net h i action s t call (failed .sendFailed)
  | answered (req : Request) (reqs : List Request) (resp : Response) (hAction : action = .answers resp)
      (hSame : t = s) :
      Step net h i action s t (.waiting req reqs) (answered net req reqs resp)

theorem sent_snoc (s t : Egress K) (i j : Nat) (req : Request) (hOutgoing : t.outgoing = s.outgoing ++ [⟨i, req⟩]) :
    sent t j = sent s j + if i = j then 1 else 0 := by
  simp [sent, hOutgoing, List.count_singleton]

theorem sent_congr {s t : Egress K} (hOutgoing : t.outgoing = s.outgoing) (i : Nat) : sent t i = sent s i := by
  rw [sent, hOutgoing, sent]

theorem callInv_own {origins : List Bytes} (hOrigins : h.allowedOrigins = some origins) {i : Nat} {action : Action}
    {s t : Egress K} {call call' : Call} (hStep : Step net h i action s t call call')
    (hStay : ∀ resp req reqs, action = .answers resp → call = .waiting req reqs → ¬Redirects net req resp)
    (hCall : CallInv h origins i s call) : CallInv h origins i t call' := by
  cases hStep with
  | turnedAway result metrics hPaid hOutgoing =>
    obtain ⟨hSent, -⟩ := hCall
    simp only [CallInv]
    rw [sent_congr hOutgoing, hSent]
    exact Nat.zero_le _
  | admitted method url hAllowed hPaid hOutgoing =>
    obtain ⟨hSent, hUnpaid⟩ := hCall
    have hNone : sent t i = 0 := by rw [sent_congr hOutgoing, hSent]
    have hOnce : t.paid.count i = 1 := by rw [hPaid, List.count_append, hUnpaid, List.count_singleton_self]
    exact ⟨by omega, fun _ => ⟨granted_rewrite hOrigins hAllowed, rfl, hNone, hOnce⟩⟩
  | leaves req reqs hSupported hPaid hOutgoing =>
    obtain ⟨-, rfl, hSent, hOnce⟩ := hCall.2 hSupported
    refine ⟨rfl, ?_, hPaid ▸ hOnce⟩
    rw [sent_snoc s t i i req hOutgoing, hSent, if_pos rfl]
  | lost req reqs _ hWas hSame =>
    subst hSame
    rcases hWas with rfl | rfl
    · exact hCall.1
    · obtain ⟨-, hSent, hOnce⟩ := hCall
      simp only [failed, CallInv]
      omega
  | answered req reqs resp hAction hSame =>
    subst hSame
    obtain ⟨-, hSent, hOnce⟩ := hCall
    have hPaid : sent t i ≤ t.paid.count i := by omega
    rcases answered_of_not_redirects reqs (hStay resp req reqs hAction rfl) with
      ⟨result, metrics, hDone⟩ | ⟨next, hNext, hNowhere⟩
    · rw [hDone]
      exact hPaid
    · rw [hNext]
      exact ⟨hPaid, fun hSupported => absurd hSupported (by rw [hNowhere]; decide)⟩

theorem callInv_other {origins : List Bytes} {i j : Nat} {action : Action} {s t : Egress K} {call call' other : Call}
    (hStep : Step net h i action s t call call') (hji : j ≠ i) (hCall : CallInv h origins j s other) :
    CallInv h origins j t other := by
  have hCounts : sent t j = sent s j ∧ t.paid.count j = s.paid.count j := by
    cases hStep with
    | turnedAway result metrics hPaid hOutgoing => exact ⟨sent_congr hOutgoing j, by rw [hPaid]⟩
    | admitted method url hAllowed hPaid hOutgoing =>
      refine ⟨sent_congr hOutgoing j, ?_⟩
      rw [hPaid, List.count_append, List.count_singleton]
      simp [hji.symm]
    | leaves req reqs hSupported hPaid hOutgoing =>
      refine ⟨?_, by rw [hPaid]⟩
      rw [sent_snoc s t i j req hOutgoing, if_neg hji.symm, Nat.add_zero]
    | lost _ _ _ _ hSame => rw [hSame]; exact ⟨rfl, rfl⟩
    | answered _ _ _ _ hSame => rw [hSame]; exact ⟨rfl, rfl⟩
  cases other <;> simp only [CallInv, hCounts.1, hCounts.2] <;> exact hCall

theorem granted_step {origins : List Bytes} {i : Nat} {action : Action} {s t : Egress K} {call call' : Call}
    (hStep : Step net h i action s t call call') (hCall : CallInv h origins i s call)
    (hHosts : ∀ out ∈ s.outgoing, Granted origins h out.request.URL.Host) :
    ∀ out ∈ t.outgoing, Granted origins h out.request.URL.Host := by
  cases hStep with
  | turnedAway result metrics hPaid hOutgoing => rwa [hOutgoing]
  | admitted method url hAllowed hPaid hOutgoing => rwa [hOutgoing]
  | leaves req reqs hSupported hPaid hOutgoing =>
    rw [hOutgoing]
    intro out hOut
    rcases List.mem_append.mp hOut with hOld | hNew
    · exact hHosts out hOld
    · rw [List.mem_singleton.mp hNew]
      exact (hCall.2 hSupported).1
  | lost _ _ _ _ hSame => rwa [hSame]
  | answered _ _ _ _ hSame => rwa [hSame]

theorem withinBudget_of_callInv {origins : List Bytes} {p : Pool (Egress K) Call}
    (hHosts : ∀ out ∈ p.shared.outgoing, Granted origins h out.request.URL.Host)
    (hCalls : ∀ i, CallInv h origins i p.shared (p.calls i)) : WithinBudget origins h p.shared := by
  refine ⟨hHosts, List.subperm_ext_iff.mpr fun i _ => ?_⟩
  have hCall := hCalls i
  change sent p.shared i ≤ p.shared.paid.count i
  cases hLocal : p.calls i with
  | idle =>
    rw [hLocal] at hCall
    exact hCall.1.trans_le (Nat.zero_le _)
  | sending req reqs =>
    rw [hLocal] at hCall
    exact hCall.1
  | waiting req reqs =>
    rw [hLocal] at hCall
    exact (hCall.2.1.trans hCall.2.2.symm).le
  | done result metrics =>
    rw [hLocal] at hCall
    exact hCall

end

section
variable {K : Type} [Add K] [Sub K] [Mul K] [Div K] [LE K] [LT K] [DecidableLE K] [DecidableLT K] [IntCast K]
variable {net : NetUrl} {toInt : K → Int} {h : FilteredHttpRequestHandler}

theorem act_step {i : Nat} {action : Action} {s t : Egress K} {call call' : Call}
    (hAct : act net toInt h i action s call = some (t, call')) : Step net h i action s t call call' := by
  unfold act at hAct
  split at hAct
  · rename_i method url now
    obtain hHandle := Option.some.inj hAct
    unfold handle at hHandle
    split at hHandle
    · cases hHandle
      exact .turnedAway _ _ rfl rfl
    rename_i hAllowed
    split at hHandle
    · cases hHandle
      exact .turnedAway _ _ rfl rfl
    · cases hHandle
      exact .admitted method url (by simpa using hAllowed) rfl rfl
  · split at hAct <;> cases hAct
    exact .leaves _ _ ‹_› rfl rfl
  · cases hAct
    exact .lost _ _ _ (.inl rfl) rfl
  · cases hAct
    exact .lost _ _ _ (.inr rfl) rfl
  · cases hAct
    exact .answered _ _ _ rfl rfl
  · cases hAct

theorem gateway_invariant {origins : List Bytes} (hOrigins : h.allowedOrigins = some origins) {qpm now : Int}
    {p : Pool (Egress K) Call} (hp : (gateway net toInt h qpm now).system.ReachedBy (NoRedirect net) p) :
    (∀ out ∈ p.shared.outgoing, Granted origins h out.request.URL.Host) ∧
      ∀ i, CallInv h origins i p.shared (p.calls i) := by
  have hIdle : ∀ i, CallInv h origins i (gateway net toInt h qpm now).start .idle := fun i => ⟨rfl, rfl⟩
  refine Calls.invariant (fun s : Egress K => ∀ out ∈ s.outgoing, Granted origins h out.request.URL.Host)
    (fun i s call => CallInv h origins i s call) (fun out hOut => ?_) hIdle ?_ ?_ nofun hp
  · cases hOut
  · intro p i action shared call hStay hHosts hCall hAct
    have hStep := act_step hAct
    refine ⟨granted_step hStep hCall hHosts, callInv_own hOrigins hStep ?_ hCall⟩
    intro resp req reqs hAction hWaiting
    subst hAction
    exact hStay req reqs hWaiting
  · intro p i j action shared call hStay hji hHosts hCall hOther hAct
    exact callInv_other (act_step hAct) hji hOther

/-- A redirect makes the client send a second request for what was paid once. -/
theorem redirect_breaks_budget {origins : List Bytes} {qpm now : Int} {p : Pool (Egress K) Call} {i : Nat}
    {req : Request} {reqs : List Request} {resp : Response} (hWaiting : p.calls i = .waiting req reqs)
    (hCall : CallInv h origins i p.shared (.waiting req reqs)) (hRedirect : Redirects net req resp) :
    ∃ q, (gateway net toInt h qpm now).system.run p [.act i (.answers resp), .act i .roundTrip] = some q ∧
      ¬WithinBudget origins h q.shared := by
  obtain ⟨rfl, hSent, hOnce⟩ := hCall
  obtain ⟨next, hNext, hSupported⟩ := nextHop_of_redirects [req] (by simp) hRedirect
  have hFollow : (gateway net toInt h qpm now).act i (.answers resp) p.shared (p.calls i) =
      some (p.shared, .sending next [req]) := by
    rw [hWaiting]
    change some (p.shared, answered net req [req] resp) = _
    rw [answered, hNext]
  rw [Calls.run_act hFollow]
  have hLeave : (gateway net toInt h qpm now).act i .roundTrip p.shared
      (Function.update p.calls i (.sending next [req]) i) =
      some ({ p.shared with outgoing := p.shared.outgoing ++ [⟨i, next⟩] }, .waiting next [req, next]) := by
    rw [Function.update_self]
    exact if_pos hSupported
  rw [Calls.run_act hLeave]
  refine ⟨_, rfl, fun hBudget => ?_⟩
  have hTwice := hBudget.paid.count_le i
  have hCount := sent_snoc p.shared { p.shared with outgoing := p.shared.outgoing ++ [⟨i, next⟩] } i i next rfl
  rw [hSent, if_pos rfl] at hCount
  change sent { p.shared with outgoing := p.shared.outgoing ++ [⟨i, next⟩] } i ≤ p.shared.paid.count i at hTwice
  omega

/-- As long as no target answers with a redirect, every request that leaves goes to a granted host and is paid for; the
first redirect that is followed breaks this. -/
theorem outbound_paid_until_redirect {origins : List Bytes} (hOrigins : h.allowedOrigins = some origins) {qpm now : Int}
    {p : Pool (Egress K) Call} (hp : (gateway net toInt h qpm now).system.ReachedBy (NoRedirect net) p) :
    WithinBudget origins h p.shared ∧ p.shared.outgoing.length ≤ p.shared.paid.length ∧
    ∀ i req reqs resp, p.calls i = .waiting req reqs → Redirects net req resp →
      ∃ q, (gateway net toInt h qpm now).system.run p [.act i (.answers resp), .act i .roundTrip] = some q ∧
        ¬WithinBudget origins h q.shared := by
  obtain ⟨hHosts, hCalls⟩ := gateway_invariant hOrigins hp
  have hBudget := withinBudget_of_callInv hHosts hCalls
  refine ⟨hBudget, ?_, fun i req reqs resp hWaiting hRedirect => ?_⟩
  · have hLength := hBudget.paid.length_le
    rwa [List.length_map] at hLength
  · exact redirect_breaks_budget hWaiting (hWaiting ▸ hCalls i) hRedirect

end

def testOrigins : List Bytes := [text "api.example"]

def testHandler : FilteredHttpRequestHandler := ⟨some testOrigins, none⟩

def elsewhere : Url := ⟨text "https", text "elsewhere.example", text "/"⟩

/-- `URL.Parse` at the one location of the runs below. -/
def testNet : NetUrl where
  parse _ loc := if loc = text "https://elsewhere.example/" then some elsewhere else none
  isAbs loc := loc = text "https://elsewhere.example/"

def testGateway : Calls (Egress ℚ) Call Action Empty := gateway testNet truncate testHandler 60 0

/-- One request to the allowlisted host, which is answered. -/
def fetched : List (Calls.Label Action Empty) :=
  [.act 0 (.handle (text "GET") ⟨text "https", text "api.example", text "/feed"⟩ 0), .act 0 .roundTrip,
   .act 0 (.answers ⟨200, [], [1]⟩)]

/-- The same request, answered by a redirect to another host. -/
def redirected : List (Calls.Label Action Empty) :=
  [.act 0 (.handle (text "GET") ⟨text "https", text "api.example", text "/feed"⟩ 0), .act 0 .roundTrip,
   .act 0 (.answers ⟨302, [(text "Location", text "https://elsewhere.example/")], []⟩), .act 0 .roundTrip]

theorem outbound_paid_until_redirect_fetched :
    (testGateway.system.after fetched).shared.outgoing.map (·.request.URL.Host) = [text "api.example"] ∧
    WithinBudget testOrigins testHandler (testGateway.system.after fetched).shared := by
  have hReached : testGateway.system.ReachedBy (NoRedirect testNet) (testGateway.system.after fetched) := by
    apply System.reachedBy_after
    intro label hLabel p
    simp only [fetched, List.mem_cons, List.not_mem_nil, or_false] at hLabel
    rcases hLabel with rfl | rfl | rfl
    · trivial
    · trivial
    · intro req reqs _ hRedirect
      exact absurd hRedirect.1 (by decide)
  exact ⟨by decide +kernel, (outbound_paid_until_redirect rfl hReached).1⟩

/-- A second request leaves, unpaid, for a host that is not on the list. -/
theorem redirect_leaves_unpaid :
    (testGateway.system.after redirected).shared.outgoing.map (·.request.URL.Host) =
      [text "api.example", text "elsewhere.example"] ∧
    (testGateway.system.after redirected).shared.paid = [0] ∧
    ¬∀ p, testGateway.system.Reachable p → WithinBudget testOrigins testHandler p.shared := by
  have hPaid : (testGateway.system.after redirected).shared.paid = [0] := by decide +kernel
  have hCalls : (testGateway.system.after redirected).shared.outgoing.map Outgoing.call = [0, 0] := by decide +kernel
  refine ⟨by decide +kernel, hPaid, fun hAlways => ?_⟩
  have hBudget := hAlways _ (System.reachable_after testGateway.system redirected)
  have hLength := hBudget.paid.length_le
  rw [hPaid, hCalls] at hLength
  exact absurd hLength (by decide)

end Columbia.Gateway.Handler
