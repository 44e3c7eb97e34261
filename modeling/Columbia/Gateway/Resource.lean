import Columbia.Gateway.AppHandler
import Columbia.Gateway.Ohttp

/-! # The gateway's HTTP endpoints

A request to the gateway is read, handed to the handler of its path, and answered: with the encapsulated response, or
with an error in the clear. Each request counts its results once, and last of all the status it was answered with.
-/
namespace Columbia.Gateway.Resource
open Columbia.Js Columbia.Lib Columbia.Gateway.Varint Columbia.Gateway.Handler Columbia.Gateway.Bhttp
open Columbia.Gateway.Hpke Columbia.Gateway.Ohttp Columbia.Gateway.AppHandler
set_option autoImplicit false

structure ServerRequest where
  Method : Bytes
  Path : Bytes
  Header : HttpHeader
  Body : Except Bytes Bytes

structure Reply where
  status : Nat
  header : List (Bytes × Bytes)
  body : Bytes
  deriving DecidableEq

inductive AppContentHandler
  | EchoAppHandler
  | ProtoHTTPAppHandler (proto : Proto) (httpHandler : FilteredHttpRequestHandler)
  | BinaryHTTPAppHandler (httpHandler : FilteredHttpRequestHandler)

inductive EncapsulationHandler
  | DefaultEncapsulationHandler (appHandler : AppContentHandler)
  | MetadataEncapsulationHandler

inductive HandlerError
  | ConfigMismatchError
  | EncapsulationError
  | GatewayInternalServerError
  | appHandler (e : Failure)

def encapsulationErrorToGatewayStatusCode : HandlerError → Nat
  | .ConfigMismatchError => 401
  | .EncapsulationError => 400
  | _ => 400

/-- What a request meets outside the process: the target, and the randomness of its response. -/
structure World (SK PK : Type) where
  go : Go
  primitives : Primitives SK PK
  upstream : Upstream
  random : Nat → Except Failure Bytes
  random_length : ∀ n b, random n = .ok b → b.length = n
  dumpRequest : ServerRequest → Except Failure Bytes

def metricsResultConfigurationMismatch : Bytes := text "config_mismatch"
def metricsResultDecapsulationFailed : Bytes := text "decapsulation_failed"
def metricsResultEncapsulationFailed : Bytes := text "encapsulation_failed"
def metricsResultConfigsUnavalable : Bytes := text "configs_unavailable"
def metricsResultInvalidMethod : Bytes := text "invalid_method"
def metricsResultInvalidContentType : Bytes := text "invalid_content_type"
def metricsResultInvalidContent : Bytes := text "invalid_content"

section
variable {SK PK : Type} (w : World SK PK)

/-! ## Encapsulation handlers -/

def AppContentHandler.Handle (appHandler : AppContentHandler) (binaryRequest : Bytes) : Metered Failure Bytes :=
  match appHandler with
  | .EchoAppHandler => echoHandle binaryRequest
  | .ProtoHTTPAppHandler proto h => protoHandle w.go proto (filteredHandle h w.upstream) binaryRequest
  | .BinaryHTTPAppHandler h => binaryHandle w.go (filteredHandle h w.upstream) binaryRequest

/-- The outcome of a handler, unless it panics, with its metrics. -/
def outcome (x : Metered Failure Bytes) : Metered Failure (Except Failure Bytes) :=
  ⟨x.log, (returned x.result).result⟩

def encapsulateResponse (context : RequestContext) (response : Bytes) : Except Failure Bytes := do
  let responseNonce ← w.random (responseNonceLen context.suite)
  context.EncapsulateResponse w.primitives response responseNonce

/-- `DefaultEncapsulationHandler.Handle`. -/
def defaultHandle (gateway : OhttpGateway SK) (appHandler : AppContentHandler) (encapsulatedReq : EncapsulatedRequest) :
    Metered Failure (Except HandlerError Bytes) := do
  if gateway.MatchesConfig encapsulatedReq = false then
    Fire metricsResultConfigurationMismatch
    return .error .ConfigMismatchError
  match ← returned (gateway.DecapsulateRequest w.primitives encapsulatedReq) with
  | .error _ =>
    Fire metricsResultDecapsulationFailed
    return .error .EncapsulationError
  | .ok (binaryRequest, context) =>
    match ← outcome (appHandler.Handle w binaryRequest) with
    | .error e => return .error (.appHandler e)
    | .ok binaryResponse =>
      match ← returned (encapsulateResponse w context binaryResponse) with
      | .error _ =>
        Fire metricsResultEncapsulationFailed
        return .error .EncapsulationError
      | .ok encapsulatedResponse => return .ok encapsulatedResponse

/-- `MetadataEncapsulationHandler.Handle`. -/
def metadataHandle (gateway : OhttpGateway SK) (outerRequest : ServerRequest) (encapsulatedReq : EncapsulatedRequest) :
    Metered Failure (Except HandlerError Bytes) := do
  if gateway.MatchesConfig encapsulatedReq = false then
    Fire metricsResultConfigurationMismatch
    return .error .ConfigMismatchError
  match ← returned (gateway.DecapsulateRequest w.primitives encapsulatedReq) with
  | .error _ =>
    Fire metricsResultDecapsulationFailed
    return .error .EncapsulationError
  | .ok (_, context) =>
    match ← returned (w.dumpRequest outerRequest) with
    | .error _ => return .error .GatewayInternalServerError
    | .ok binaryResponse =>
      match ← returned (encapsulateResponse w context binaryResponse) with
      | .error _ =>
        Fire metricsResultEncapsulationFailed
        return .error .EncapsulationError
      | .ok encapsulatedResponse =>
        Fire metricsResultSuccess
        return .ok encapsulatedResponse

def EncapsulationHandler.Handle (gateway : OhttpGateway SK) (h : EncapsulationHandler) (outerRequest : ServerRequest)
    (encapsulatedReq : EncapsulatedRequest) : Metered Failure (Except HandlerError Bytes) :=
  match h with
  | .DefaultEncapsulationHandler appHandler => defaultHandle w gateway appHandler encapsulatedReq
  | .MetadataEncapsulationHandler => metadataHandle w gateway outerRequest encapsulatedReq

/-! ## `gatewayResource` -/

structure GatewayResource (SK : Type) where
  legacyKeyID : UInt8
  gateway : OhttpGateway SK
  encapsulationHandlers : OrderedMap Bytes EncapsulationHandler
  debugResponse : Bool

/-- `http.StatusText`, of the statuses that are used here. -/
def StatusText (status : Nat) : Bytes :=
  if status = 400 then text "Bad Request" else if status = 401 then text "Unauthorized" else text "Internal Server Error"

/-- `http.Error`. -/
def httpErrorReply (message : Bytes) (status : Nat) : Reply :=
  ⟨status, [(text "Content-Type", text "text/plain; charset=utf-8"), (text "X-Content-Type-Options", text "nosniff")],
    message ++ [10]⟩

variable (s : GatewayResource SK)

def httpError (status : Nat) (debugMessage : Bytes) (metricsPrefix : Bytes) : Metered Failure Reply := do
  let reply := httpErrorReply (if s.debugResponse then debugMessage else StatusText status) status
  ResponseStatus metricsPrefix status
  return reply

def ohttpRequestContentType : Bytes := text "message/ohttp-req"
def ohttpResponseContentType : Bytes := text "message/ohttp-res"

def gatewayHandler (r : ServerRequest) : Metered Failure Reply := do
  if r.Method ≠ text "POST" then
    Fire metricsResultInvalidMethod
    httpError s 400 (text "Invalid method: " ++ r.Method) r.Method
  else if r.Header.Get (text "Content-Type") ≠ ohttpRequestContentType then
    Fire metricsResultInvalidContentType
    httpError s 400 (text "Invalid content type: " ++ r.Header.Get (text "Content-Type")) r.Method
  else
    match s.encapsulationHandlers.get? r.Path with
    | none => httpError s 400 (text "Unknown handler") r.Method
    | some encapHandler =>
      match r.Body with
      | .error _ =>
        Fire metricsResultInvalidContent
        httpError s 400 (text "Reading request body failed") r.Method
      | .ok encryptedMessageBytes =>
        match ← returned (UnmarshalEncapsulatedRequest encryptedMessageBytes) with
        | .error _ =>
          Fire metricsResultInvalidContent
          httpError s 400 (text "Reading request body failed") r.Method
        | .ok encapsulatedReq =>
          match ← encapHandler.Handle w s.gateway r encapsulatedReq with
          | .error err =>
            let errorCode := encapsulationErrorToGatewayStatusCode err
            httpError s errorCode (StatusText errorCode) r.Method
          | .ok packedResponse =>
            ResponseStatus r.Method 200
            return ⟨200, [(text "Content-Type", ohttpResponseContentType), (text "Connection", text "Keep-Alive")],
              packedResponse⟩

def cacheControl (maxAge : Nat) : Bytes × Bytes :=
  (text "Cache-Control", text "max-age=" ++ text (toString maxAge) ++ text ", private")

/-- The expiry is random. -/
def legacyConfigHandler (maxAge : Nat) (r : ServerRequest) : Metered Failure Reply := do
  match s.gateway.Config s.legacyKeyID with
  | .error _ =>
    Fire metricsResultConfigsUnavalable
    httpError s 500 (text "Config unavailable") r.Method
  | .ok config =>
    let body ← .quiet config.Marshal
    ResponseStatus r.Method 200
    return ⟨200, [cacheControl maxAge], body⟩

def configHandler (maxAge : Nat) (r : ServerRequest) : Metered Failure Reply := do
  let body ← .quiet s.gateway.MarshalConfigs
  ResponseStatus r.Method 200
  return ⟨200, [cacheControl maxAge, (text "Content-Type", text "application/ohttp-keys")], body⟩

/-- `requireRelaySecret`. -/
def requireRelaySecret (sha256 : Bytes → Digest) (secret : Bytes) (next : ServerRequest → Metered Failure Reply)
    (r : ServerRequest) : Metered Failure Reply :=
  if secret ≠ [] ∧ sha256 (r.Header.Get (text "X-Columbia-Relay-Auth")) ≠ sha256 secret then
    pure (httpErrorReply (StatusText 401) 401)
  else next r

end

/-! ## Metrics -/

def outerLabels : List Metric := [.fire metricsResultInvalidMethod, .fire metricsResultInvalidContentType,
  .fire metricsResultInvalidContent, .fire metricsResultConfigurationMismatch, .fire metricsResultDecapsulationFailed]

/-- All that is counted for a request before its status, in the order in which it can happen. -/
def gatewayLabels (status : Nat) : List Metric :=
  outerLabels ++ labels status ++ [.fire metricsResultEncapsulationFailed]

def Tally (log : List Metric) : Prop := ∃ status, log.Sublist (gatewayLabels status)

theorem gatewayLabels_eq (status : Nat) : gatewayLabels status = outerLabels ++ decodingLabels ++ refusalLabels ++
    .responseStatus (text "upstream") status :: (.fire metricsResultSuccess :: (encodingLabels ++ payloadLabels ++
      [.fire metricsResultEncapsulationFailed])) := rfl

theorem mem_gatewayLabels {status code : Nat} {stage : Bytes} (h : .responseStatus stage code ∈ gatewayLabels status) :
    stage = text "upstream" ∨ stage = metricsPayloadStatusPrefix := by
  rw [gatewayLabels_eq] at h
  simp only [outerLabels, decodingLabels, refusalLabels, encodingLabels, payloadLabels, payloadStatus, List.mem_append,
    List.mem_cons, List.not_mem_nil, reduceCtorEq, Metric.responseStatus.injEq, false_or, or_false] at h
  tauto

theorem gatewayLabels_nodup (status : Nat) : (gatewayLabels status).Nodup := by
  rw [gatewayLabels_eq, List.nodup_middle, List.nodup_cons]
  constructor
  · have hOther : text "upstream" ≠ metricsPayloadStatusPrefix := by decide
    simp [outerLabels, decodingLabels, refusalLabels, encodingLabels, payloadLabels, payloadStatus, hOther]
  · decide

theorem tally_outer {log : List Metric} (h : log.Sublist outerLabels) : Tally log :=
  ⟨0, h.trans ((List.sublist_append_left outerLabels _).trans (List.sublist_append_left _ _))⟩

theorem tally_inner {log back : List Metric} (h : Counted log)
    (hBack : back.Sublist [.fire metricsResultEncapsulationFailed]) : Tally (log ++ back) := by
  obtain ⟨status, h⟩ := h
  refine ⟨status, ?_⟩
  rw [gatewayLabels, List.append_assoc]
  exact (h.append hBack).trans (List.sublist_append_right _ _)

section
variable {SK PK : Type} {w : World SK PK} {s : GatewayResource SK}

theorem appHandler_counted (appHandler : AppContentHandler) (binaryRequest : Bytes) :
    Counted (appHandler.Handle w binaryRequest).log := by
  cases appHandler with
  | EchoAppHandler => exact echoHandle_counted binaryRequest
  | ProtoHTTPAppHandler proto h => exact protoHandle_counted proto h w.upstream binaryRequest
  | BinaryHTTPAppHandler h => exact binaryHandle_counted h w.upstream binaryRequest

theorem outcome_bind_log {β : Type} {Q : List Metric → Prop} {x : Metered Failure Bytes}
    {f : Except Failure Bytes → Metered Failure β} (hPanic : Q x.log) (hf : ∀ r, Q (x.log ++ (f r).log)) :
    Q (outcome x >>= f).log := by
  change Q (Logged.bind (outcome x) f).log
  unfold Logged.bind
  split
  · exact hPanic
  · exact hf _

theorem tally_nil : Tally [] := tally_outer (List.nil_sublist _)

theorem defaultHandle_tally (gateway : OhttpGateway SK) (appHandler : AppContentHandler) (req : EncapsulatedRequest) :
    Tally (defaultHandle w gateway appHandler req).log := by
  unfold defaultHandle
  split
  · exact tally_outer (by decide : [Metric.fire metricsResultConfigurationMismatch].Sublist outerLabels)
  · refine returned_bind_log tally_nil ?_
    cases gateway.DecapsulateRequest w.primitives req with
    | error e => exact tally_outer (by decide : [Metric.fire metricsResultDecapsulationFailed].Sublist outerLabels)
    | ok opened =>
      have hCounted := appHandler_counted (w := w) appHandler opened.1
      have hDone : Tally ((appHandler.Handle w opened.1).log ++ []) := tally_inner hCounted (List.nil_sublist _)
      refine outcome_bind_log (by simpa using hDone) fun r => ?_
      cases r with
      | error e => exact hDone
      | ok binaryResponse =>
        refine returned_bind_log (Q := fun l => Tally ((appHandler.Handle w opened.1).log ++ l)) hDone ?_
        cases encapsulateResponse w opened.2 binaryResponse with
        | error e => exact tally_inner hCounted (List.Sublist.refl _)
        | ok raw => exact hDone

theorem metadataHandle_tally (gateway : OhttpGateway SK) (outer : ServerRequest) (req : EncapsulatedRequest) :
    Tally (metadataHandle w gateway outer req).log := by
  unfold metadataHandle
  split
  · exact tally_outer (by decide : [Metric.fire metricsResultConfigurationMismatch].Sublist outerLabels)
  · refine returned_bind_log tally_nil ?_
    cases gateway.DecapsulateRequest w.primitives req with
    | error e => exact tally_outer (by decide : [Metric.fire metricsResultDecapsulationFailed].Sublist outerLabels)
    | ok opened =>
      refine returned_bind_log tally_nil ?_
      cases w.dumpRequest outer with
      | error e => exact tally_nil
      | ok binaryResponse =>
        refine returned_bind_log tally_nil ?_
        cases encapsulateResponse w opened.2 binaryResponse with
        | error e =>
          have hNone : Counted [] := ⟨0, List.nil_sublist _⟩
          have hFailed : Tally ([] ++ [.fire metricsResultEncapsulationFailed]) := tally_inner hNone (List.Sublist.refl _)
          exact hFailed
        | ok raw =>
          have hEcho : Counted [Metric.fire metricsResultSuccess] := echoHandle_counted []
          have hDone : Tally ([.fire metricsResultSuccess] ++ []) := tally_inner hEcho (List.nil_sublist _)
          exact hDone

/-- How a request ends: in a panic, or answered with a status that is the last thing counted. -/
def Tallied (r : ServerRequest) (run : Metered Failure Reply) : Prop :=
  (∃ e, run.result = .error e ∧ Tally run.log) ∨ ∃ reply inner, run.result = .ok reply ∧
    run.log = inner ++ [.responseStatus r.Method reply.status] ∧ Tally inner ∧ reply.status ∈ [200, 400, 401] ∧
    (r.Method = text "POST" ∨ ∀ stage code, Metric.responseStatus stage code ∉ inner)

theorem httpError_tallied {r : ServerRequest} {status : Nat} {debugMessage : Bytes} (inner : List Metric)
    (hStatus : status ∈ [200, 400, 401]) (hInner : Tally inner)
    (hMethod : r.Method = text "POST" ∨ ∀ stage code, Metric.responseStatus stage code ∉ inner) :
    Tallied r ⟨inner ++ (httpError s status debugMessage r.Method).log,
      (httpError s status debugMessage r.Method).result⟩ :=
  .inr ⟨_, inner, rfl, rfl, hInner, hStatus, hMethod⟩

theorem returned_tallied {α : Type} {r : ServerRequest} {x : Except Failure α}
    {f : Except Failure α → Metered Failure Reply}
    (hf : Tallied r (f x)) : Tallied r (returned x >>= f) := by
  cases x with
  | ok a => exact hf
  | error e =>
    cases e with
    | panicked => exact .inl ⟨_, rfl, tally_nil⟩
    | endless => exact .inl ⟨_, rfl, tally_nil⟩
    | _ => exact hf

theorem gatewayHandler_tallied (r : ServerRequest) : Tallied r (gatewayHandler w s r) := by
  unfold gatewayHandler
  split
  · refine httpError_tallied [.fire metricsResultInvalidMethod] (by decide) (tally_outer (by decide)) (.inr ?_)
    simp
  rename_i hMethod
  have hPost : r.Method = text "POST" := not_not.mp hMethod
  split
  · exact httpError_tallied [.fire metricsResultInvalidContentType] (by decide) (tally_outer (by decide))
      (.inl hPost)
  split
  · exact httpError_tallied [] (by decide) tally_nil (.inl hPost)
  rename_i encapHandler _
  split
  · exact httpError_tallied [.fire metricsResultInvalidContent] (by decide) (tally_outer (by decide))
      (.inl hPost)
  rename_i encrypted _
  refine returned_tallied ?_
  cases UnmarshalEncapsulatedRequest encrypted with
  | error e =>
    exact httpError_tallied [.fire metricsResultInvalidContent] (by decide) (tally_outer (by decide))
      (.inl hPost)
  | ok req =>
    have hTally : Tally (encapHandler.Handle w s.gateway r req).log := by
      cases encapHandler with
      | DefaultEncapsulationHandler appHandler => exact defaultHandle_tally s.gateway appHandler req
      | MetadataEncapsulationHandler => exact metadataHandle_tally s.gateway r req
    cases hResult : (encapHandler.Handle w s.gateway r req).result with
    | error e =>
      refine .inl ⟨e, ?_, ?_⟩
      · simp only [Logged.result_bind, hResult]
        rfl
      · change Tally (Logged.bind _ _).log
        simp only [Logged.bind, hResult]
        exact hTally
    | ok out =>
      have hRun : encapHandler.Handle w s.gateway r req = ⟨(encapHandler.Handle w s.gateway r req).log, .ok out⟩ := by
        rw [← hResult]
      dsimp only
      rw [bind_eq_of_pure hRun]
      cases out with
      | error err =>
        refine httpError_tallied _ ?_ hTally (.inl hPost)
        cases err <;> simp [encapsulationErrorToGatewayStatusCode]
      | ok packed => exact .inr ⟨_, _, rfl, rfl, hTally, by simp, .inl hPost⟩

/-- No request counts anything twice, and a request that is answered counts, last of all, the status of its answer,
which is 200, 400 or 401. -/
theorem gateway_requests_counted_once (w : World SK PK) (s : GatewayResource SK) (r : ServerRequest) :
    (gatewayHandler w s r).log.Nodup ∧ ∀ reply, (gatewayHandler w s r).result = .ok reply →
      reply.status ∈ [200, 400, 401] ∧
      (gatewayHandler w s r).log.getLast? = some (.responseStatus r.Method reply.status) := by
  rcases gatewayHandler_tallied (w := w) (s := s) r with ⟨e, hError, status, hLog⟩ |
    ⟨reply, inner, hReply, hLog, ⟨status, hInner⟩, hStatus, hMethod⟩
  · refine ⟨hLog.nodup (gatewayLabels_nodup status), fun reply hReply => ?_⟩
    rw [hError] at hReply
    cases hReply
  · rw [hLog, List.getLast?_concat, hReply]
    constructor
    · refine List.nodup_append.mpr ⟨hInner.nodup (gatewayLabels_nodup status), List.nodup_singleton _, ?_⟩
      intro a ha b hb hEq
      obtain rfl := List.mem_singleton.mp hb
      subst hEq
      rcases hMethod with hPost | hFires
      · have hStage := mem_gatewayLabels (hInner.subset ha)
        rw [hPost] at hStage
        revert hStage
        decide
      · exact hFires _ _ ha
    · rintro _ ⟨⟩
      exact ⟨hStatus, rfl⟩

end

end Columbia.Gateway.Resource
