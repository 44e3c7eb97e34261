import Columbia.Gateway.Bhttp
import Columbia.Lib.Logged

/-! # From a decrypted payload to the payload of the answer

The content handlers decode a request, have it sent, and encode what comes back. An error of theirs is an answer too,
so that the client, and no one else, gets to see it. Metrics are a log; a panic leaves the handler with the log so far.
-/
namespace Columbia.Gateway.AppHandler
open Columbia.Js Columbia.Lib Columbia.Gateway.Varint Columbia.Gateway.Handler Columbia.Gateway.Bhttp
set_option autoImplicit false

/-- The errors that end up inside an answer. -/
inductive PayloadError
  | PayloadMarshallingError
  | GatewayTargetForbiddenError
  | GatewayInternalServerError
  deriving DecidableEq

def PayloadError.Error : PayloadError → Bytes
  | .PayloadMarshallingError => text "Issues with payload marshalling (BHTTP or Protobuf)"
  | .GatewayTargetForbiddenError => text "Target forbidden on gateway (request was blocked by gateway)"
  | .GatewayInternalServerError => text "The request failed to be processed after decapsulation"

def payloadErrorToPayloadStatusCode : PayloadError → Nat
  | .PayloadMarshallingError => 400
  | .GatewayTargetForbiddenError => 403
  | .GatewayInternalServerError => 500

abbrev Metered (ε α : Type) := Logged Metric ε α

def Fire {ε : Type} (result : Bytes) : Metered ε Unit := .note (.fire result)

def ResponseStatus {ε : Type} (stage : Bytes) (status : Nat) : Metered ε Unit := .note (.responseStatus stage status)

def metricsResultContentDecodingFailed : Bytes := text "content_decode_failed"
def metricsResultContentEncodingFailed : Bytes := text "content_encode_failed"
def metricsResultRequestTranslationFailed : Bytes := text "request_translate_failed"
def metricsResultResponseTranslationFailed : Bytes := text "response_translate_failed"
def metricsResultTargetRequestForbidden : Bytes := text "request_forbidden"
def metricsResultTargetRequestFailed : Bytes := text "request_failed"
def metricsResultRateLimited : Bytes := text "rate_limited"
def metricsResultSuccess : Bytes := text "success"
def metricsPayloadStatusPrefix : Bytes := text "gateway_payload"

/-- The result of a call, which may be an error to look at; a panic is none. -/
def returned {α : Type} : Except Failure α → Metered Failure (Except Failure α)
  | .error .panicked => .quiet (.error .panicked)
  | .error .endless => .quiet (.error .endless)
  | x => pure x

/-! ## `FilteredHttpRequestHandler` for one request -/

/-- What the limiter and the `http.Client` do for one request. -/
structure Upstream where
  allow : Bool
  retryAfterSeconds : Int
  client : HttpRequest → Except HandleError HttpResponse

def HttpRequest.target (req : HttpRequest) : Request := ⟨req.Method, req.URL.toUrl, req.Host⟩

def rateLimitedResponse (retryAfter : Int) : HttpResponse where
  StatusCode := 429
  Header := HttpHeader.Set (HttpHeader.Set .empty (text "Retry-After") (text (toString retryAfter)))
    (text "Content-Type") (text "text/plain; charset=utf-8")
  Trailer := .empty
  Body := .ok (text "rate limited\n")

/-- `FilteredHttpRequestHandler.Handle`. -/
def filteredHandle (h : FilteredHttpRequestHandler) (up : Upstream) (req : HttpRequest) :
    Metered HandleError HttpResponse :=
  if h.forbids (HttpRequest.target req) then do
    Fire metricsResultTargetRequestForbidden
    .quiet (.error .GatewayTargetForbiddenError)
  else
    let req := { req with URL := { req.URL with toUrl := (h.rewrite (HttpRequest.target req)).URL } }
    if up.allow = false then do
      Fire metricsResultRateLimited
      pure (rateLimitedResponse up.retryAfterSeconds)
    else
      match up.client req with
      | .error e => do
        Fire metricsResultTargetRequestFailed
        .quiet (.error e)
      | .ok resp => do
        ResponseStatus (text "upstream") resp.StatusCode
        Fire metricsResultSuccess
        pure resp

/-! ## The content handlers -/

def errorResponse (e : PayloadError) : HttpResponse :=
  ⟨payloadErrorToPayloadStatusCode e, .empty, .empty, .ok e.Error⟩

section
variable (go : Go) (httpHandler : HttpRequest → Metered HandleError HttpResponse)

/-- The outcome of the HTTP handler, with its metrics. -/
def handled (req : HttpRequest) : Metered Failure (Except HandleError HttpResponse) :=
  ⟨(httpHandler req).log, .ok (httpHandler req).result⟩

def echoHandle (binaryRequest : Bytes) : Metered Failure Bytes := do
  Fire metricsResultSuccess
  pure binaryRequest

/-- `BinaryHTTPAppHandler.wrappedError`. -/
def wrappedError (e : PayloadError) : Metered Failure Bytes := do
  let status := payloadErrorToPayloadStatusCode e
  Fire (metricsPayloadStatusPrefix ++ text (toString status))
  .quiet ((errorResponse e).Marshal go)

/-- `BinaryHTTPAppHandler.Handle`. -/
def binaryHandle (binaryRequest : Bytes) : Metered Failure Bytes := do
  match ← returned (UnmarshalBinaryRequest go binaryRequest) with
  | .error _ =>
    Fire metricsResultContentDecodingFailed
    wrappedError go .PayloadMarshallingError
  | .ok req =>
    match ← handled httpHandler req with
    | .error .GatewayTargetForbiddenError => wrappedError go .GatewayTargetForbiddenError
    | .error _ => wrappedError go .GatewayInternalServerError
    | .ok resp =>
      match ← returned (resp.Marshal go) with
      | .error _ =>
        Fire metricsResultContentEncodingFailed
        wrappedError go .GatewayInternalServerError
      | .ok binaryRespEnc =>
        Fire (metricsPayloadStatusPrefix ++ text "200")
        pure binaryRespEnc

end

/-! ## Requests and responses as protocol buffers -/

inductive ProtoMethod
  | GET | HEAD | POST | PUT | DELETE | PATCH | OPTIONS | TRACE
  | unknown (n : Int)
  deriving DecidableEq

inductive ProtoScheme
  | HTTP | HTTPS
  | unknown (n : Int)
  deriving DecidableEq

structure ProtoRequest where
  Method : ProtoMethod
  Scheme : ProtoScheme
  Authority : Bytes
  Path : Bytes
  Headers : List Field
  Body : Bytes

structure ProtoResponse where
  StatusCode : Int
  Headers : List Field
  Body : Bytes
  deriving DecidableEq

/-- `proto.Marshal` and `proto.Unmarshal`, for the two messages. -/
structure Proto where
  unmarshalRequest : Bytes → Except Failure ProtoRequest
  marshalResponse : ProtoResponse → Except Failure Bytes

def requestMethodMap : ProtoMethod → Option Bytes
  | .GET => some (text "GET")
  | .HEAD => some (text "HEAD")
  | .DELETE => some (text "DELETE")
  | .POST => some (text "POST")
  | .PUT => some (text "PUT")
  | .PATCH => some (text "PATCH")
  | .OPTIONS => some (text "OPTIONS")
  | .TRACE => some (text "TRACE")
  | .unknown _ => none

def requestSchemeMap : ProtoScheme → Option Bytes
  | .HTTP => some (text "http")
  | .HTTPS => some (text "https")
  | .unknown _ => none

/-- `Request_Method.String` of a number without a name; `Request_Scheme.String` is the same. -/
def ProtoMethod.name : ProtoMethod → Bytes
  | .unknown n => text (toString n)
  | m => (requestMethodMap m).getD []

def ProtoScheme.name : ProtoScheme → Bytes
  | .unknown n => text (toString n)
  | .HTTP => text "HTTP"
  | .HTTPS => text "HTTPS"

/-- The last of the host headers. -/
def hostHeader (headers : List Field) : Bytes :=
  headers.foldl (fun authority f => if f.name = text "Host" ∨ f.name = text "host" then f.value else authority) []

/-- `Header.Add`. -/
def addHeader (r : HttpRequest) (f : Field) : HttpRequest :=
  let key := CanonicalMIMEHeaderKey f.name
  { r with Header := r.Header.set key ((r.Header.get? key).getD [] ++ [f.value]) }

def int32 (n : Nat) : Int := Int.bmod n (2 ^ 32)

section
variable (go : Go)

def protoHTTPToRequest (request : ProtoRequest) : Except Failure HttpRequest := do
  let method ← orThrow (requestMethodMap request.Method)
    (.other (text "Unsupported request method: " ++ request.Method.name))
  let scheme ← orThrow (requestSchemeMap request.Scheme)
    (.other (text "Unsupported request scheme: " ++ request.Scheme.name))
  let authority := if request.Authority = [] then hostHeader request.Headers else request.Authority
  let url ← (go.parse (urlText scheme authority request.Path)).mapError Failure.other
  let targetRequest ← NewRequest go method (go.string url) request.Body
  return request.Headers.foldl addHeader targetRequest

def responseToProtoHTTP (targetResponse : HttpResponse) : Except Failure ProtoResponse := do
  let responseContent ← targetResponse.Body.mapError Failure.other
  let responseHeaders := (go.range targetResponse.Header).flatMap fun e => e.2.map fun val => ⟨e.1, val⟩
  return ⟨int32 targetResponse.StatusCode, responseHeaders, responseContent⟩

variable (proto : Proto) (httpHandler : HttpRequest → Metered HandleError HttpResponse)

/-- `ProtoHTTPAppHandler.wrappedError`. -/
def protoWrappedError (e : PayloadError) : Metered Failure Bytes := do
  let status := payloadErrorToPayloadStatusCode e
  let respEnc ← .quiet (proto.marshalResponse ⟨status, [], e.Error⟩)
  ResponseStatus metricsPayloadStatusPrefix status
  pure respEnc

/-- `ProtoHTTPAppHandler.Handle`. -/
def protoHandle (binaryRequest : Bytes) : Metered Failure Bytes := do
  match ← returned (proto.unmarshalRequest binaryRequest) with
  | .error _ =>
    Fire metricsResultContentDecodingFailed
    protoWrappedError proto .PayloadMarshallingError
  | .ok req =>
    match ← returned (protoHTTPToRequest go req) with
    | .error _ =>
      Fire metricsResultRequestTranslationFailed
      protoWrappedError proto .PayloadMarshallingError
    | .ok httpRequest =>
      match ← handled httpHandler httpRequest with
      | .error .GatewayTargetForbiddenError => protoWrappedError proto .GatewayTargetForbiddenError
      | .error _ => protoWrappedError proto .GatewayInternalServerError
      | .ok httpResponse =>
        match ← returned (responseToProtoHTTP go httpResponse) with
        | .error _ =>
          Fire metricsResultResponseTranslationFailed
          protoWrappedError proto .GatewayInternalServerError
        | .ok protoResponse =>
          match ← returned (proto.marshalResponse protoResponse) with
          | .error _ =>
            Fire metricsResultContentEncodingFailed
            protoWrappedError proto .GatewayInternalServerError
          | .ok marshalledProtoResponse =>
            Fire (metricsPayloadStatusPrefix ++ text "200")
            pure marshalledProtoResponse

end

/-! ## What the client gets to see -/

theorem errorResponse_marshal (go : Go) (e : PayloadError) : ∃ data, (errorResponse e).Marshal go = .ok data := by
  have hRange : go.range .empty = [] := (go.range_perm .empty).eq_nil
  have hSection : fieldSection go .empty = .ok [0] := by
    rw [fieldSection, createHeaderFields, hRange]
    rfl
  simp only [HttpResponse.Marshal, errorResponse, hSection]
  cases e <;> exact ⟨_, rfl⟩

theorem returned_of_returns {α : Type} {x : Except Failure α} {e : Failure} (hx : x = .error e) (he : Returned e) :
    returned x = pure (.error e) := by
  subst hx
  cases e with
  | panicked => exact absurd rfl he.1
  | endless => exact absurd rfl he.2
  | _ => rfl

section
variable (go : Go) (httpHandler : HttpRequest → Metered HandleError HttpResponse)

def payloadStatus (status : Nat) : Metric := .fire (metricsPayloadStatusPrefix ++ text (toString status))

/-- The answer in `binaryHandle`, with its log. -/
def Answered (log : List Metric) (e : PayloadError) (run : Metered Failure Bytes) : Prop :=
  run = ⟨log ++ [payloadStatus (payloadErrorToPayloadStatusCode e)], (errorResponse e).Marshal go⟩

/-- The ways through `BinaryHTTPAppHandler.Handle`. -/
inductive BinaryRun (payload : Bytes) (run : Metered Failure Bytes) : Prop
  | panics (hRead : UnmarshalBinaryRequest go payload = .error .panicked) (hRun : run = ⟨[], .error .panicked⟩)
  | unreadable (e : Failure) (hRead : UnmarshalBinaryRequest go payload = .error e) (he : Returned e)
      (hRun : Answered go [.fire metricsResultContentDecodingFailed] .PayloadMarshallingError run)
  | forbidden (req : HttpRequest) (hRead : UnmarshalBinaryRequest go payload = .ok req)
      (hResult : (httpHandler req).result = .error .GatewayTargetForbiddenError)
      (hRun : Answered go (httpHandler req).log .GatewayTargetForbiddenError run)
  | failed (req : HttpRequest) (e : HandleError) (hRead : UnmarshalBinaryRequest go payload = .ok req)
      (hResult : (httpHandler req).result = .error e) (he : e ≠ .GatewayTargetForbiddenError)
      (hRun : Answered go (httpHandler req).log .GatewayInternalServerError run)
  | unwritable (req : HttpRequest) (resp : HttpResponse) (e : Failure)
      (hRead : UnmarshalBinaryRequest go payload = .ok req) (hResult : (httpHandler req).result = .ok resp)
      (hMarshal : resp.Marshal go = .error e) (he : Returned e)
      (hRun : Answered go ((httpHandler req).log ++ [.fire metricsResultContentEncodingFailed])
        .GatewayInternalServerError run)
  | tooLarge (req : HttpRequest) (resp : HttpResponse) (hRead : UnmarshalBinaryRequest go payload = .ok req)
      (hResult : (httpHandler req).result = .ok resp) (hMarshal : resp.Marshal go = .error .panicked)
      (hRun : run = ⟨(httpHandler req).log, .error .panicked⟩)
  | delivered (req : HttpRequest) (resp : HttpResponse) (out : Bytes)
      (hRead : UnmarshalBinaryRequest go payload = .ok req) (hResult : (httpHandler req).result = .ok resp)
      (hMarshal : resp.Marshal go = .ok out) (hRun : run = ⟨(httpHandler req).log ++ [payloadStatus 200], .ok out⟩)

variable {go httpHandler}

theorem wrappedError_eq (log : List Metric) (e : PayloadError) :
    Answered go log e ⟨log ++ (wrappedError go e).log, (wrappedError go e).result⟩ := by
  obtain ⟨data, hData⟩ := errorResponse_marshal go e
  rw [Answered, wrappedError, hData]
  rfl

theorem bind_eq_of_pure {ε α β : Type} {x : Metered ε α} {log : List Metric} {a : α} {f : α → Metered ε β}
    (hx : x = ⟨log, .ok a⟩) : x >>= f = ⟨log ++ (f a).log, (f a).result⟩ := by
  subst hx
  rfl

variable (go httpHandler) in
theorem binaryHandle_run (payload : Bytes) : BinaryRun go httpHandler payload (binaryHandle go httpHandler payload) := by
  unfold binaryHandle
  cases hRead : UnmarshalBinaryRequest go payload with
  | error e =>
    by_cases hPanic : e = .panicked
    · subst hPanic
      exact .panics hRead rfl
    · have he : Returned e := ⟨hPanic, fun h => unmarshalRequest_ends go payload (h ▸ hRead)⟩
      refine .unreadable e hRead he ?_
      rw [returned_of_returns rfl he]
      exact wrappedError_eq [.fire metricsResultContentDecodingFailed] .PayloadMarshallingError
  | ok req =>
    have hHandled : handled httpHandler req = ⟨(httpHandler req).log, .ok (httpHandler req).result⟩ := rfl
    change BinaryRun go httpHandler payload (pure (Except.ok req) >>= _)
    rw [bind_eq_of_pure
      (rfl : (pure (Except.ok req) : Metered Failure (Except Failure HttpRequest)) = ⟨[], .ok (.ok req)⟩)]
    dsimp only
    rw [bind_eq_of_pure hHandled]
    cases hResult : (httpHandler req).result with
    | error e =>
      by_cases hForbidden : e = .GatewayTargetForbiddenError
      · subst hForbidden
        exact .forbidden req hRead hResult (wrappedError_eq _ _)
      · refine .failed req e hRead hResult hForbidden ?_
        cases e with
        | GatewayTargetForbiddenError => exact absurd rfl hForbidden
        | _ => exact wrappedError_eq _ _
    | ok resp =>
      dsimp only
      cases hMarshal : resp.Marshal go with
      | error e =>
        rcases marshalResponse_raises go resp e hMarshal with rfl | ⟨he, -⟩
        · refine .tooLarge req resp hRead hResult hMarshal ?_
          simp [returned, Logged.quiet, bind, Logged.bind]
        · refine .unwritable req resp e hRead hResult hMarshal he ?_
          rw [returned_of_returns rfl he]
          have hTail : Answered go ((httpHandler req).log ++ [.fire metricsResultContentEncodingFailed])
              .GatewayInternalServerError _ := wrappedError_eq _ _
          rw [Answered] at hTail ⊢
          rw [← hTail, List.append_assoc]
          rfl
      | ok out => exact .delivered req resp out hRead hResult hMarshal rfl

variable (go httpHandler)

/-- The response that a payload is to be answered with. -/
def expectedAnswer (payload : Bytes) : HttpResponse :=
  match UnmarshalBinaryRequest go payload with
  | .error _ => errorResponse .PayloadMarshallingError
  | .ok req =>
    match (httpHandler req).result with
    | .error .GatewayTargetForbiddenError => errorResponse .GatewayTargetForbiddenError
    | .error _ => errorResponse .GatewayInternalServerError
    | .ok resp =>
      if (200 ≤ resp.StatusCode ∧ resp.StatusCode ≤ 599) ∧ resp.Body.toOption.isSome then resp
      else errorResponse .GatewayInternalServerError

/-- The target's answer cannot be written down, which takes more than `2 ^ 62` bytes. -/
def AnswerTooLarge (payload : Bytes) : Prop := ∃ req resp, UnmarshalBinaryRequest go payload = .ok req ∧
  (httpHandler req).result = .ok resp ∧ resp.Marshal go = .error .panicked

variable {go httpHandler}

theorem answered_decodes {log : List Metric} {e : PayloadError} {run : Metered Failure Bytes}
    (h : Answered go log e run) : ∃ out decoded, run.result = .ok out ∧ UnmarshalBinaryResponse go out = .ok decoded ∧
      decoded.StatusCode = (errorResponse e).StatusCode ∧ decoded.Body = (errorResponse e).Body := by
  obtain ⟨data, hData⟩ := errorResponse_marshal go e
  obtain ⟨-, -, decoded, hDecoded, hStatus, hBody⟩ := response_read_back hData
  rw [Answered] at h
  exact ⟨data, decoded, by rw [h, hData], hDecoded, hStatus, hBody⟩

theorem toOption_isSome {ε α : Type} {x : Except ε α} : x.toOption.isSome = true ↔ ∃ a, x = .ok a := by
  cases x <;> simp [Except.toOption]

theorem binary_answer {payload out : Bytes} (hOut : (binaryHandle go httpHandler payload).result = .ok out) :
    ∃ decoded, UnmarshalBinaryResponse go out = .ok decoded ∧
      decoded.StatusCode = (expectedAnswer go httpHandler payload).StatusCode ∧
      decoded.Body = (expectedAnswer go httpHandler payload).Body := by
  have hFrom : ∀ {log e}, Answered go log e (binaryHandle go httpHandler payload) →
      expectedAnswer go httpHandler payload = errorResponse e → ∃ decoded, UnmarshalBinaryResponse go out = .ok decoded ∧
        decoded.StatusCode = (expectedAnswer go httpHandler payload).StatusCode ∧
        decoded.Body = (expectedAnswer go httpHandler payload).Body := by
    intro log e hAnswered hExpected
    obtain ⟨out', decoded, hOut', hDecoded⟩ := answered_decodes hAnswered
    rw [hOut, Except.ok.injEq] at hOut'
    subst hOut'
    rw [hExpected]
    exact ⟨decoded, hDecoded⟩
  cases binaryHandle_run go httpHandler payload with
  | panics hRead hRun =>
    rw [hRun] at hOut
    cases hOut
  | unreadable e hRead he hRun => exact hFrom hRun (by rw [expectedAnswer, hRead])
  | forbidden req hRead hResult hRun => exact hFrom hRun (by simp only [expectedAnswer, hRead, hResult])
  | failed req e hRead hResult he hRun => exact hFrom hRun (by simp only [expectedAnswer, hRead, hResult])
  | unwritable req resp e hRead hResult hMarshal he hRun =>
    refine hFrom hRun ?_
    simp only [expectedAnswer, hRead, hResult]
    rw [if_neg]
    rcases marshalResponse_raises go resp e hMarshal with rfl | ⟨-, hNot⟩
    · exact absurd rfl he.1
    · rwa [toOption_isSome]
  | tooLarge req resp hRead hResult hMarshal hRun =>
    rw [hRun] at hOut
    cases hOut
  | delivered req resp written hRead hResult hMarshal hRun =>
    obtain ⟨hRange, hBody, decoded, hDecoded⟩ := response_read_back hMarshal
    rw [hRun] at hOut
    cases hOut
    have hExpected : expectedAnswer go httpHandler payload = resp := by
      simp only [expectedAnswer, hRead, hResult]
      rw [if_pos ⟨hRange, toOption_isSome.mpr hBody⟩]
    rw [hExpected]
    exact ⟨decoded, hDecoded⟩

theorem binaryHandle_error {payload : Bytes} {e : Failure}
    (hError : (binaryHandle go httpHandler payload).result = .error e) : e = .panicked ∧
      (UnmarshalBinaryRequest go payload = .error .panicked ∨ AnswerTooLarge go httpHandler payload) := by
  have hNever : ∀ {log error}, ¬Answered go log error (binaryHandle go httpHandler payload) := by
    intro log error hAnswered
    obtain ⟨out, _, hOut, -⟩ := answered_decodes hAnswered
    rw [hError] at hOut
    cases hOut
  cases binaryHandle_run go httpHandler payload with
  | panics hRead hRun =>
    rw [hRun] at hError
    cases hError
    exact ⟨rfl, .inl hRead⟩
  | tooLarge req resp hRead hResult hMarshal hRun =>
    rw [hRun] at hError
    cases hError
    exact ⟨rfl, .inr ⟨req, resp, hRead, hResult, hMarshal⟩⟩
  | delivered req resp out hRead hResult hMarshal hRun =>
    rw [hRun] at hError
    cases hError
  | unreadable e' hRead he hRun => exact absurd hRun hNever
  | forbidden req hRead hResult hRun => exact absurd hRun hNever
  | failed req e' hRead hResult he hRun => exact absurd hRun hNever
  | unwritable req resp e' hRead hResult hMarshal he hRun => exact absurd hRun hNever

theorem binaryHandle_error_iff (payload : Bytes) (e : Failure) :
    (binaryHandle go httpHandler payload).result = .error e ↔ e = .panicked ∧
      (UnmarshalBinaryRequest go payload = .error .panicked ∨ AnswerTooLarge go httpHandler payload) := by
  refine ⟨binaryHandle_error, ?_⟩
  rintro ⟨rfl, hPanic | ⟨req, resp, hRead, hResult, hLarge⟩⟩
  · rw [binaryHandle, hPanic]
    rfl
  · rw [binaryHandle, hRead]
    simp [returned, handled, hResult, hLarge, Logged.quiet, bind, Logged.bind, pure]

/-- Every payload gets an answer that the client can read, with the status and the body that are due; only a request
with trailers, and an answer beyond all bounds, make the handler panic instead. -/
theorem binary_payload_answered (go : Go) (httpHandler : HttpRequest → Metered HandleError HttpResponse)
    (payload : Bytes) :
    (∀ out, (binaryHandle go httpHandler payload).result = .ok out → ∃ decoded,
      UnmarshalBinaryResponse go out = .ok decoded ∧
      decoded.StatusCode = (expectedAnswer go httpHandler payload).StatusCode ∧
      decoded.Body = (expectedAnswer go httpHandler payload).Body) ∧
    ∀ e, (binaryHandle go httpHandler payload).result = .error e ↔ e = .panicked ∧
      (UnmarshalBinaryRequest go payload = .error .panicked ∨ AnswerTooLarge go httpHandler payload) :=
  ⟨fun _ => binary_answer, binaryHandle_error_iff payload⟩

/-! ## Metrics -/

/-- All that is counted below the encapsulation for a request whose target answers with this status, in the order in
which it can happen. -/
def decodingLabels : List Metric := [.fire metricsResultContentDecodingFailed, .fire metricsResultRequestTranslationFailed]

def sendingLabels (status : Nat) : List Metric :=
  [.fire metricsResultTargetRequestForbidden, .fire metricsResultRateLimited, .fire metricsResultTargetRequestFailed,
    .responseStatus (text "upstream") status, .fire metricsResultSuccess]

def encodingLabels : List Metric :=
  [.fire metricsResultResponseTranslationFailed, .fire metricsResultContentEncodingFailed]

def payloadLabels : List Metric :=
  [payloadStatus 400, payloadStatus 403, payloadStatus 500, payloadStatus 200,
    .responseStatus metricsPayloadStatusPrefix 400, .responseStatus metricsPayloadStatusPrefix 403,
    .responseStatus metricsPayloadStatusPrefix 500]

def labels (status : Nat) : List Metric := decodingLabels ++ sendingLabels status ++ encodingLabels ++ payloadLabels

/-- A log that counts some of these, in their order. -/
def Counted (log : List Metric) : Prop := ∃ status, log.Sublist (labels status)

def refusalLabels : List Metric :=
  [.fire metricsResultTargetRequestForbidden, .fire metricsResultRateLimited, .fire metricsResultTargetRequestFailed]

theorem counted_parts {front sending back last : List Metric} {status : Nat} (hFront : front.Sublist decodingLabels)
    (hSending : sending.Sublist (sendingLabels status)) (hBack : back.Sublist encodingLabels)
    (hLast : last.Sublist payloadLabels) : Counted (front ++ sending ++ back ++ last) :=
  ⟨status, ((hFront.append hSending).append hBack).append hLast⟩

/-- What sending one request counts. -/
theorem filteredHandle_counted (h : FilteredHttpRequestHandler) (up : Upstream) (req : HttpRequest) :
    ∃ status, (filteredHandle h up req).log.Sublist (sendingLabels status) := by
  unfold filteredHandle
  split
  · exact ⟨0, .cons_cons _ (List.nil_sublist _)⟩
  · dsimp only
    split
    · exact ⟨0, .cons _ (.cons_cons _ (List.nil_sublist _))⟩
    · split
      · exact ⟨0, .cons _ (.cons _ (.cons_cons _ (List.nil_sublist _)))⟩
      · rename_i resp _
        exact ⟨resp.StatusCode, .cons _ (.cons _ (.cons _ (.refl _)))⟩

theorem answered_counted {front sending back : List Metric} {status : Nat} {e : PayloadError}
    {run : Metered Failure Bytes} (hFront : front.Sublist decodingLabels)
    (hSending : sending.Sublist (sendingLabels status)) (hBack : back.Sublist encodingLabels)
    (hRun : Answered go (front ++ sending ++ back) e run) : Counted run.log := by
  rw [Answered] at hRun
  rw [hRun]
  apply counted_parts hFront hSending hBack
  cases e <;> decide

theorem binaryHandle_counted (h : FilteredHttpRequestHandler) (up : Upstream) (payload : Bytes) :
    Counted (binaryHandle go (filteredHandle h up) payload).log := by
  cases binaryHandle_run go (filteredHandle h up) payload with
  | panics hRead hRun =>
    rw [hRun]
    exact ⟨0, List.nil_sublist _⟩
  | unreadable e hRead he hRun =>
    have hFront : [Metric.fire metricsResultContentDecodingFailed].Sublist decodingLabels := by decide
    exact answered_counted hFront (List.nil_sublist (sendingLabels 0)) (List.nil_sublist _) hRun
  | forbidden req hRead hResult hRun =>
    obtain ⟨status, hLog⟩ := filteredHandle_counted h up req
    exact answered_counted (List.nil_sublist _) hLog (List.nil_sublist _) (by simpa using hRun)
  | failed req e hRead hResult he hRun =>
    obtain ⟨status, hLog⟩ := filteredHandle_counted h up req
    exact answered_counted (List.nil_sublist _) hLog (List.nil_sublist _) (by simpa using hRun)
  | unwritable req resp e hRead hResult hMarshal he hRun =>
    obtain ⟨status, hLog⟩ := filteredHandle_counted h up req
    exact answered_counted (List.nil_sublist _) hLog (by decide) hRun
  | tooLarge req resp hRead hResult hMarshal hRun =>
    obtain ⟨status, hLog⟩ := filteredHandle_counted h up req
    rw [hRun]
    simpa using counted_parts (List.nil_sublist _) hLog (List.nil_sublist _) (List.nil_sublist _)
  | delivered req resp out hRead hResult hMarshal hRun =>
    obtain ⟨status, hLog⟩ := filteredHandle_counted h up req
    rw [hRun]
    simpa using counted_parts (List.nil_sublist _) hLog (List.nil_sublist _)
      (by decide : [payloadStatus 200].Sublist payloadLabels)

theorem echoHandle_counted (payload : Bytes) : Counted (echoHandle payload).log :=
  ⟨0, (by decide : [Metric.fire metricsResultSuccess].Sublist (labels 0))⟩

/-- A call that panics ends the handler there; any other result is looked at. -/
theorem returned_bind_log {α β : Type} {Q : List Metric → Prop} {x : Except Failure α}
    {f : Except Failure α → Metered Failure β} (hNil : Q []) (hf : Q (f x).log) : Q (returned x >>= f).log := by
  cases x with
  | ok a => exact hf
  | error e =>
    cases e with
    | panicked => exact hNil
    | endless => exact hNil
    | _ => exact hf

theorem protoWrappedError_log (proto : Proto) (e : PayloadError) :
    (protoWrappedError proto e).log.Sublist payloadLabels := by
  unfold protoWrappedError
  cases hMarshal : proto.marshalResponse ⟨payloadErrorToPayloadStatusCode e, [], e.Error⟩ with
  | error failure =>
    dsimp only
    rw [hMarshal]
    exact List.nil_sublist _
  | ok out =>
    dsimp only
    rw [hMarshal]
    cases e with
    | PayloadMarshallingError =>
      exact (by decide : [Metric.responseStatus metricsPayloadStatusPrefix 400].Sublist payloadLabels)
    | GatewayTargetForbiddenError =>
      exact (by decide : [Metric.responseStatus metricsPayloadStatusPrefix 403].Sublist payloadLabels)
    | GatewayInternalServerError =>
      exact (by decide : [Metric.responseStatus metricsPayloadStatusPrefix 500].Sublist payloadLabels)

theorem protoHandle_counted (proto : Proto) (h : FilteredHttpRequestHandler) (up : Upstream) (payload : Bytes) :
    Counted (protoHandle go proto (filteredHandle h up) payload).log := by
  have hNone : Counted [] := ⟨0, List.nil_sublist _⟩
  have hWrapped := protoWrappedError_log proto
  refine returned_bind_log hNone ?_
  cases proto.unmarshalRequest payload with
  | error e =>
    have hFront : [Metric.fire metricsResultContentDecodingFailed].Sublist decodingLabels := by decide
    exact counted_parts hFront (List.nil_sublist (sendingLabels 0)) (List.nil_sublist _)
      (hWrapped .PayloadMarshallingError)
  | ok req =>
    refine returned_bind_log hNone ?_
    cases protoHTTPToRequest go req with
    | error e =>
      have hFront : [Metric.fire metricsResultRequestTranslationFailed].Sublist decodingLabels := by decide
      exact counted_parts hFront (List.nil_sublist (sendingLabels 0)) (List.nil_sublist _)
        (hWrapped .PayloadMarshallingError)
    | ok httpRequest =>
      obtain ⟨status, hLog⟩ := filteredHandle_counted h up httpRequest
      dsimp only
      rw [bind_eq_of_pure (rfl : handled (filteredHandle h up) httpRequest =
        ⟨(filteredHandle h up httpRequest).log, .ok (filteredHandle h up httpRequest).result⟩)]
      have hSent : Counted ((filteredHandle h up httpRequest).log ++ []) := by
        simpa using counted_parts (List.nil_sublist _) hLog (List.nil_sublist _) (List.nil_sublist _)
      have hError : ∀ e, Counted ((filteredHandle h up httpRequest).log ++ (protoWrappedError proto e).log) := fun e => by
        simpa using counted_parts (List.nil_sublist _) hLog (List.nil_sublist _) (hWrapped e)
      have hEncoding : ∀ (back : List Metric) (e : PayloadError), back.Sublist encodingLabels →
          Counted ((filteredHandle h up httpRequest).log ++ (back ++ (protoWrappedError proto e).log)) := by
        intro back e hBack
        simpa using counted_parts (List.nil_sublist _) hLog hBack (hWrapped _)
      cases (filteredHandle h up httpRequest).result with
      | error e =>
        cases e with
        | GatewayTargetForbiddenError => exact hError .GatewayTargetForbiddenError
        | _ => exact hError .GatewayInternalServerError
      | ok httpResponse =>
        refine returned_bind_log (Q := fun l => Counted ((filteredHandle h up httpRequest).log ++ l)) hSent ?_
        cases responseToProtoHTTP go httpResponse with
        | error e =>
          exact hEncoding [.fire metricsResultResponseTranslationFailed] .GatewayInternalServerError (by decide)
        | ok protoResponse =>
          refine returned_bind_log (Q := fun l => Counted ((filteredHandle h up httpRequest).log ++ l)) hSent ?_
          cases proto.marshalResponse protoResponse with
          | error e =>
            exact hEncoding [.fire metricsResultContentEncodingFailed] .GatewayInternalServerError (by decide)
          | ok out =>
            have hDone : Counted ((filteredHandle h up httpRequest).log ++ [payloadStatus 200]) := by
              simpa using counted_parts (List.nil_sublist _) hLog (List.nil_sublist _)
                (by decide : [payloadStatus 200].Sublist payloadLabels)
            exact hDone

end

end Columbia.Gateway.AppHandler
