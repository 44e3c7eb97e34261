import Columbia.Js.Http
import Columbia.Relay.GatewayFlight
import Columbia.Relay.RelayRequests

/-! # What the relay sends to the gateway

The requests of `POST /relay` and the gateway fetches of one process, together. An `end` listener that forwards a body
starts a fetch; all other events of sockets and of the gateway come in any order. The state keeps the clients, the
events each request has had, and what was handed to `https.request` on its behalf.
-/
namespace Columbia.Relay.Dispatch
open Columbia.Js Columbia.Lib
open Columbia.Relay.RelayRequests (Request RequestEvent Body)
open Columbia.Relay.GatewayFlight (course)
set_option autoImplicit false

/-! ## The outbound request -/

structure Url where
  hostname : Str
  port : Str
  pathname : Str

structure Config where
  gw : Url
  GW_TIMEOUT_MS : Int
  RELAY_GATEWAY_SECRET : Str
  REQUIRE_FDID : Str
  FDID_HEADER : Str
  TRUSTED_CLIENT_IP_HEADER : Str
  requests : RelayRequests.Config
  gateway : GatewayFlight.Config

/-- The options of `https.request`, but for the shared agent. -/
structure Options where
  hostname : Str
  port : Value
  path : Str
  method : Str
  timeout : Int
  headers : List (Str × Value)

structure GatewayRequest where
  options : Options
  body : Bytes

def RELAY_GATEWAY_HEADER : Str := str "x-columbia-relay-auth"

def GW_PORT (config : Config) : Value := if config.gw.port = [] then int 443 else .str config.gw.port

def forwardToGateway (config : Config) (body : Bytes) : GatewayRequest where
  options :=
    { hostname := config.gw.hostname
      port := GW_PORT config
      path := config.gw.pathname
      method := str "POST"
      timeout := config.GW_TIMEOUT_MS
      headers := [(str "Content-Type", .str (str "message/ohttp-req")), (str "Content-Length", int body.length)] ++
        if config.RELAY_GATEWAY_SECRET = [] then []
        else [(RELAY_GATEWAY_HEADER, .str config.RELAY_GATEWAY_SECRET)] }
  body := body

/-! ## Clients -/

structure Client where
  remoteAddress : Option Str
  headers : List (Str × Str)

def Client.header (client : Client) (name : Str) : Option Str := client.headers.lookup name

def clientIpKey (config : Config) (client : Client) : Str :=
  let trusted := if config.TRUSTED_CLIENT_IP_HEADER = [] then none
    else ((client.header config.TRUSTED_CLIENT_IP_HEADER).map trim).filter (· ≠ [])
  let forwarded := ((client.header (str "x-forwarded-for")).map fun xff => trim ((xff.splitOn 44).getLastD [])).filter
    (· ≠ [])
  let remote := (client.remoteAddress.filter (· ≠ [])).getD (str "unknown")
  (trusted.or forwarded).getD remote

/-! ## The process -/

/-- What was sent for a request, and the fetch that sends it. -/
structure Outbound where
  request : Nat
  flight : Nat
  sent : GatewayRequest

structure Process where
  requests : RelayRequests.Server
  gateway : GatewayFlight.Server
  clients : List Client
  history : Nat → List RequestEvent
  dispatched : List Outbound

inductive Event
  | arrive (client : Client) (limited : Bool)
  | request (i : Nat) (event : RequestEvent)
  | gateway (event : GatewayFlight.Event)
  | beginShutdown
  | httpClosed
  | shutdownTimer

section
variable (sha256 : Bytes → Digest) (config : Config)

def refuse (s : Process) (status : Nat) : Process :=
  { s with requests := { s.requests with refusals := s.requests.refusals ++ [status] } }

/-- The body that the last event of a request handed to `forwardToGateway`. -/
def handedOver (before after : Request) : Option Bytes := after.forwarded[before.forwarded.length]?

def dispatch (s : Process) (i : Nat) (destroyed : Bool) (body : Bytes) : Option Process :=
  (GatewayFlight.next config.gateway s.gateway (.forward destroyed body)).map fun gateway =>
    { s with
      gateway := gateway
      dispatched := s.dispatched ++ [⟨i, s.gateway.flightCount, forwardToGateway config body⟩] }

def onRequest (s : Process) (i : Nat) (event : RequestEvent) : Option Process := do
  let before ← s.requests.requests[i]?
  let requests ← RelayRequests.next config.requests s.requests (.request i event)
  let after ← requests.requests[i]?
  let t := { s with requests := requests, history := Function.update s.history i (s.history i ++ [event]) }
  match handedOver before after with
  | none => some t
  | some body => dispatch config t i after.resDestroyed body

def onProcess (s : Process) (event : RelayRequests.Event) : Option Process :=
  (RelayRequests.next config.requests s.requests event).map fun requests => { s with requests := requests }

/-- The lock and the media type are checked after the drain flag. -/
def arrive (s : Process) (client : Client) (limited : Bool) : Option Process :=
  if s.requests.exitCode.isSome then none
  else if ¬s.requests.draining ∧
      frontDoorAllowed sha256 config.REQUIRE_FDID (client.header config.FDID_HEADER) = false then
    some (refuse s 403)
  else if ¬s.requests.draining ∧ mediaType (client.header (str "content-type")) ≠ str "message/ohttp-req" then
    some (refuse s 415)
  else (onProcess config s (.arrive (clientIpKey config client) limited)).map fun t =>
    { t with clients := if t.requests.requests.length = s.requests.requests.length then s.clients
      else s.clients ++ [client] }

/-- What a listener of a fetch throws ends the process. -/
def uncaughtException (s : Process) : Process :=
  if s.gateway.crashed then { s with requests := { s.requests with exitCode := some 1 } } else s

def onGateway (s : Process) (event : GatewayFlight.Event) : Option Process :=
  if s.requests.exitCode.isSome then none
  else (GatewayFlight.next config.gateway s.gateway event).map fun gateway =>
    uncaughtException { s with gateway := gateway }

def next (s : Process) : Event → Option Process
  | .arrive client limited => arrive sha256 config s client limited
  | .request i event => onRequest config s i event
  | .gateway (.forward _ _) => none
  | .gateway event => onGateway config s event
  | .beginShutdown => onProcess config s .beginShutdown
  | .httpClosed => onProcess config s .httpClosed
  | .shutdownTimer => onProcess config s .shutdownTimer

def relay : System Process Event := ⟨⟨.empty, .empty, [], fun _ => [], []⟩, next sha256 config⟩

end

/-! ## The events of one request -/

/-- The variables of a request that decide what is forwarded. -/
structure View where
  authPending : Bool
  reqDestroyed : Bool
  resDestroyed : Bool
  body : Option Body
  forwarded : List Bytes

def view (r : Request) : View := ⟨r.authPending, r.reqDestroyed, r.resDestroyed, r.body, r.forwarded⟩

def View.admitted : View := ⟨true, false, false, none, []⟩

def View.onData (maxBody : Nat) (v : View) (body : Body) (chunk : Bytes) : View :=
  if body.aborted then v
  else if maxBody < body.received + chunk.length then
    { v with
      reqDestroyed := true
      body := some { body with received := body.received + chunk.length, aborted := true } }
  else { v with body := some { body with chunks := body.chunks ++ [chunk], received := body.received + chunk.length } }

def View.onEnd (v : View) (body : Body) : View :=
  { v with
    body := some { body with ended := true }
    forwarded := if body.aborted ∨ v.resDestroyed then v.forwarded else v.forwarded ++ [body.chunks.flatten] }

def View.next (maxBody : Nat) (v : View) : RequestEvent → View
  | .authSettles outcome =>
    if v.authPending then { v with
      authPending := false
      body := if outcome = .granted ∧ ¬(v.reqDestroyed ∨ v.resDestroyed) then some ⟨[], 0, false, false⟩ else v.body }
    else v
  | .data chunk =>
    match v.body with
    | some body => if body.ended then v else v.onData maxBody body chunk
    | none => v
  | .ended =>
    match v.body with
    | some body => if body.ended then v else v.onEnd body
    | none => v
  | .aborted => { v with body := v.body.map fun body => { body with aborted := true } }
  | .finish | .close => v
  | .destroyRequest => { v with reqDestroyed := true }
  | .destroyResponse => { v with resDestroyed := true }

def replay (maxBody : Nat) (events : List RequestEvent) : View := events.foldl (View.next maxBody) .admitted

def chunks (events : List RequestEvent) : List Bytes := events.filterMap fun | .data chunk => some chunk | _ => none

/-- Nothing was settled and nothing was torn down. -/
def Waiting (events : List RequestEvent) : Prop :=
  (∀ outcome, .authSettles outcome ∉ events) ∧ .destroyRequest ∉ events ∧ .destroyResponse ∉ events

/-- The request was authorized while it waited, and its body has been coming in since. -/
def Receiving (maxBody : Nat) (events : List RequestEvent) (body : Body) : Prop :=
  ∃ before during, events = before ++ .authSettles .granted :: during ∧ Waiting before ∧ .ended ∉ during ∧
    (body.aborted = false → .aborted ∉ during ∧ body.chunks = chunks during ∧
      body.received = (chunks during).flatten.length ∧ body.received ≤ maxBody)

/-- The request was authorized while it waited, and then the whole of its body arrived. -/
def Uploaded (maxBody : Nat) (events : List RequestEvent) (bytes : Bytes) : Prop :=
  ∃ before during after, events = before ++ .authSettles .granted :: (during ++ .ended :: after) ∧ Waiting before ∧
    .ended ∉ during ∧ .aborted ∉ during ∧ .destroyResponse ∉ during ∧ bytes = (chunks during).flatten ∧
    bytes.length ≤ maxBody

structure Replayed (maxBody : Nat) (events : List RequestEvent) (v : View) : Prop where
  pending : v.authPending = true → (∀ outcome, .authSettles outcome ∉ events) ∧ v.body = none
  reqAlive : v.reqDestroyed = false → .destroyRequest ∉ events
  resAlive : v.resDestroyed = false → .destroyResponse ∉ events
  idle : v.body = none → v.forwarded = []
  receiving : ∀ body, v.body = some body → body.ended = false → v.forwarded = [] ∧ Receiving maxBody events body
  ended : ∀ body, v.body = some body → body.ended = true →
    v.forwarded = [] ∨ ∃ bytes, v.forwarded = [bytes] ∧ Uploaded maxBody events bytes

theorem chunks_append (first rest : List RequestEvent) : chunks (first ++ rest) = chunks first ++ chunks rest :=
  List.filterMap_append

theorem not_mem_snoc {α : Type} {a b : α} {l : List α} (h : a ∉ l) (hb : a ≠ b) : a ∉ l ++ [b] := by
  simp [h, hb]

theorem Receiving.bound {maxBody : Nat} {events : List RequestEvent} {body : Body} (h : Receiving maxBody events body)
    (hAlive : body.aborted = false) : body.received ≤ maxBody := by
  obtain ⟨before, during, -, -, -, hBody⟩ := h
  exact (hBody hAlive).2.2.2

theorem Receiving.snoc {maxBody : Nat} {events : List RequestEvent} {body body' : Body} {event : RequestEvent}
    (h : Receiving maxBody events body) (hEnd : event ≠ .ended)
    (hNext : body'.aborted = false → body.aborted = false ∧ event ≠ .aborted ∧
      body'.chunks = body.chunks ++ chunks [event] ∧
      body'.received = body.received + (chunks [event]).flatten.length ∧ body'.received ≤ maxBody) :
    Receiving maxBody (events ++ [event]) body' := by
  obtain ⟨before, during, rfl, hWaiting, hOpen, hBody⟩ := h
  refine ⟨before, during ++ [event], by simp, hWaiting, not_mem_snoc hOpen hEnd.symm, fun hAlive => ?_⟩
  obtain ⟨hAlive', hAbort, hChunks', hReceived', hBound⟩ := hNext hAlive
  obtain ⟨hNone, hChunks, hReceived, -⟩ := hBody hAlive'
  refine ⟨not_mem_snoc hNone hAbort.symm, ?_, ?_, hBound⟩
  · rw [hChunks', hChunks, chunks_append]
  · rw [hReceived', hReceived, chunks_append, List.flatten_append, List.length_append]

theorem Uploaded.snoc {maxBody : Nat} {events : List RequestEvent} {bytes : Bytes}
    (h : Uploaded maxBody events bytes) (event : RequestEvent) : Uploaded maxBody (events ++ [event]) bytes := by
  obtain ⟨before, during, after, rfl, hUpload⟩ := h
  exact ⟨before, during, after ++ [event], by simp, hUpload⟩

/-- A step that leaves the body and what was forwarded alone. -/
theorem Replayed.still {maxBody : Nat} {events : List RequestEvent} {v v' : View} {event : RequestEvent}
    (h : Replayed maxBody events v)
    (hPending : v'.authPending = true → v.authPending = true ∧ ∀ outcome, event ≠ .authSettles outcome)
    (hReq : v'.reqDestroyed = false → v.reqDestroyed = false ∧ event ≠ .destroyRequest)
    (hRes : v'.resDestroyed = false → v.resDestroyed = false ∧ event ≠ .destroyResponse)
    (hBody : v'.body = v.body) (hForwarded : v'.forwarded = v.forwarded)
    (hEvent : ∀ body, v.body = some body → body.ended = false → event ≠ .ended ∧
      (body.aborted = false → event ≠ .aborted ∧ chunks [event] = [])) :
    Replayed maxBody (events ++ [event]) v' := by
  constructor
  · intro hp
    obtain ⟨hWas, hOther⟩ := hPending hp
    obtain ⟨hNone, hIdle⟩ := h.pending hWas
    exact ⟨fun outcome => not_mem_snoc (hNone outcome) (hOther outcome).symm, hBody.trans hIdle⟩
  · intro hq
    obtain ⟨hWas, hOther⟩ := hReq hq
    exact not_mem_snoc (h.reqAlive hWas) hOther.symm
  · intro hr
    obtain ⟨hWas, hOther⟩ := hRes hr
    exact not_mem_snoc (h.resAlive hWas) hOther.symm
  · rw [hBody, hForwarded]
    exact h.idle
  · intro body hb hOpen
    rw [hBody] at hb
    obtain ⟨hNothing, hReceiving⟩ := h.receiving body hb hOpen
    obtain ⟨hEnd, hSame⟩ := hEvent body hb hOpen
    refine ⟨hForwarded.trans hNothing, hReceiving.snoc hEnd fun hAlive => ?_⟩
    obtain ⟨hAbort, hChunks⟩ := hSame hAlive
    rw [hChunks]
    exact ⟨hAlive, hAbort, by simp, by simp, hReceiving.bound hAlive⟩
  · intro body hb hEnded
    rw [hBody] at hb
    rw [hForwarded]
    rcases h.ended body hb hEnded with hNothing | ⟨bytes, hBytes, hUploaded⟩
    · exact .inl hNothing
    · exact .inr ⟨bytes, hBytes, hUploaded.snoc event⟩

section
variable {maxBody : Nat} {events : List RequestEvent} {v : View}

theorem Replayed.ignore (h : Replayed maxBody events v) {event : RequestEvent}
    (hPending : v.authPending = true → ∀ outcome, event ≠ .authSettles outcome)
    (hDestroy : event ≠ .destroyRequest ∧ event ≠ .destroyResponse)
    (hEvent : ∀ body, v.body = some body → body.ended = false → event ≠ .ended ∧
      (body.aborted = false → event ≠ .aborted ∧ chunks [event] = [])) : Replayed maxBody (events ++ [event]) v :=
  h.still (fun hp => ⟨hp, hPending hp⟩) (fun hq => ⟨hq, hDestroy.1⟩) (fun hr => ⟨hr, hDestroy.2⟩) rfl rfl hEvent

theorem Replayed.authSettles (h : Replayed maxBody events v) (outcome : RelayRequests.Authorization) :
    Replayed maxBody (events ++ [.authSettles outcome]) (v.next maxBody (.authSettles outcome)) := by
  simp only [View.next]
  split
  · rename_i hPending
    obtain ⟨hNone, hIdle⟩ := h.pending hPending
    by_cases hGranted : outcome = .granted ∧ ¬(v.reqDestroyed ∨ v.resDestroyed)
    · obtain ⟨rfl, hAlive⟩ := hGranted
      simp only [not_or, Bool.not_eq_true] at hAlive
      have hReq := h.reqAlive hAlive.1
      have hRes := h.resAlive hAlive.2
      rw [if_pos ⟨rfl, by simp [hAlive.1, hAlive.2]⟩]
      refine ⟨nofun, fun _ => not_mem_snoc hReq nofun, fun _ => not_mem_snoc hRes nofun, nofun, ?_, ?_⟩
      · intro body hb _
        cases hb
        exact ⟨h.idle hIdle, events, [], rfl, ⟨hNone, hReq, hRes⟩, List.not_mem_nil, fun _ => by simp [chunks]⟩
      · intro body hb hEnded
        cases hb
        cases hEnded
    · rw [if_neg hGranted]
      refine h.still nofun (fun hq => ⟨hq, nofun⟩) (fun hr => ⟨hr, nofun⟩) rfl rfl fun body hb _ => ?_
      rw [hIdle] at hb
      cases hb
  · rename_i hSettled
    exact h.ignore (fun hp => absurd hp hSettled) ⟨nofun, nofun⟩ fun _ _ _ => ⟨nofun, fun _ => ⟨nofun, rfl⟩⟩

theorem Replayed.data (h : Replayed maxBody events v) (chunk : Bytes) :
    Replayed maxBody (events ++ [.data chunk]) (v.next maxBody (.data chunk)) := by
  have hIgnored : (∀ body, v.body = some body → body.ended = false → body.aborted = true) →
      Replayed maxBody (events ++ [.data chunk]) v := by
    intro hClosed
    refine h.ignore (fun _ => nofun) ⟨nofun, nofun⟩ fun body hb hOpen => ⟨nofun, fun hAlive => ?_⟩
    rw [hClosed body hb hOpen] at hAlive
    cases hAlive
  simp only [View.next]
  split
  · rename_i body hBody
    split
    · rename_i hEnded
      refine hIgnored fun body' hb hOpen => ?_
      rw [hBody] at hb
      cases hb
      rw [hEnded] at hOpen
      cases hOpen
    · rename_i hOpen
      have hOpen : body.ended = false := by simpa using hOpen
      obtain ⟨hNothing, hReceiving⟩ := h.receiving body hBody hOpen
      have hSettled : v.authPending = true → False := by
        intro hp
        rw [(h.pending hp).2] at hBody
        cases hBody
      unfold View.onData
      split
      · rename_i hAborted
        refine hIgnored fun body' hb _ => ?_
        rw [hBody] at hb
        cases hb
        exact hAborted
      rename_i hAlive
      have hAlive : body.aborted = false := by simpa using hAlive
      split
      · refine ⟨fun hp => (hSettled hp).elim, nofun, fun hr => not_mem_snoc (h.resAlive hr) nofun, nofun, ?_, ?_⟩
        · intro body' hb _
          cases hb
          exact ⟨hNothing, hReceiving.snoc nofun nofun⟩
        · intro body' hb hEnded
          cases hb
          rw [hOpen] at hEnded
          cases hEnded
      · rename_i hFits
        refine ⟨fun hp => (hSettled hp).elim, fun hq => not_mem_snoc (h.reqAlive hq) nofun,
          fun hr => not_mem_snoc (h.resAlive hr) nofun, nofun, ?_, ?_⟩
        · intro body' hb _
          cases hb
          refine ⟨hNothing, hReceiving.snoc nofun fun _ => ⟨hAlive, nofun, rfl, by simp [chunks], ?_⟩⟩
          simp only
          omega
        · intro body' hb hEnded
          cases hb
          rw [hOpen] at hEnded
          cases hEnded
  · rename_i hIdle
    refine hIgnored fun body hb _ => ?_
    rw [hIdle] at hb
    cases hb

theorem Replayed.end (h : Replayed maxBody events v) :
    Replayed maxBody (events ++ [.ended]) (v.next maxBody .ended) := by
  have hIgnored : (∀ body, v.body = some body → body.ended = true) → Replayed maxBody (events ++ [.ended]) v := by
    intro hClosed
    refine h.ignore (fun _ => nofun) ⟨nofun, nofun⟩ fun body hb hOpen => ?_
    rw [hClosed body hb] at hOpen
    cases hOpen
  simp only [View.next]
  split
  · rename_i body hBody
    split
    · rename_i hEnded
      refine hIgnored fun body' hb => ?_
      rw [hBody] at hb
      cases hb
      exact hEnded
    · rename_i hOpen
      obtain ⟨hNothing, before, during, hEvents, hWaiting, hDuring, hReceived⟩ :=
        h.receiving body hBody (by simpa using hOpen)
      refine ⟨fun hp => ?_, fun hq => not_mem_snoc (h.reqAlive hq) nofun,
        fun hr => not_mem_snoc (h.resAlive hr) nofun, nofun, ?_, fun _ _ _ => ?_⟩
      · rw [(h.pending hp).2] at hBody
        cases hBody
      · intro body' hb hOpen'
        cases hb
        cases hOpen'
      · simp only [View.onEnd]
        split
        · exact .inl hNothing
        · rename_i hAlive
          simp only [not_or, Bool.not_eq_true] at hAlive
          obtain ⟨hAbort, hChunks, hLength, hBound⟩ := hReceived hAlive.1
          have hRes : .destroyResponse ∉ during := by
            have hNone := h.resAlive hAlive.2
            rw [hEvents] at hNone
            intro hMem
            exact hNone (List.mem_append_right _ (List.mem_cons_of_mem _ hMem))
          rw [hNothing, hChunks]
          refine .inr ⟨_, rfl, before, during, [], ?_, hWaiting, hDuring, hAbort, hRes, rfl, ?_⟩
          · rw [hEvents]
            simp
          · rw [← hLength]
            exact hBound
  · rename_i hIdle
    refine hIgnored fun body hb => ?_
    rw [hIdle] at hb
    cases hb

theorem Replayed.abort (h : Replayed maxBody events v) :
    Replayed maxBody (events ++ [.aborted]) (v.next maxBody .aborted) := by
  simp only [View.next]
  refine ⟨fun hp => ?_, fun hq => not_mem_snoc (h.reqAlive hq) nofun, fun hr => not_mem_snoc (h.resAlive hr) nofun,
    fun hb => h.idle (by simpa using hb), fun body hb hOpen => ?_, fun body hb hEnded => ?_⟩
  · obtain ⟨hNone, hIdle⟩ := h.pending hp
    exact ⟨fun outcome => not_mem_snoc (hNone outcome) nofun, by simp [hIdle]⟩
  · obtain ⟨before, hBody, rfl⟩ := Option.map_eq_some_iff.mp hb
    obtain ⟨hNothing, hReceiving⟩ := h.receiving before hBody hOpen
    exact ⟨hNothing, hReceiving.snoc nofun nofun⟩
  · obtain ⟨before, hBody, rfl⟩ := Option.map_eq_some_iff.mp hb
    rcases h.ended before hBody hEnded with hNothing | ⟨bytes, hBytes, hUploaded⟩
    · exact .inl hNothing
    · exact .inr ⟨bytes, hBytes, hUploaded.snoc _⟩

theorem Replayed.next (h : Replayed maxBody events v) (event : RequestEvent) :
    Replayed maxBody (events ++ [event]) (v.next maxBody event) := by
  cases event with
  | authSettles outcome => exact h.authSettles outcome
  | data chunk => exact h.data chunk
  | ended => exact h.end
  | aborted => exact h.abort
  | finish => exact h.ignore (fun _ => nofun) ⟨nofun, nofun⟩ fun _ _ _ => ⟨nofun, fun _ => ⟨nofun, rfl⟩⟩
  | close => exact h.ignore (fun _ => nofun) ⟨nofun, nofun⟩ fun _ _ _ => ⟨nofun, fun _ => ⟨nofun, rfl⟩⟩
  | destroyRequest =>
    exact h.still (fun hp => ⟨hp, nofun⟩) nofun (fun hr => ⟨hr, nofun⟩) rfl rfl fun _ _ _ =>
      ⟨nofun, fun _ => ⟨nofun, rfl⟩⟩
  | destroyResponse =>
    exact h.still (fun hp => ⟨hp, nofun⟩) (fun hq => ⟨hq, nofun⟩) nofun rfl rfl fun _ _ _ =>
      ⟨nofun, fun _ => ⟨nofun, rfl⟩⟩

theorem replay_snoc (maxBody : Nat) (events : List RequestEvent) (event : RequestEvent) :
    replay maxBody (events ++ [event]) = (replay maxBody events).next maxBody event := by
  rw [replay, List.foldl_append]
  rfl

theorem replayed (maxBody : Nat) (events : List RequestEvent) : Replayed maxBody events (replay maxBody events) := by
  induction events using List.reverseRecOn with
  | nil =>
    exact ⟨fun _ => ⟨fun _ => List.not_mem_nil, rfl⟩, fun _ => List.not_mem_nil, fun _ => List.not_mem_nil,
      fun _ => rfl, nofun, nofun⟩
  | append_singleton events event ih =>
    rw [replay_snoc]
    exact ih.next event

/-- Whatever the order of its events, a request forwards at most one body, and only one that it uploaded. -/
theorem replay_forwarded (maxBody : Nat) (events : List RequestEvent) :
    (replay maxBody events).forwarded = [] ∨
      ∃ bytes, (replay maxBody events).forwarded = [bytes] ∧ Uploaded maxBody events bytes := by
  have h := replayed maxBody events
  cases hBody : (replay maxBody events).body with
  | none => exact .inl (h.idle hBody)
  | some body =>
    cases hEnded : body.ended with
    | false => exact .inl (h.receiving body hBody hEnded).1
    | true => exact h.ended body hBody hEnded

end

/-! ## The events of a request in the process -/

/-- The requests after a step of request `i` that leaves it with these variables. -/
def Becomes (s t : RelayRequests.Server) (i : Nat) (v : View) : Prop :=
  ∃ r, t.requests = s.requests.set i r ∧ view r = v

theorem becomes_self {s : RelayRequests.Server} {i : Nat} {r : Request} (hr : s.requests[i]? = some r) :
    Becomes s s i (view r) := by
  refine ⟨r, ?_, rfl⟩
  obtain ⟨hi, rfl⟩ := List.getElem?_eq_some_iff.mp hr
  simp

theorem becomes_keep (s : RelayRequests.Server) (i : Nat) (r : Request) :
    Becomes s (RelayRequests.keep s i r) i (view r) := ⟨r, rfl, rfl⟩

theorem becomes_releaseSlot (s : RelayRequests.Server) (i : Nat) (r : Request) :
    Becomes s (RelayRequests.releaseSlot s i r) i (view r) := by
  unfold RelayRequests.releaseSlot
  split
  · exact ⟨_, rfl, rfl⟩
  split
  · exact ⟨_, rfl, rfl⟩
  · unfold RelayRequests.finishDrain
    split
    · exact ⟨_, rfl, rfl⟩
    · exact ⟨_, rfl, rfl⟩

theorem onRequest_becomes (cfg : RelayRequests.Config) {s : RelayRequests.Server} {i : Nat} {r : Request}
    (hr : s.requests[i]? = some r) (event : RequestEvent) :
    Becomes s (RelayRequests.onRequest cfg s i r event) i ((view r).next cfg.maxBody event) := by
  cases event with
  | authSettles outcome =>
    cases hPending : r.authPending with
    | false =>
      have hView : (view r).authPending = false := hPending
      simp only [RelayRequests.onRequest, View.next, hPending, hView, Bool.false_eq_true, if_false]
      exact becomes_self hr
    | true =>
      have hView : (view r).authPending = true := hPending
      simp only [RelayRequests.onRequest, View.next, hPending, hView, if_true, RelayRequests.authSettles]
      split
      · exact becomes_releaseSlot s i (RelayRequests.settledRequest r outcome)
      · exact becomes_keep s i (RelayRequests.settledRequest r outcome)
  | data chunk =>
    cases hBody : r.body with
    | none =>
      have hView : (view r).body = none := hBody
      simp only [RelayRequests.onRequest, View.next, hBody, hView]
      exact becomes_self hr
    | some body =>
      have hView : (view r).body = some body := hBody
      simp only [RelayRequests.onRequest, View.next, hBody, hView, RelayRequests.onData, View.onData]
      split_ifs
      · exact becomes_self hr
      · exact becomes_self hr
      · exact becomes_releaseSlot s i _
      · exact becomes_keep s i _
  | ended =>
    cases hBody : r.body with
    | none =>
      have hView : (view r).body = none := hBody
      simp only [RelayRequests.onRequest, View.next, hBody, hView]
      exact becomes_self hr
    | some body =>
      have hView : (view r).body = some body ∧ (view r).resDestroyed = r.resDestroyed := ⟨hBody, rfl⟩
      simp only [RelayRequests.onRequest, View.next, hBody, hView, RelayRequests.onEnd, View.onEnd]
      split_ifs
      · exact becomes_self hr
      · exact becomes_keep s i _
      · exact becomes_keep s i _
  | aborted =>
    cases hBody : r.body with
    | none =>
      have hView : (view r).body = none := hBody
      have hSame := becomes_self hr
      simp only [RelayRequests.onRequest, View.next, hBody, hView]
      rwa [view, hBody] at hSame
    | some body =>
      have hView : (view r).body = some body := hBody
      simp only [RelayRequests.onRequest, View.next, hBody, hView]
      exact becomes_releaseSlot s i { r with body := some { body with aborted := true } }
  | finish => exact becomes_releaseSlot s i { r with finished := true }
  | close => exact becomes_releaseSlot s i { r with closed := true }
  | destroyRequest => exact becomes_keep s i { r with reqDestroyed := true }
  | destroyResponse => exact becomes_keep s i { r with resDestroyed := true }

theorem View.next_forwarded (maxBody : Nat) (v : View) (event : RequestEvent) :
    (v.next maxBody event).forwarded = v.forwarded ∨
      ∃ body, (v.next maxBody event).forwarded = v.forwarded ++ [body] := by
  cases event with
  | authSettles outcome =>
    simp only [View.next]
    split <;> exact .inl rfl
  | data chunk =>
    simp only [View.next, View.onData]
    split
    · split
      · exact .inl rfl
      split
      · exact .inl rfl
      split <;> exact .inl rfl
    · exact .inl rfl
  | ended =>
    simp only [View.next, View.onEnd]
    split
    · split
      · exact .inl rfl
      simp only
      split
      · exact .inl rfl
      · exact .inr ⟨_, rfl⟩
    · exact .inl rfl
  | _ => exact .inl rfl

/-! ## One step of the process -/

/-- What a step does to the requests, and what it hands to the gateway. -/
inductive Step (config : Config) (s t : Process) : Prop
  | quiet (hRequests : t.requests.requests = s.requests.requests) (hClients : t.clients = s.clients)
      (hHistory : t.history = s.history) (hGateway : t.gateway = s.gateway) (hDispatched : t.dispatched = s.dispatched)
  | admitted (ipBucket : Str) (client : Client)
      (hRequests : t.requests.requests = s.requests.requests ++ [RelayRequests.admitted ipBucket])
      (hClients : t.clients = s.clients ++ [client]) (hHistory : t.history = s.history)
      (hGateway : t.gateway = s.gateway) (hDispatched : t.dispatched = s.dispatched)
  | fetch (event : GatewayFlight.Event) (hOther : ∀ destroyed body, event ≠ .forward destroyed body)
      (hRequests : t.requests.requests = s.requests.requests) (hClients : t.clients = s.clients)
      (hHistory : t.history = s.history)
      (hGateway : GatewayFlight.next config.gateway s.gateway event = some t.gateway)
      (hDispatched : t.dispatched = s.dispatched)
      (hExits : t.requests.exitCode = none → t.gateway.crashed = false)
  | request (i : Nat) (event : RequestEvent) (before after : Request) (hBefore : s.requests.requests[i]? = some before)
      (hAfter : view after = (view before).next config.requests.maxBody event)
      (hRequests : t.requests.requests = s.requests.requests.set i after) (hClients : t.clients = s.clients)
      (hHistory : t.history = Function.update s.history i (s.history i ++ [event]))
      (hSent : after.forwarded = before.forwarded ∧ t.gateway = s.gateway ∧ t.dispatched = s.dispatched ∨
        ∃ body destroyed, after.forwarded = before.forwarded ++ [body] ∧
          GatewayFlight.next config.gateway s.gateway (.forward destroyed body) = some t.gateway ∧
          t.dispatched = s.dispatched ++ [⟨i, s.gateway.flightCount, forwardToGateway config body⟩])

section
variable {sha256 : Bytes → Digest} {config : Config} {s t : Process}

theorem arrive_requests (cfg : RelayRequests.Config) (s : RelayRequests.Server) (ipBucket : Str) (limited : Bool) :
    (RelayRequests.arrive cfg s ipBucket limited).requests = s.requests ∨
      (RelayRequests.arrive cfg s ipBucket limited).requests = s.requests ++ [RelayRequests.admitted ipBucket] := by
  unfold RelayRequests.arrive
  simp only
  split
  · exact .inl rfl
  split
  · exact .inl rfl
  split
  · exact .inl rfl
  · exact .inr rfl

theorem onRequest_step {i : Nat} {event : RequestEvent} (h : onRequest config s i event = some t) :
    Step config s t := by
  obtain ⟨before, hBefore, h⟩ := Option.bind_eq_some_iff.mp h
  obtain ⟨requests, hNext, h⟩ := Option.bind_eq_some_iff.mp h
  obtain ⟨after, hAfter, h⟩ := Option.bind_eq_some_iff.mp h
  have hRequests : requests = RelayRequests.onRequest config.requests s.requests i before event := by
    cases (RelayRequests.next_step hNext).2 with
    | request _ _ r hr =>
      rw [hBefore] at hr
      cases hr
      rfl
  obtain ⟨r, hSet, hView⟩ := onRequest_becomes config.requests hBefore event
  have hi : i < s.requests.requests.length := (List.getElem?_eq_some_iff.mp hBefore).1
  rw [← hRequests] at hSet
  rw [hSet, List.getElem?_set_self hi] at hAfter
  cases hAfter
  have hForwarded : after.forwarded = before.forwarded ∨ ∃ body, after.forwarded = before.forwarded ++ [body] := by
    have hNext := View.next_forwarded config.requests.maxBody (view before) event
    rwa [← hView] at hNext
  rcases hForwarded with hSame | ⟨body, hMore⟩
  · have hNone : handedOver before after = none := by simp [handedOver, hSame]
    simp only [hNone] at h
    cases h
    exact .request i event before after hBefore hView hSet rfl rfl (.inl ⟨hSame, rfl, rfl⟩)
  · have hBody : handedOver before after = some body := by simp [handedOver, hMore]
    simp only [hBody, dispatch] at h
    obtain ⟨gateway, hGateway, rfl⟩ := Option.map_eq_some_iff.mp h
    exact .request i event before after hBefore hView hSet rfl rfl
      (.inr ⟨body, after.resDestroyed, hMore, hGateway, rfl⟩)

theorem arrive_step {client : Client} {limited : Bool} (h : arrive sha256 config s client limited = some t) :
    Step config s t := by
  unfold arrive at h
  split at h
  · cases h
  split at h
  · cases h
    exact .quiet rfl rfl rfl rfl rfl
  split at h
  · cases h
    exact .quiet rfl rfl rfl rfl rfl
  obtain ⟨u, hProcess, rfl⟩ := Option.map_eq_some_iff.mp h
  obtain ⟨requests, hNext, rfl⟩ := Option.map_eq_some_iff.mp hProcess
  have hArrive : requests = RelayRequests.arrive config.requests s.requests (clientIpKey config client) limited := by
    cases (RelayRequests.next_step hNext).2 with
    | arrive _ _ => rfl
  rcases arrive_requests config.requests s.requests (clientIpKey config client) limited with hSame | hMore
  · rw [← hArrive] at hSame
    exact .quiet hSame (by simp [hSame]) rfl rfl rfl
  · rw [← hArrive] at hMore
    exact .admitted (clientIpKey config client) client hMore (by simp [hMore]) rfl rfl rfl

theorem finishDrain_requests (s : RelayRequests.Server) : (RelayRequests.finishDrain s).requests = s.requests := by
  unfold RelayRequests.finishDrain
  split <;> rfl

/-- The signals of a shutdown leave every request as it is. -/
theorem onProcess_step {event : RelayRequests.Event} (h : onProcess config s event = some t)
    (hArrive : ∀ ipBucket limited, event ≠ .arrive ipBucket limited) (hRequest : ∀ i e, event ≠ .request i e) :
    Step config s t := by
  obtain ⟨requests, hNext, rfl⟩ := Option.map_eq_some_iff.mp h
  have hKeeps : requests.requests = s.requests.requests := by
    cases (RelayRequests.next_step hNext).2 with
    | arrive ipBucket limited => exact absurd rfl (hArrive ipBucket limited)
    | request i e r hr => exact absurd rfl (hRequest i e)
    | beginShutdown =>
      unfold RelayRequests.beginShutdown
      split <;> rfl
    | httpClosed => exact finishDrain_requests _
    | shutdownTimer => rfl
  exact .quiet hKeeps rfl rfl rfl rfl

@[simp] theorem uncaughtException_requests (s : Process) :
    (uncaughtException s).requests.requests = s.requests.requests := by
  unfold uncaughtException
  split <;> rfl

@[simp] theorem uncaughtException_gateway (s : Process) : (uncaughtException s).gateway = s.gateway := by
  unfold uncaughtException
  split <;> rfl

@[simp] theorem uncaughtException_clients (s : Process) : (uncaughtException s).clients = s.clients := by
  unfold uncaughtException
  split <;> rfl

@[simp] theorem uncaughtException_history (s : Process) : (uncaughtException s).history = s.history := by
  unfold uncaughtException
  split <;> rfl

@[simp] theorem uncaughtException_dispatched (s : Process) : (uncaughtException s).dispatched = s.dispatched := by
  unfold uncaughtException
  split <;> rfl

theorem uncaughtException_exits {s : Process} (h : (uncaughtException s).requests.exitCode = none) :
    s.gateway.crashed = false := by
  unfold uncaughtException at h
  split at h
  · cases h
  · rename_i hUp
    exact Bool.not_eq_true _ ▸ hUp

theorem uncaughtException_of_up {s : Process} (h : s.gateway.crashed = false) : uncaughtException s = s :=
  if_neg (by simp [h])

theorem onGateway_step {event : GatewayFlight.Event} (h : onGateway config s event = some t)
    (hOther : ∀ destroyed body, event ≠ .forward destroyed body) : Step config s t := by
  unfold onGateway at h
  split at h
  · cases h
  · obtain ⟨gateway, hGateway, rfl⟩ := Option.map_eq_some_iff.mp h
    exact .fetch event hOther (by simp) (by simp) (by simp) (by simpa using hGateway) (by simp)
      fun hUp => (uncaughtException_gateway _).symm ▸ uncaughtException_exits hUp

theorem next_step {event : Event} (h : next sha256 config s event = some t) : Step config s t := by
  cases event with
  | arrive client limited => exact arrive_step h
  | request i event => exact onRequest_step h
  | gateway event =>
    cases event with
    | forward destroyed body => cases h
    | _ => exact onGateway_step h nofun
  | beginShutdown => exact onProcess_step h nofun nofun
  | httpClosed => exact onProcess_step h nofun nofun
  | shutdownTimer => exact onProcess_step h nofun nofun

/-- A process that has exited does nothing more. -/
theorem next_up {event : Event} (h : next sha256 config s event = some t) : s.requests.exitCode = none := by
  have hProcess : ∀ event, onProcess config s event = some t → s.requests.exitCode = none := by
    intro event hNext
    obtain ⟨requests, hNext, -⟩ := Option.map_eq_some_iff.mp hNext
    exact (RelayRequests.next_step hNext).1
  cases event with
  | arrive client limited =>
    simp only [next, arrive] at h
    split at h
    · cases h
    · simpa using ‹¬s.requests.exitCode.isSome = true›
  | request i event =>
    obtain ⟨before, -, h⟩ := Option.bind_eq_some_iff.mp h
    obtain ⟨requests, hNext, -⟩ := Option.bind_eq_some_iff.mp h
    exact (RelayRequests.next_step hNext).1
  | gateway event =>
    have hFetch : onGateway config s event = some t → s.requests.exitCode = none := by
      intro hNext
      unfold onGateway at hNext
      split at hNext
      · cases hNext
      · simpa using ‹¬s.requests.exitCode.isSome = true›
    cases event with
    | forward destroyed body => cases h
    | _ => exact hFetch h
  | beginShutdown => exact hProcess _ h
  | httpClosed => exact hProcess _ h
  | shutdownTimer => exact hProcess _ h

end

/-! ## Every run of the process -/

/-- Each admitted request is where its own events have brought it. -/
structure Tracked (maxBody : Nat) (requests : List Request) (history : Nat → List RequestEvent) : Prop where
  replayed : ∀ i r, requests[i]? = some r → view r = replay maxBody (history i)
  fresh : ∀ i, requests.length ≤ i → history i = []

/-- The fetches of the relay route are those that were dispatched, each for one body. -/
structure Fetched (gateway : GatewayFlight.Server) (dispatched : List Outbound) : Prop where
  started : ∀ d ∈ dispatched, d.flight < gateway.flightCount ∧
    ∃ sent, course (gateway.flights d.flight) = (.relay, sent) ∧ (sent = none ∨ sent = some d.sent.body)
  owned : ∀ f, f < gateway.flightCount → (gateway.flights f).route = .relay → ∃ d ∈ dispatched, d.flight = f
  unique : (dispatched.map Outbound.flight).Nodup

/-- What was sent for request `i`. -/
def sentFor (dispatched : List Outbound) (i : Nat) : List GatewayRequest :=
  (dispatched.filter fun d => d.request = i).map Outbound.sent

structure Inv (config : Config) (s : Process) : Prop where
  requests : Tracked config.requests.maxBody s.requests.requests s.history
  clients : s.clients.length = s.requests.requests.length
  sent : ∀ i, sentFor s.dispatched i =
    (replay config.requests.maxBody (s.history i)).forwarded.map (forwardToGateway config)
  fetches : Fetched s.gateway s.dispatched

theorem Tracked.admitted {maxBody : Nat} {requests : List Request} {history : Nat → List RequestEvent}
    (h : Tracked maxBody requests history) (ipBucket : Str) :
    Tracked maxBody (requests ++ [RelayRequests.admitted ipBucket]) history := by
  refine ⟨fun i r hr => ?_, fun i hi => h.fresh i ?_⟩
  · rw [List.getElem?_append] at hr
    split at hr
    · exact h.replayed i r hr
    · rename_i hNew
      rw [h.fresh i (by omega), List.mem_singleton.mp (List.mem_of_getElem? hr)]
      rfl
  · rw [List.length_append] at hi
    omega

theorem Tracked.event {maxBody : Nat} {requests : List Request} {history : Nat → List RequestEvent}
    (h : Tracked maxBody requests history) {i : Nat} {before after : Request} {event : RequestEvent}
    (hBefore : requests[i]? = some before) (hAfter : view after = (view before).next maxBody event) :
    Tracked maxBody (requests.set i after) (Function.update history i (history i ++ [event])) := by
  have hi : i < requests.length := (List.getElem?_eq_some_iff.mp hBefore).1
  constructor
  · intro j r hr
    rcases eq_or_ne j i with rfl | hj
    · rw [List.getElem?_set_self hi] at hr
      cases hr
      rw [Function.update_self, replay_snoc, ← h.replayed j before hBefore, hAfter]
    · rw [List.getElem?_set_ne hj.symm] at hr
      rw [Function.update_of_ne hj]
      exact h.replayed j r hr
  · intro j hj
    rw [List.length_set] at hj
    rw [Function.update_of_ne (by omega)]
    exact h.fresh j hj

theorem Fetched.next {cfg : GatewayFlight.Config} {gateway gateway' : GatewayFlight.Server} {dispatched : List Outbound}
    {event : GatewayFlight.Event} (h : Fetched gateway dispatched)
    (hNext : GatewayFlight.next cfg gateway event = some gateway')
    (hOther : ∀ destroyed body, event ≠ .forward destroyed body) : Fetched gateway' dispatched := by
  have hStarts := GatewayFlight.next_starts hNext hOther
  have hCount : gateway.flightCount ≤ gateway'.flightCount := by omega
  refine ⟨fun d hd => ?_, fun f hf hRoute => ?_, h.unique⟩
  · obtain ⟨hStarted, hCourse⟩ := h.started d hd
    rw [GatewayFlight.next_course hNext hStarted]
    exact ⟨by omega, hCourse⟩
  · by_cases hOld : f < gateway.flightCount
    · have hSame := (Prod.mk.inj (GatewayFlight.next_course hNext hOld)).1
      exact h.owned f hOld (hSame ▸ hRoute)
    · rcases hStarts with hSame | ⟨hMore, hConfig⟩
      · omega
      · have hNew : f = gateway.flightCount := by omega
        rw [hNew, hConfig] at hRoute
        cases hRoute

theorem Fetched.forward {cfg : GatewayFlight.Config} {gateway gateway' : GatewayFlight.Server}
    {dispatched : List Outbound} (h : Fetched gateway dispatched) {destroyed : Bool} {body : Bytes}
    (hNext : GatewayFlight.next cfg gateway (.forward destroyed body) = some gateway') (i : Nat) {sent : GatewayRequest}
    (hBody : sent.body = body) : Fetched gateway' (dispatched ++ [⟨i, gateway.flightCount, sent⟩]) := by
  have hKeeps := fun f (hf : f < gateway.flightCount) => GatewayFlight.next_course hNext hf
  obtain ⟨hCount, hCourse⟩ : gateway'.flightCount = gateway.flightCount + 1 ∧
      ∃ sent, course (gateway'.flights gateway.flightCount) = (.relay, sent) ∧ (sent = none ∨ sent = some body) := by
    cases GatewayFlight.next_step hNext with
    | forward _ _ =>
      exact GatewayFlight.proxyGatewayRequest_course (GatewayFlight.arrive gateway destroyed) .relay body
        gateway.callerCount
  constructor
  · intro d hd
    rcases List.mem_append.mp hd with hOld | hNew
    · obtain ⟨hStarted, hCourse⟩ := h.started d hOld
      rw [hKeeps d.flight hStarted]
      exact ⟨by omega, hCourse⟩
    · cases List.mem_singleton.mp hNew
      rw [hBody]
      exact ⟨by simp only; omega, hCourse⟩
  · intro f hf hRoute
    by_cases hOld : f < gateway.flightCount
    · have hSame := (Prod.mk.inj (hKeeps f hOld)).1
      obtain ⟨d, hd, hFlight⟩ := h.owned f hOld (hSame ▸ hRoute)
      exact ⟨d, List.mem_append_left _ hd, hFlight⟩
    · exact ⟨_, List.mem_append_right _ List.mem_cons_self, by simp only; omega⟩
  · rw [List.map_append, List.nodup_append]
    refine ⟨h.unique, List.nodup_singleton _, fun f hf g hg hEq => ?_⟩
    obtain ⟨d, hd, rfl⟩ := List.mem_map.mp hf
    have hStarted := (h.started d hd).1
    rw [hEq, List.mem_singleton.mp hg] at hStarted
    exact lt_irrefl _ hStarted

theorem sentFor_snoc (dispatched : List Outbound) (d : Outbound) (i : Nat) :
    sentFor (dispatched ++ [d]) i = sentFor dispatched i ++ if d.request = i then [d.sent] else [] := by
  simp only [sentFor, List.filter_append, List.map_append]
  split
  · rename_i hOwn
    simp [hOwn]
  · rename_i hOther
    simp [hOther]

section
variable {sha256 : Bytes → Digest} {config : Config} {s t : Process}

theorem Inv.step (h : Inv config s) (hStep : Step config s t) : Inv config t := by
  cases hStep with
  | quiet hRequests hClients hHistory hGateway hDispatched =>
    constructor
    · rw [hRequests, hHistory]
      exact h.requests
    · rw [hRequests, hClients]
      exact h.clients
    · rw [hHistory, hDispatched]
      exact h.sent
    · rw [hGateway, hDispatched]
      exact h.fetches
  | admitted ipBucket client hRequests hClients hHistory hGateway hDispatched =>
    constructor
    · rw [hRequests, hHistory]
      exact h.requests.admitted ipBucket
    · rw [hRequests, hClients, List.length_append, List.length_append, h.clients]
      rfl
    · rw [hHistory, hDispatched]
      exact h.sent
    · rw [hGateway, hDispatched]
      exact h.fetches
  | fetch event hOther hRequests hClients hHistory hGateway hDispatched hExits =>
    constructor
    · rw [hRequests, hHistory]
      exact h.requests
    · rw [hRequests, hClients]
      exact h.clients
    · rw [hHistory, hDispatched]
      exact h.sent
    · rw [hDispatched]
      exact h.fetches.next hGateway hOther
  | request i event before after hBefore hAfter hRequests hClients hHistory hSent =>
    have hOwn : (replay config.requests.maxBody (s.history i)).forwarded = before.forwarded :=
      congrArg View.forwarded (h.requests.replayed i before hBefore).symm
    have hNow : (replay config.requests.maxBody (t.history i)).forwarded = after.forwarded := by
      rw [hHistory, Function.update_self, replay_snoc, ← h.requests.replayed i before hBefore, ← hAfter]
      rfl
    have hOthers : ∀ j, j ≠ i → t.history j = s.history j := fun j hj => by rw [hHistory, Function.update_of_ne hj]
    constructor
    · rw [hRequests, hHistory]
      exact h.requests.event hBefore hAfter
    · rw [hRequests, hClients, List.length_set]
      exact h.clients
    · intro j
      rcases hSent with ⟨hSame, -, hDispatched⟩ | ⟨body, destroyed, hMore, -, hDispatched⟩
      · rw [hDispatched, h.sent j]
        rcases eq_or_ne j i with rfl | hj
        · rw [hNow, hSame, hOwn]
        · rw [hOthers j hj]
      · rw [hDispatched, sentFor_snoc, h.sent j]
        rcases eq_or_ne j i with rfl | hj
        · rw [hNow, hMore, hOwn, if_pos rfl, List.map_append]
          rfl
        · rw [hOthers j hj, if_neg hj.symm, List.append_nil]
    · rcases hSent with ⟨-, hGateway, hDispatched⟩ | ⟨body, destroyed, -, hGateway, hDispatched⟩
      · rw [hGateway, hDispatched]
        exact h.fetches
      · rw [hDispatched]
        exact h.fetches.forward hGateway i rfl

theorem relay_dispatch_invariant (h : (relay sha256 config).Reachable s) : Inv config s := by
  apply System.Reachable.invariant (Inv config) _ (fun _ _ _ hInv hNext => hInv.step (next_step hNext)) h
  refine ⟨⟨fun i r hr => ?_, fun _ _ => rfl⟩, rfl, fun _ => rfl, ⟨nofun, nofun, List.nodup_nil⟩⟩
  simp [relay, RelayRequests.Server.empty] at hr

/-- While the process runs, no listener of a fetch has thrown. -/
theorem relay_up (h : (relay sha256 config).Reachable s) : s.requests.exitCode = none → s.gateway.crashed = false := by
  refine System.Reachable.invariant (fun s : Process => s.requests.exitCode = none → s.gateway.crashed = false)
    (fun _ => rfl) (fun s event t hInv hNext => ?_) h
  have hUp := hInv (next_up hNext)
  cases next_step hNext with
  | quiet hRequests hClients hHistory hGateway hDispatched => exact fun _ => hGateway ▸ hUp
  | admitted ipBucket client hRequests hClients hHistory hGateway hDispatched => exact fun _ => hGateway ▸ hUp
  | fetch event hOther hRequests hClients hHistory hGateway hDispatched hExits => exact hExits
  | request i event before after hBefore hAfter hRequests hClients hHistory hSent =>
    rcases hSent with ⟨-, hGateway, -⟩ | ⟨body, destroyed, -, hGateway, -⟩
    · exact fun _ => hGateway ▸ hUp
    · exact fun _ => GatewayFlight.forward_up hGateway

/-- The one request that was sent for a dispatched body. -/
theorem Inv.sentFor_eq (h : Inv config s) {d : Outbound} (hd : d ∈ s.dispatched) :
    sentFor s.dispatched d.request = [d.sent] ∧ d.sent = forwardToGateway config d.sent.body ∧
      Uploaded config.requests.maxBody (s.history d.request) d.sent.body := by
  have hMem : d.sent ∈ sentFor s.dispatched d.request :=
    List.mem_map_of_mem (List.mem_filter.mpr ⟨hd, by simp⟩)
  have hSent := h.sent d.request
  rcases replay_forwarded config.requests.maxBody (s.history d.request) with hNone | ⟨bytes, hOne, hUploaded⟩
  · rw [hSent, hNone] at hMem
    cases hMem
  · rw [hOne, List.map_singleton] at hSent
    rw [hSent] at hMem
    have hOwn := List.mem_singleton.mp hMem
    rw [hSent, hOwn]
    exact ⟨rfl, rfl, hUploaded⟩

theorem Inv.sentFor_length (h : Inv config s) (i : Nat) : (sentFor s.dispatched i).length ≤ 1 := by
  rw [h.sent i, List.length_map]
  rcases replay_forwarded config.requests.maxBody (s.history i) with hNone | ⟨bytes, hOne, -⟩
  · rw [hNone]
    exact Nat.zero_le 1
  · rw [hOne]
    exact le_rfl

theorem Inv.requests_nodup (h : Inv config s) : (s.dispatched.map Outbound.request).Nodup := by
  rw [List.nodup_iff_count_le_one]
  intro i
  calc (s.dispatched.map Outbound.request).count i
      = (s.dispatched.filter fun d => d.request = i).length := by
        rw [List.count, List.countP_map, List.countP_eq_length_filter]
        rfl
    _ = (sentFor s.dispatched i).length := (List.length_map ..).symm
    _ ≤ 1 := h.sentFor_length i

theorem Inv.request_lt (h : Inv config s) {d : Outbound} (hd : d ∈ s.dispatched) : d.request < s.clients.length := by
  rw [h.clients]
  by_contra hUnknown
  obtain ⟨before, during, after, hEvents, -⟩ := (h.sentFor_eq hd).2.2
  rw [h.requests.fresh d.request (by omega)] at hEvents
  simp at hEvents

/-- For each client request at most one request leaves for the gateway, after the body was authorized and uploaded, and
the body is all that it says about the client. -/
theorem relay_dispatches_once (h : (relay sha256 config).Reachable s) :
    (s.dispatched.map Outbound.request).Nodup ∧
    (∀ f, f < s.gateway.flightCount → (s.gateway.flights f).route = .relay →
      ∃! d, d ∈ s.dispatched ∧ d.flight = f) ∧
    ∀ d ∈ s.dispatched,
      d.request < s.clients.length ∧
      Uploaded config.requests.maxBody (s.history d.request) d.sent.body ∧
      ((s.gateway.flights d.flight).sent = none ∨ (s.gateway.flights d.flight).sent = some d.sent.body) ∧
      ∀ s', (relay sha256 config).Reachable s' → ∀ d' ∈ s'.dispatched,
        (d.sent.body.length = d'.sent.body.length → d.sent.options = d'.sent.options) ∧
        (d.sent.body = d'.sent.body → d.sent = d'.sent) := by
  have hInv := relay_dispatch_invariant h
  refine ⟨hInv.requests_nodup, fun f hf hRoute => ?_, fun d hd => ?_⟩
  · obtain ⟨d, hd, hFlight⟩ := hInv.fetches.owned f hf hRoute
    refine ⟨d, ⟨hd, hFlight⟩, fun d' ⟨hd', hFlight'⟩ => ?_⟩
    exact List.inj_on_of_nodup_map hInv.fetches.unique hd' hd (hFlight'.trans hFlight.symm)
  · obtain ⟨-, hSent, hUploaded⟩ := hInv.sentFor_eq hd
    obtain ⟨-, sent, hCourse, hBody⟩ := hInv.fetches.started d hd
    refine ⟨hInv.request_lt hd, hUploaded, ?_, fun s' h' d' hd' => ?_⟩
    · rw [(Prod.mk.inj hCourse).2]
      exact hBody
    · obtain ⟨-, hSent', -⟩ := (relay_dispatch_invariant h').sentFor_eq hd'
      rw [hSent, hSent']
      constructor
      · intro hLength
        simp only [forwardToGateway] at hLength ⊢
        rw [hLength]
      · intro hBodies
        exact congrArg (forwardToGateway config) hBodies

end

def testConfig : Config where
  gw := ⟨str "gateway.example", [], str "/gateway"⟩
  GW_TIMEOUT_MS := 30000
  RELAY_GATEWAY_SECRET := str "secret"
  REQUIRE_FDID := []
  FDID_HEADER := str "x-azure-fdid"
  TRUSTED_CLIENT_IP_HEADER := []
  requests := ⟨256, 120, 65536⟩
  gateway := GatewayFlight.testConfig

def testDigest : Bytes → Digest := fun _ => zeroDigest

def ohttpClient (address : String) : Client :=
  ⟨some (str address), [(str "content-type", str "message/ohttp-req"), (str "x-forwarded-for", str address)]⟩

/-- A body comes in two chunks and its fetch fails; another client then sends the same bytes in one chunk. -/
def failedFetch : List Event :=
  [.arrive (ohttpClient "192.0.2.1") false, .request 0 (.authSettles .granted), .request 0 (.data [1, 2]),
   .request 0 (.data [3]), .request 0 .ended, .gateway (.greqError 0), .request 0 .finish,
   .arrive (ohttpClient "198.51.100.7") false, .request 1 (.authSettles .granted), .request 1 (.data [1, 2, 3]),
   .request 1 .ended]

theorem relay_dispatches_once_failedFetch :
    ((relay testDigest testConfig).after failedFetch).dispatched.map Outbound.request = [0, 1] ∧
    ((relay testDigest testConfig).after failedFetch).dispatched.map (·.sent.body) = [[1, 2, 3], [1, 2, 3]] ∧
    ∀ d ∈ ((relay testDigest testConfig).after failedFetch).dispatched,
      ∀ d' ∈ ((relay testDigest testConfig).after failedFetch).dispatched, d.sent = d'.sent := by
  have hBodies : ((relay testDigest testConfig).after failedFetch).dispatched.map (·.sent.body) =
      [[1, 2, 3], [1, 2, 3]] := by decide +kernel
  have hReachable := System.reachable_after (relay testDigest testConfig) failedFetch
  have hBody : ∀ d ∈ ((relay testDigest testConfig).after failedFetch).dispatched, d.sent.body = [1, 2, 3] := by
    intro d hd
    have hMem := List.mem_map_of_mem (f := fun d : Outbound => d.sent.body) hd
    rw [hBodies] at hMem
    simpa using hMem
  refine ⟨by decide +kernel, hBodies, fun d hd d' hd' => ?_⟩
  apply (((relay_dispatches_once hReachable).2.2 d hd).2.2.2 _ hReachable d' hd').2
  rw [hBody d hd, hBody d' hd']

end Columbia.Relay.Dispatch
