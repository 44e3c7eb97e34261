import Columbia.Gateway.Main
import Columbia.Relay.Dispatch
import Columbia.Relay.Passthrough

/-! # Clients, relay and gateway together

What the relay hands to `https.request` comes in at the gateway, and what the gateway answers comes back on the fetch.
A client that encapsulates its payload for a key of the gateway gets, from the relay, an answer to that payload.
-/
namespace Columbia.Exchange
open Columbia.Js Columbia.Lib Columbia.Gateway.Varint Columbia.Gateway.Handler Columbia.Gateway.Bhttp
open Columbia.Gateway.Hpke Columbia.Gateway.Ohttp Columbia.Gateway.AppHandler Columbia.Gateway.Resource
open Columbia.Gateway.Main Columbia.Relay.Dispatch
open Columbia.Relay.GatewayFlight (Gres)
open Columbia.Relay.Passthrough (badGateway gatewayReply)
set_option autoImplicit false

/-! ## Between the two -/

/-- How node writes the head of a request. -/
def latin1 (s : Str) : Bytes := s.map UInt16.toUInt8

/-- What comes in at the gateway for a request of the relay. -/
structure Carries (sent : GatewayRequest) (r : Incoming) : Prop where
  method : r.Method = latin1 sent.options.method
  path : r.EscapedPath = latin1 sent.options.path
  header : ∀ name value, (name, .str value) ∈ sent.options.headers → r.Header.Get (latin1 name) = latin1 value
  absent : RELAY_GATEWAY_HEADER ∉ sent.options.headers.map Prod.fst → r.Header.Get (latin1 RELAY_GATEWAY_HEADER) = []
  body : r.Body = .ok sent.body

/-- The request of `serveConfig`. -/
def configRequest (config : Relay.Dispatch.Config) (cfgGw : Relay.Dispatch.Url) : GatewayRequest where
  options :=
    { hostname := cfgGw.hostname
      port := if cfgGw.port = [] then int 443 else .str cfgGw.port
      path := cfgGw.pathname
      method := str "GET"
      timeout := config.GW_TIMEOUT_MS
      headers := [] }
  body := []

/-- The relay is set up for this gateway. -/
structure Paired (config : Relay.Dispatch.Config) (cfgGw : Relay.Dispatch.Url) (s : Settings) : Prop where
  path : latin1 config.gw.pathname = s.gatewayEndpoint
  configPath : latin1 cfgGw.pathname = s.legacyConfigEndpoint
  secret : latin1 config.RELAY_GATEWAY_SECRET = s.relayGatewaySecret

section
variable {SK PK : Type} (sha256 : Bytes → Digest) (maxAge : Nat) (server : Server SK)

/-- A response of the gateway to this request, which was decapsulated while no other request was. -/
def AnswersTo (w : World SK PK) (sent : GatewayRequest) (g : Gres) : Prop :=
  ∃ r reply, Carries sent r ∧ Replies sha256 w maxAge server r reply ∧ g.statusCode = reply.status ∧
    g.delivered.flatten = reply.body

/-- Every response that has ended is the gateway's, to the request of its fetch. -/
structure Served (w : Nat → World SK PK) (config : Relay.Dispatch.Config) (cfgGw : Relay.Dispatch.Url) (p : Process) :
    Prop where
  relayed : ∀ d ∈ p.dispatched, ∀ g, (p.gateway.flights d.flight).gatewayResponse = some g → g.ended = true →
    AnswersTo sha256 maxAge server (w d.flight) d.sent g
  configs : ∀ f, f < p.gateway.flightCount → (p.gateway.flights f).route = .ohttpConfigs →
    ∀ g, (p.gateway.flights f).gatewayResponse = some g → g.ended = true →
      AnswersTo sha256 maxAge server (w f) (configRequest config cfgGw) g

end

/-! ## The relay's side -/

section
variable {sha256 : Bytes → Digest} {config : Relay.Dispatch.Config} {p : Process}

/-- The fetches of a process are a system of their own. -/
theorem fetches_reachable (h : (relay sha256 config).Reachable p) :
    (Relay.GatewayFlight.gateway config.gateway).Reachable p.gateway := by
  refine h.simulate Process.gateway rfl fun s event t hNext => ?_
  cases next_step hNext with
  | quiet hRequests hClients hHistory hGateway hDispatched => exact .inl hGateway
  | admitted ipBucket client hRequests hClients hHistory hGateway hDispatched => exact .inl hGateway
  | fetch event hOther hRequests hClients hHistory hGateway hDispatched hExits => exact .inr ⟨event, hGateway⟩
  | request i event before after hBefore hAfter hRequests hClients hHistory hSent =>
    rcases hSent with ⟨-, hGateway, -⟩ | ⟨body, destroyed, -, hGateway, -⟩
    · exact .inl hGateway
    · exact .inr ⟨.forward destroyed body, hGateway⟩

/-- An answer that is not the relay's own is a whole response, on the caller's fetch or on one for the configuration. -/
theorem answered (h : (relay sha256 config).Reachable p) {c : Nat} {reply : Relay.GatewayFlight.Reply}
    (hReply : reply ∈ (p.gateway.callers c).replies) : reply = badGateway ∨
      ∃ f g, f < p.gateway.flightCount ∧ (p.gateway.flights f).gatewayResponse = some g ∧ g.ended = true ∧
        reply = gatewayReply (p.gateway.flights f).route g.statusCode g.contentType g.delivered.flatten ∧
        (c ∈ (p.gateway.flights f).joined ∨
          (p.gateway.flights f).route = .ohttpConfigs ∧ ∀ f, c ∉ (p.gateway.flights f).joined) := by
  obtain ⟨events, hRun⟩ := (fetches_reachable h).exists_run
  have hWhole : ∀ {f time}, Relay.Passthrough.Ended config.gateway events p.gateway f time reply →
      ∃ g, f < p.gateway.flightCount ∧ (p.gateway.flights f).gatewayResponse = some g ∧ g.ended = true ∧
        reply = gatewayReply (p.gateway.flights f).route g.statusCode g.contentType g.delivered.flatten := by
    rintro f time ⟨hf, before, after, statusCode, contentType, -, -, hHeard, hReply, -⟩
    obtain ⟨g, hg, hSame⟩ := Option.map_eq_some_iff.mp hHeard
    simp only [Prod.mk.injEq] at hSame
    obtain ⟨rfl, rfl, hDelivered, hEnded⟩ := hSame
    rw [← hDelivered] at hReply
    exact ⟨g, hf, hg, hEnded, hReply⟩
  cases (Relay.Passthrough.passthrough_invariant hRun).replies c reply hReply with
  | badGateway => exact .inl rfl
  | fetched hJoined hEnded =>
    obtain ⟨g, hf, hg, hOver, hReply⟩ := hWhole hEnded
    exact .inr ⟨_, g, hf, hg, hOver, hReply, .inl hJoined⟩
  | cached _ _ _ _ hAtOnce _ hRoute hEnded =>
    obtain ⟨g, hf, hg, hOver, hReply⟩ := hWhole hEnded
    exact .inr ⟨_, g, hf, hg, hOver, hReply, .inr ⟨hRoute, hAtOnce⟩⟩

/-- What the fetches can do, the process can, until one of them throws. -/
theorem gateway_runs (hReachable : (relay sha256 config).Reachable p) (hUp : p.requests.exitCode = none)
    {events : List Relay.GatewayFlight.Event} (hOther : ∀ destroyed body, .forward destroyed body ∉ events)
    {gateway : Relay.GatewayFlight.Server}
    (h : (Relay.GatewayFlight.gateway config.gateway).run p.gateway events = some gateway) :
    (relay sha256 config).run p (events.map .gateway) = some (uncaughtException { p with gateway := gateway }) := by
  let within := fun gateway => uncaughtException { p with gateway := gateway }
  have hStart : within p.gateway = p := uncaughtException_of_up (relay_up hReachable hUp)
  suffices hRun : (relay sha256 config).run (within p.gateway) (events.map .gateway) = some (within gateway) by
    rwa [hStart] at hRun
  refine System.run_map within Relay.Dispatch.Event.gateway (fun event hEvent s t hNext => ?_) h
  have hFetch : onGateway config (uncaughtException { p with gateway := s }) event =
      some (uncaughtException { p with gateway := t }) := by
    have hFlight : Relay.GatewayFlight.next config.gateway s event = some t := hNext
    rw [uncaughtException_of_up (Relay.GatewayFlight.next_up hFlight), onGateway, if_neg (by simp [hUp]), hFlight]
    rfl
  cases event with
  | forward destroyed body => exact absurd hEvent (hOther destroyed body)
  | _ => exact hFetch

end

/-- A list is cut at the first place where something stands. -/
theorem cut_unique {α : Type} {a : α} {front front' rest rest' : List α} (h : front ++ a :: rest = front' ++ a :: rest')
    (hFront : a ∉ front) (hFront' : a ∉ front') : front = front' ∧ rest = rest' := by
  induction front generalizing front' with
  | nil =>
    cases front' with
    | nil => exact ⟨rfl, (List.cons.inj h).2⟩
    | cons b front' => exact absurd (List.mem_cons.mpr (.inl (List.cons.inj h).1)) hFront'
  | cons b front ih =>
    cases front' with
    | nil => exact absurd (List.mem_cons.mpr (.inl (List.cons.inj h).1.symm)) hFront
    | cons b' front' =>
      obtain ⟨rfl, hRest⟩ := List.cons.inj h
      obtain ⟨rfl, rfl⟩ := ih hRest (fun hMem => hFront (List.mem_cons_of_mem _ hMem))
        fun hMem => hFront' (List.mem_cons_of_mem _ hMem)
      exact ⟨rfl, rfl⟩

/-- A request uploads one body. -/
theorem uploaded_unique {maxBody : Nat} {events : List Relay.RelayRequests.RequestEvent} {a b : Bytes}
    (ha : Uploaded maxBody events a) (hb : Uploaded maxBody events b) : a = b := by
  obtain ⟨before, during, after, rfl, hWaiting, hOpen, -, -, rfl, -⟩ := ha
  obtain ⟨before', during', after', hEvents, hWaiting', hOpen', -, -, rfl, -⟩ := hb
  obtain ⟨-, hRest⟩ := cut_unique hEvents (hWaiting.1 .granted) (hWaiting'.1 .granted)
  obtain ⟨rfl, -⟩ := cut_unique hRest hOpen hOpen'
  rfl

/-! ## The request at the gateway -/

theorem Carries.posts {config : Relay.Dispatch.Config} {cfgGw : Relay.Dispatch.Url} {s : Settings}
    (hPaired : Paired config cfgGw s) {req : EncapsulatedRequest} {r : Incoming}
    (h : Carries (forwardToGateway config req.Marshal) r) : Posts s r req where
  method := h.method
  path := h.path.trans hPaired.path
  contentType := h.header (str "Content-Type") (str "message/ohttp-req") List.mem_cons_self
  secret := by
    have hKey : r.Header.Get (text "X-Columbia-Relay-Auth") = r.Header.Get (latin1 RELAY_GATEWAY_HEADER) := by
      have hName : CanonicalMIMEHeaderKey (text "X-Columbia-Relay-Auth") =
          CanonicalMIMEHeaderKey (latin1 RELAY_GATEWAY_HEADER) := by decide
      rw [HttpHeader.Get, hName]
      rfl
    rw [hKey, ← hPaired.secret]
    by_cases hNone : config.RELAY_GATEWAY_SECRET = []
    · rw [hNone]
      apply h.absent
      simp only [forwardToGateway, if_pos hNone, List.append_nil]
      change RELAY_GATEWAY_HEADER ∉ [str "Content-Type", str "Content-Length"]
      decide
    · apply h.header
      simp [forwardToGateway, hNone]
  body := h.body

/-- A request for a path without percent signs can come in. -/
theorem carried {config : Relay.Dispatch.Config} (hPath : 37 ∉ latin1 config.gw.pathname) (body : Bytes) :
    ∃ r, Carries (forwardToGateway config body) r := by
  let typed : HttpHeader := HttpHeader.Set .empty (latin1 (str "Content-Type")) (latin1 (str "message/ohttp-req"))
  let header := if config.RELAY_GATEWAY_SECRET = [] then typed
    else HttpHeader.Set typed (latin1 RELAY_GATEWAY_HEADER) (latin1 config.RELAY_GATEWAY_SECRET)
  have hApart : CanonicalMIMEHeaderKey (latin1 (str "Content-Type")) ≠
      CanonicalMIMEHeaderKey (latin1 RELAY_GATEWAY_HEADER) := by decide
  have hType : HttpHeader.Get header (latin1 (str "Content-Type")) = latin1 (str "message/ohttp-req") := by
    simp only [header]
    split
    · exact HttpHeader.Get_Set_self _ _ _
    · rw [HttpHeader.Get_Set_of_ne _ _ hApart]
      exact HttpHeader.Get_Set_self _ _ _
  have hSecret : HttpHeader.Get header (latin1 RELAY_GATEWAY_HEADER) = latin1 config.RELAY_GATEWAY_SECRET := by
    simp only [header]
    split
    · rename_i hNone
      rw [HttpHeader.Get_Set_of_ne _ _ hApart.symm, hNone]
      rfl
    · exact HttpHeader.Get_Set_self _ _ _
  refine ⟨⟨⟨text "POST", latin1 config.gw.pathname, header, .ok body⟩, [], latin1 config.gw.hostname,
    latin1 config.gw.pathname, Gateway.ServeMux.PathUnescape_literal hPath⟩, rfl, rfl, fun name value hMem => ?_,
    fun hNone => ?_, rfl⟩
  · rcases List.mem_append.mp hMem with hFixed | hAdded
    · rcases List.mem_cons.mp hFixed with hName | hLength
      · cases hName
        exact hType
      · cases List.mem_singleton.mp hLength
    · split at hAdded
      · cases hAdded
      · cases List.mem_singleton.mp hAdded
        exact hSecret
  · have hUnset : config.RELAY_GATEWAY_SECRET = [] := by
      by_contra hSet
      apply hNone
      simp [forwardToGateway, hSet]
    refine hSecret.trans ?_
    rw [hUnset]
    rfl

/-! ## The exchange -/

section
variable {SK PK : Type}

/-- The answer to this payload. -/
def Due (P : Primitives SK PK) (s : Settings) (w : World SK PK) (ctx : RequestContext) (payload : Bytes)
    (reply : Relay.GatewayFlight.Reply) : Prop :=
  reply.status = 200 ∧ reply.contentType = some (str "message/ohttp-res") ∧ ∃ out decoded,
    ctx.DecapsulateResponse P reply.body = .ok out ∧ UnmarshalBinaryResponse w.go out = .ok decoded ∧
    decoded.StatusCode = (expectedAnswer w.go (filteredHandle s.httpHandler w.upstream) payload).StatusCode ∧
    decoded.Body = (expectedAnswer w.go (filteredHandle s.httpHandler w.upstream) payload).Body

/-- The client of this dispatch uploaded the payload, encapsulated for this key. -/
def Asks (P : Primitives SK PK) (maxBody : Nat) (p : Process) (d : Outbound) (key : PublicConfig) (payload : Bytes)
    (ctx : RequestContext) : Prop :=
  ∃ seed req, Client.EncapsulateRequest P ⟨defaultLabelRequest, defaultLabelResponse, key⟩ payload seed =
    .ok (req, ctx) ∧ Uploaded maxBody (p.history d.request) req.Marshal

variable {P : Primitives SK PK} {proto : Proto} {lib : Libraries} {s : Settings} {server : Server SK}
  {config : Relay.Dispatch.Config} {cfgGw : Relay.Dispatch.Url} {w : Nat → World SK PK}

theorem Due.status {w : World SK PK} {ctx : RequestContext} {payload : Bytes} {status : Nat} {contentType : Option Str}
    {body : Bytes} (h : Due P s w ctx payload (gatewayReply .relay status contentType body)) : status = 200 := by
  have hStatus : (if status = 0 then 502 else status) = 200 := h.1
  split at hStatus
  · cases hStatus
  · exact hStatus

/-- What the gateway replies to the request of such a client is its answer, and it replies unless it panics. -/
theorem Asks.reply {primary legacy : PrivateConfig SK}
    (hStarted : Started P lib s server primary legacy (.BinaryHTTPAppHandler s.httpHandler))
    (hRequestLabel : server.target.gateway.requestLabel = defaultLabelRequest)
    (hResponseLabel : server.target.gateway.responseLabel = defaultLabelResponse) (hPlain : PlainEndpoints s)
    (hLiteral : Literal s.gatewayEndpoint) (hPaired : Paired config cfgGw s) {sha256 : Bytes → Digest} {maxAge : Nat}
    {w : World SK PK} (hPrimitives : w.primitives = P) (hRandom : ∀ n, ∃ b, w.random n = .ok b) {p : Process}
    (hReachable : (relay sha256 config).Reachable p) {d : Outbound} (hd : d ∈ p.dispatched) {key : PublicConfig}
    (hKey : key ∈ [primary.publicConfig, legacy.publicConfig]) {payload : Bytes} {ctx : RequestContext}
    (h : Asks P config.requests.maxBody p d key payload ctx) {r : Incoming} (hCarries : Carries d.sent r) :
    ((∃ reply, Replies sha256 w maxAge server r reply) ↔ CanAnswer w s payload) ∧
    ∀ reply, Replies sha256 w maxAge server r reply → ∀ contentType,
      Due P s w ctx payload (gatewayReply .relay reply.status contentType reply.body) := by
  subst hPrimitives
  obtain ⟨seed, req, hRequest, hUploaded⟩ := h
  obtain ⟨-, hSent, hBytes⟩ := (relay_dispatch_invariant hReachable).sentFor_eq hd
  rw [hSent, uploaded_unique hBytes hUploaded] at hCarries
  obtain ⟨client, hClient, rfl⟩ : ∃ client ∈ [primary, legacy], key = client.publicConfig := by simpa using hKey
  rw [← hRequestLabel, ← hResponseLabel] at hRequest
  obtain ⟨hAnswers, hDue⟩ : ((∃ reply, Replies sha256 w maxAge server r reply) ↔ _) ∧ _ :=
    hStarted.answers hPlain hLiteral hRandom hClient hRequest (hCarries.posts hPaired)
  refine ⟨hAnswers, fun reply hReplies contentType => ?_⟩
  obtain ⟨hStatus, out, decoded, hOpened, hDecoded⟩ := hDue reply hReplies
  rw [gatewayReply, hStatus]
  exact ⟨rfl, rfl, out, decoded, hOpened, hDecoded⟩

def testConfig : Relay.Dispatch.Config := { Relay.Dispatch.testConfig with RELAY_GATEWAY_SECRET := [7] }

def testCfgGw : Relay.Dispatch.Url := ⟨str "gateway.example", [], str "/ohttp-configs"⟩

theorem testConfig_paired : Paired testConfig testCfgGw testSettings := ⟨by decide, by decide, by decide⟩

theorem testSettings_paths : ∀ e ∈ [text "/gateway", text "/ohttp-configs"], Literal e := by
  intro e he
  simp only [List.mem_cons, List.not_mem_nil, or_false] at he
  rcases he with rfl | rfl
  all_goals exact ⟨by decide, by decide, by decide⟩

/-- A client whose fetch is open, and whose payload the gateway can answer in as many bytes as the relay takes, can
still get its answer, whatever has happened before. -/
theorem exchanges_get_through (hMain : main P proto lib s = .ok server) (hLabels : DefaultLabels s)
    (hPlain : PlainEndpoints s) (hPath : Literal s.gatewayEndpoint) (hPaired : Paired config cfgGw s)
    (hPrimitives : ∀ f, (w f).primitives = P) (hRandom : ∀ f n, ∃ b, (w f).random n = .ok b) (sha256 : Bytes → Digest)
    (maxAge : Nat) : ∃ primary legacy : PublicConfig, ∀ p, (relay sha256 config).Reachable p →
    p.requests.exitCode = none → ∀ d ∈ p.dispatched, (p.gateway.flights d.flight).completed = false →
    (p.gateway.flights d.flight).gatewayResponse = none → ∀ key ∈ [primary, legacy], ∀ payload ctx,
    Asks P config.requests.maxBody p d key payload ctx → CanAnswer (w d.flight) s payload →
    (∀ r reply, Carries d.sent r → Replies sha256 (w d.flight) maxAge server r reply →
      reply.body.length ≤ config.gateway.maxRespBytes) → ∀ contentType time, ∃ status body p',
      (relay sha256 config).run p [.gateway (.response d.flight status contentType), .gateway (.data d.flight body),
        .gateway (.ended d.flight time)] = some p' ∧
      (∃ g, (p'.gateway.flights d.flight).gatewayResponse = some g ∧ g.ended = true ∧
        AnswersTo sha256 maxAge server (w d.flight) d.sent g) ∧
      (∀ f, f ≠ d.flight → p'.gateway.flights f = p.gateway.flights f) ∧
      ∀ c ∈ (p.gateway.flights d.flight).callers, (p.gateway.callers c).destroyed = false →
        ∃ reply, (p'.gateway.callers c).replies = [reply] ∧ Due P s (w d.flight) ctx payload reply := by
  obtain ⟨primary, legacy, appHandler, h⟩ := main_started hMain
  obtain ⟨rfl, hRequestLabel, hResponseLabel⟩ := h.labels hLabels
  refine ⟨primary.publicConfig, legacy.publicConfig, fun p hReachable hUp d hd hOpen hNone key hKey payload ctx hAsks
    hCan hFits contentType time => ?_⟩
  have hInv := relay_dispatch_invariant hReachable
  obtain ⟨-, hSent, -⟩ := hInv.sentFor_eq hd
  obtain ⟨hFlight, _, hCourse, -⟩ := hInv.fetches.started d hd
  have hRoute : (p.gateway.flights d.flight).route = .relay := (Prod.mk.inj hCourse).1
  -- the request comes in, and the gateway replies to it
  have hFree : 37 ∉ latin1 config.gw.pathname := hPaired.path ▸ hPath.free
  obtain ⟨r, hCarries⟩ : ∃ r, Carries d.sent r := hSent ▸ carried hFree d.sent.body
  obtain ⟨hAnswers, hDue⟩ := hAsks.reply h hRequestLabel hResponseLabel hPlain hPath hPaired (hPrimitives d.flight)
    (hRandom d.flight) hReachable hd hKey hCarries
  obtain ⟨reply, hReplies⟩ := hAnswers.mpr hCan
  have hStatus : reply.status = 0 ∨ 100 ≤ reply.status ∧ reply.status ≤ 999 := by
    have hOk := (hDue reply hReplies contentType).status
    omega
  -- the reply comes back
  obtain ⟨gateway, hAnswered, hHeard, hOthers, hStillUp, hGiven⟩ :=
    Relay.Passthrough.fetch_completes (fetches_reachable hReachable) (relay_up hReachable hUp) hFlight hOpen hNone
      hStatus contentType (hFits r reply hCarries hReplies) time
  have hRun := gateway_runs hReachable hUp (by simp) hAnswered
  rw [uncaughtException_of_up hStillUp] at hRun
  refine ⟨reply.status, reply.body, { p with gateway := gateway }, hRun, ?_, hOthers, fun c hc hAlive => ?_⟩
  · obtain ⟨g, hg, hSame⟩ := Option.map_eq_some_iff.mp hHeard
    simp only [Prod.mk.injEq] at hSame
    obtain ⟨hCode, -, hBody, hEnded⟩ := hSame
    exact ⟨g, hg, hEnded, r, reply, hCarries, hReplies, hCode, hBody ▸ List.append_nil _⟩
  · refine ⟨_, hGiven c hc hAlive, ?_⟩
    rw [hRoute]
    exact hDue reply hReplies contentType

theorem exchanges_get_through_default :
    ∃ server, main testPrimitives testProto testLibraries testSettings = .ok server ∧
    ∃ primary legacy : PublicConfig, ∀ p, (relay first32 testConfig).Reachable p →
    p.requests.exitCode = none → ∀ d ∈ p.dispatched, (p.gateway.flights d.flight).completed = false →
    (p.gateway.flights d.flight).gatewayResponse = none → ∀ key ∈ [primary, legacy], ∀ payload ctx,
    Asks testPrimitives testConfig.requests.maxBody p d key payload ctx → CanAnswer testWorld testSettings payload →
    (∀ r reply, Carries d.sent r → Replies first32 testWorld 0 server r reply →
      reply.body.length ≤ testConfig.gateway.maxRespBytes) → ∀ contentType time, ∃ status body p',
      (relay first32 testConfig).run p [.gateway (.response d.flight status contentType),
        .gateway (.data d.flight body), .gateway (.ended d.flight time)] = some p' ∧
      (∃ g, (p'.gateway.flights d.flight).gatewayResponse = some g ∧ g.ended = true ∧
        AnswersTo first32 0 server testWorld d.sent g) ∧
      (∀ f, f ≠ d.flight → p'.gateway.flights f = p.gateway.flights f) ∧
      ∀ c ∈ (p.gateway.flights d.flight).callers, (p.gateway.callers c).destroyed = false →
        ∃ reply, (p'.gateway.callers c).replies = [reply] ∧
          Due testPrimitives testSettings testWorld ctx payload reply := by
  obtain ⟨server, hMain⟩ := main_starts testProto testSettings_startable
  exact ⟨server, hMain, exchanges_get_through (w := fun _ => testWorld) hMain (.inl rfl) testSettings_plain
    (testSettings_paths _ List.mem_cons_self) testConfig_paired (fun _ => rfl) (fun _ _ => ⟨_, rfl⟩) first32 0⟩

end

end Columbia.Exchange
