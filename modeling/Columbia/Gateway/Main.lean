import Columbia.Gateway.Resource
import Columbia.Gateway.ServeMux

/-! # The gateway process

`main` derives two key configurations from one seed, and registers the endpoints. The secret of the relay is asked for
at the gateway endpoint only.
-/
namespace Columbia.Gateway.Main
open Columbia.Js Columbia.Lib Columbia.Gateway.Varint Columbia.Gateway.Handler Columbia.Gateway.Bhttp
open Columbia.Gateway.Hpke Columbia.Gateway.Ohttp Columbia.Gateway.AppHandler Columbia.Gateway.Resource
open Columbia.Gateway.ServeMux
set_option autoImplicit false

/-- What `main` has read from the environment when it comes to its keys; only the echo and the metadata endpoint can be
disabled by an empty variable. -/
structure Settings where
  seed : Bytes
  configID : UInt8
  requestLabel : Bytes
  responseLabel : Bytes
  httpHandler : FilteredHttpRequestHandler
  debugResponse : Bool
  prometheusConfig : Bytes
  statsdHost : Bytes
  statsdPort : Bytes
  statsdTimeout : Bytes
  gatewayEndpointEnv : Bytes
  configEndpointEnv : Bytes
  legacyConfigEndpointEnv : Bytes
  echoEndpointEnv : Option Bytes
  metadataEndpointEnv : Option Bytes
  healthEndpointEnv : Bytes
  relayGatewaySecret : Bytes

def getStringEnv (val defaultVal : Bytes) : Bytes := if val = [] then defaultVal else val

def getStringEnvAllowEmpty (val : Option Bytes) (defaultVal : Bytes) : Bytes := val.getD defaultVal

section
variable (s : Settings)

def Settings.gatewayEndpoint : Bytes := getStringEnv s.gatewayEndpointEnv (text "/gateway")
def Settings.configEndpoint : Bytes := getStringEnv s.configEndpointEnv (text "/ohttp-keys")
def Settings.legacyConfigEndpoint : Bytes := getStringEnv s.legacyConfigEndpointEnv (text "/ohttp-configs")
def Settings.echoEndpoint : Bytes := getStringEnvAllowEmpty s.echoEndpointEnv (text "/gateway-echo")
def Settings.metadataEndpoint : Bytes := getStringEnvAllowEmpty s.metadataEndpointEnv (text "/gateway-metadata")
def Settings.healthEndpoint : Bytes := getStringEnv s.healthEndpointEnv (text "/health")

end

inductive Endpoint
  | target
  | reflective
  | health
  | legacyConfig
  | config
  | index
  deriving DecidableEq

structure Server (SK : Type) where
  settings : Settings
  requestLabel : Bytes
  responseLabel : Bytes
  target : GatewayResource SK
  mux : Mux Endpoint

/-- A request as it comes in; `URL.Path` is the escaped path, unescaped. -/
structure Incoming extends ServerRequest where
  URLHost : Bytes
  Host : Bytes
  EscapedPath : Bytes
  unescaped : PathUnescape EscapedPath = some Path

def legacyConfigID (configID : UInt8) : UInt8 := (configID - 128) % 255

/-- `seed[len(seed)-1] ^= 0xFF`. -/
def flipLast (seed : Bytes) : Except Failure Bytes :=
  match seed.getLast? with
  | none => .error .panicked
  | some last => .ok (seed.dropLast ++ [last ^^^ 0xFF])

def protoRequestLabel : Bytes := text "message/protohttp request"
def protoResponseLabel : Bytes := text "message/protohttp response"

/-! ## Metrics -/

structure PrometheusConfig where
  Host : Bytes
  Port : Bytes
  ScrapePath : Bytes
  MetricName : Bytes

/-- `json.Unmarshal` of the Prometheus settings, the registration of a metric under its name, `statsd.New` for an
address and a timeout, and which names are identifiers of Go. -/
structure Libraries where
  unmarshal : Bytes → Option PrometheusConfig
  registers : Bytes → Bool
  statsdNew : Bytes → Int → Bool
  isValidWildcardName : Bytes → Bool

/-- `strconv.ParseInt` to base 10, for 64 bits. -/
def ParseInt (s : Bytes) : Option Int :=
  let negative := s.head? = some 45
  let digits := if negative ∨ s.head? = some 43 then s.tail else s
  let n : Nat := digits.foldl (fun n c => n * 10 + (c - 48).toNat) 0
  if digits = [] ∨ digits.any (fun c => c < 48 || 57 < c) = true then none
  else if negative then if n ≤ 2 ^ 63 then some (-(n : Int)) else none
  else if n < 2 ^ 63 then some n else none

/-- `net.JoinHostPort`. -/
def JoinHostPort (host port : Bytes) : Bytes :=
  if 58 ∈ host then text "[" ++ host ++ text "]:" ++ port else host ++ text ":" ++ port

section
variable (lib : Libraries)

/-- What serves the scrapes later on is left to itself. -/
def NewPrometheusMetricsFactory (config : PrometheusConfig) : Except Failure Unit := do
  require (lib.registers config.MetricName = true) (.other (text "Failed to configure Prometheus metrics"))
  let _ ← HandleFunc lib.isValidWildcardName [] config.ScrapePath ()
  return ()

def createStatsDClient (host port : Bytes) (timeout : Int) : Bool :=
  host = [] ∨ port = [] ∨ lib.statsdNew (JoinHostPort host port) timeout = true

def configureMetrics (s : Settings) : Except Failure Unit := do
  if s.prometheusConfig ≠ [] then
    let config ← orThrow (lib.unmarshal s.prometheusConfig) (.other (text "Failed to parse Prometheus config"))
    NewPrometheusMetricsFactory lib config
  else
    let metricsTimeout ← orThrow (ParseInt (getStringEnv s.statsdTimeout (text "100")))
      (.other (text "Failed parsing metrics timeout"))
    require (createStatsDClient lib s.statsdHost s.statsdPort metricsTimeout = true)
      (.other (text "Failed to create statsd client"))

/-! ## `main` -/

def registerFunc (mux : Mux Endpoint) (pattern : Bytes) (h : Endpoint) : Except Failure (Mux Endpoint) :=
  if pattern = [] then .ok mux else HandleFunc lib.isValidWildcardName mux pattern h

def Settings.endpoints (s : Settings) : List (Bytes × Endpoint) :=
  [(s.gatewayEndpoint, .target), (s.echoEndpoint, .reflective), (s.metadataEndpoint, .reflective),
    (s.healthEndpoint, .health), (s.legacyConfigEndpoint, .legacyConfig), (s.configEndpoint, .config),
    (text "/", .index)]

def register : List (Bytes × Endpoint) → Mux Endpoint → Except Failure (Mux Endpoint)
  | [], mux => .ok mux
  | (pattern, h) :: rest, mux => do
    let mux ← registerFunc lib mux pattern h
    register rest mux

end

def encapsulationHandlers (s : Settings) (targetHandler : EncapsulationHandler) : OrderedMap Bytes EncapsulationHandler :=
  ((OrderedMap.empty.set s.gatewayEndpoint targetHandler).set s.echoEndpoint
    (.DefaultEncapsulationHandler .EchoAppHandler)).set s.metadataEndpoint .MetadataEncapsulationHandler

section
variable {SK PK : Type} (P : Primitives SK PK) (proto : Proto) (lib : Libraries)

/-- The labels with their gateway and the handler of the target. -/
def contentHandler (s : Settings) (configs : List (PrivateConfig SK)) :
    Except Failure (OhttpGateway SK × AppContentHandler) := do
  if s.requestLabel = [] ∨ s.responseLabel = [] ∨ s.requestLabel = s.responseLabel then
    let gateway ← NewDefaultGateway configs
    return (gateway, .BinaryHTTPAppHandler s.httpHandler)
  else if s.requestLabel = protoRequestLabel ∧ s.responseLabel = protoResponseLabel then
    let gateway ← NewCustomGateway configs s.requestLabel s.responseLabel
    return (gateway, .ProtoHTTPAppHandler proto s.httpHandler)
  else throw .panicked

def main (s : Settings) : Except Failure (Server SK) := do
  let config ← NewConfigFromSeed P s.configID KEM_X25519_KYBER768_DRAFT00 KDF_HKDF_SHA256 AEAD_AES128GCM s.seed
  let seed ← flipLast s.seed
  let legacyConfig ← NewConfigFromSeed P (legacyConfigID s.configID) KEM_X25519_HKDF_SHA256 KDF_HKDF_SHA256
    AEAD_AES128GCM seed
  let (gateway, appHandler) ← contentHandler proto s [config, legacyConfig]
  configureMetrics lib s
  let handlers := encapsulationHandlers s (.DefaultEncapsulationHandler appHandler)
  let mux ← register lib s.endpoints []
  return ⟨s, gateway.requestLabel, gateway.responseLabel,
    ⟨legacyConfigID s.configID, gateway, handlers, s.debugResponse⟩, mux⟩

end

/-! ## Serving -/

/-- `formatConfiguration`. -/
def formatConfiguration {SK : Type} (server : Server SK) : Bytes :=
  let s := server.settings
  text "OHTTP Gateway\n" ++ text "----------------\n" ++ text "Config endpoint: " ++ s.configEndpoint ++ text "\n" ++
    text "Legacy config endpoint: " ++ s.legacyConfigEndpoint ++ text "\n" ++ text "Target endpoint: " ++
    s.gatewayEndpoint ++ text "\n" ++ text "   Request content type:  " ++ server.requestLabel ++ text "\n" ++
    text "   Response content type: " ++ server.responseLabel ++ text "\n" ++ text "Echo endpoint: " ++ s.echoEndpoint ++
    text "\n" ++ text "Metadata endpoint: " ++ s.metadataEndpoint ++ text "\n" ++ text "----------------\n"

section
variable {SK PK : Type} (sha256 : Bytes → Digest) (w : World SK PK) (maxAge : Nat)

def Server.handle (server : Server SK) (r : ServerRequest) : Endpoint → Metered Failure Reply
  | .target => requireRelaySecret sha256 server.settings.relayGatewaySecret (gatewayHandler w server.target) r
  | .reflective => gatewayHandler w server.target r
  | .health => pure ⟨200, [], text "ok"⟩
  | .legacyConfig => legacyConfigHandler server.target maxAge r
  | .config => configHandler server.target maxAge r
  | .index => pure ⟨200, [], formatConfiguration server⟩

def Server.ServeHTTP (server : Server SK) (r : Incoming) : Found (Metered Failure Reply) :=
  (findHandler server.mux ⟨r.Method, r.URLHost, r.Host, r.EscapedPath, r.Path⟩).map
    (server.handle sha256 w maxAge r.toServerRequest)

end

/-! ## What `main` makes of its settings -/

theorem legacyConfigID_ne (configID : UInt8) : legacyConfigID configID ≠ configID := by
  intro hSame
  have hValue := congrArg UInt8.toNat hSame
  rw [legacyConfigID, UInt8.toNat_mod, UInt8.toNat_sub] at hValue
  have hBound := configID.toNat_lt
  change (2 ^ 8 - 128 + configID.toNat) % 2 ^ 8 % 255 = configID.toNat at hValue
  omega

/-! ## What is registered -/

theorem getStringEnv_ne_nil (val : Bytes) {defaultVal : Bytes} (h : defaultVal ≠ []) :
    getStringEnv val defaultVal ≠ [] := by
  unfold getStringEnv
  split
  · exact h
  · assumption

/-- The nodes that are registered. -/
def routes (lib : Libraries) (es : List (Bytes × Endpoint)) : Mux Endpoint :=
  (es.filter (·.1 ≠ [])).filterMap fun e =>
    (parsePattern lib.isValidWildcardName e.1).map fun pattern => ⟨pattern, e.2⟩

/-- A pattern that is not empty has to be one. -/
def Patterns (lib : Libraries) (es : List (Bytes × Endpoint)) : Prop :=
  ∀ e ∈ es, e.1 ≠ [] → ∃ pattern, parsePattern lib.isValidWildcardName e.1 = some pattern

theorem register_eq_ok {lib : Libraries} {es : List (Bytes × Endpoint)} {mux mux' : Mux Endpoint}
    (hMux : Registered lib.isValidWildcardName mux) : register lib es mux = .ok mux' ↔
      Patterns lib es ∧ Registered lib.isValidWildcardName (mux ++ routes lib es) ∧ mux' = mux ++ routes lib es := by
  induction es generalizing mux with
  | nil =>
    rw [register, Except.ok.injEq, eq_comm]
    simp [routes, Patterns, hMux]
  | cons e rest ih =>
    obtain ⟨pattern, h⟩ := e
    rw [register, registerFunc]
    split
    · rename_i hEmpty
      subst hEmpty
      have hPatterns : Patterns lib (([], h) :: rest) ↔ Patterns lib rest := by simp [Patterns]
      rw [hPatterns]
      exact ih hMux
    · rename_i hSome
      rw [bind_eq_ok]
      constructor
      · rintro ⟨next, hNext, hRest⟩
        have hRegistered := hMux.handleFunc hNext
        obtain ⟨p, hParse, -, rfl⟩ := handleFunc_eq_ok.mp hNext
        obtain ⟨hPatterns, hAll⟩ := (ih hRegistered).mp hRest
        have hRoutes : routes lib ((pattern, h) :: rest) = ⟨p, h⟩ :: routes lib rest := by simp [routes, hSome, hParse]
        rw [List.append_assoc] at hAll
        rw [hRoutes]
        refine ⟨?_, hAll⟩
        rintro e he hNonempty
        rcases List.mem_cons.mp he with rfl | he
        · exact ⟨p, hParse⟩
        · exact hPatterns e he hNonempty
      · rintro ⟨hPatterns, hAll, rfl⟩
        obtain ⟨p, hParse⟩ := hPatterns (pattern, h) List.mem_cons_self hSome
        have hRoutes : routes lib ((pattern, h) :: rest) = ⟨p, h⟩ :: routes lib rest := by simp [routes, hSome, hParse]
        rw [hRoutes] at hAll
        have hApart := List.pairwise_append.mp hAll.apart
        have hNext : HandleFunc lib.isValidWildcardName mux pattern h = .ok (mux ++ [⟨p, h⟩]) :=
          handleFunc_eq_ok.mpr ⟨p, hParse, fun n hn => hApart.2.2 n hn _ List.mem_cons_self, rfl⟩
        refine ⟨_, hNext, (ih (hMux.handleFunc hNext)).mpr ⟨?_, ?_, by simp [hRoutes]⟩⟩
        · exact fun e he => hPatterns e (List.mem_cons_of_mem _ he)
        · rwa [List.append_assoc]

section
variable {SK PK : Type} {P : Primitives SK PK} {proto : Proto} {lib : Libraries}

def DefaultLabels (s : Settings) : Prop := s.requestLabel = [] ∨ s.responseLabel = [] ∨ s.requestLabel = s.responseLabel

def ProtoLabels (s : Settings) : Prop := s.requestLabel = protoRequestLabel ∧ s.responseLabel = protoResponseLabel

theorem protoLabels_not_default {s : Settings} (h : ProtoLabels s) : ¬DefaultLabels s := by
  rw [DefaultLabels, h.1, h.2]
  decide

theorem contentHandler_eq_ok {s : Settings} {configs : List (PrivateConfig SK)} {gateway : OhttpGateway SK}
    {appHandler : AppContentHandler} : contentHandler proto s configs = .ok (gateway, appHandler) ↔
      DefaultLabels s ∧ NewDefaultGateway configs = .ok gateway ∧ appHandler = .BinaryHTTPAppHandler s.httpHandler ∨
      ProtoLabels s ∧ NewCustomGateway configs s.requestLabel s.responseLabel = .ok gateway ∧
        appHandler = .ProtoHTTPAppHandler proto s.httpHandler := by
  unfold contentHandler
  split
  · rename_i hDefault
    simp only [bind_eq_ok, pure, Except.pure, Except.ok.injEq, Prod.mk.injEq]
    constructor
    · rintro ⟨_, hGateway, rfl, rfl⟩
      exact .inl ⟨hDefault, hGateway, rfl⟩
    · rintro (⟨-, hGateway, rfl⟩ | ⟨hProto, -⟩)
      · exact ⟨gateway, hGateway, rfl, rfl⟩
      · exact absurd hDefault (protoLabels_not_default hProto)
  · rename_i hDefault
    split
    · rename_i hProto
      simp only [bind_eq_ok, pure, Except.pure, Except.ok.injEq, Prod.mk.injEq]
      constructor
      · rintro ⟨_, hGateway, rfl, rfl⟩
        exact .inr ⟨hProto, hGateway, rfl⟩
      · rintro (⟨hNot, -⟩ | ⟨-, hGateway, rfl⟩)
        · exact absurd hNot hDefault
        · exact ⟨gateway, hGateway, rfl, rfl⟩
    · rename_i hProto
      refine ⟨nofun, ?_⟩
      rintro (⟨hNot, -⟩ | ⟨hNot, -⟩)
      · exact absurd hNot hDefault
      · exact absurd hNot hProto

/-- A gateway that has started. -/
structure Started (P : Primitives SK PK) (lib : Libraries) (s : Settings) (server : Server SK)
    (primary legacy : PrivateConfig SK) (appHandler : AppContentHandler) : Prop where
  settings : server.settings = s
  derived : ∀ config ∈ [primary, legacy], Derived P config
  legacyKeyID : legacy.publicConfig.ID = server.target.legacyKeyID
  gateway : GatewayOf [primary, legacy] server.target.gateway
  handlers : server.target.encapsulationHandlers = encapsulationHandlers s (.DefaultEncapsulationHandler appHandler)
  labels : DefaultLabels s → appHandler = .BinaryHTTPAppHandler s.httpHandler ∧
    server.target.gateway.requestLabel = defaultLabelRequest ∧ server.target.gateway.responseLabel = defaultLabelResponse
  patterns : Patterns lib s.endpoints
  mux : server.mux = routes lib s.endpoints
  registered : Registered lib.isValidWildcardName server.mux

theorem defaultGateway_labels {configs : List (PrivateConfig SK)} {g : OhttpGateway SK}
    (h : NewDefaultGateway configs = .ok g) :
    g.requestLabel = defaultLabelRequest ∧ g.responseLabel = defaultLabelResponse := by
  obtain ⟨_, -, hGateway⟩ := bind_eq_ok.mp h
  cases hGateway
  exact ⟨rfl, rfl⟩

theorem registered_nil (isValidWildcardName : Bytes → Bool) : Registered isValidWildcardName ([] : Mux Endpoint) :=
  ⟨nofun, .nil⟩

theorem main_started {s : Settings} {server : Server SK} (h : main P proto lib s = .ok server) :
    ∃ primary legacy appHandler, Started P lib s server primary legacy appHandler := by
  obtain ⟨primary, hPrimary, h⟩ := bind_eq_ok.mp h
  obtain ⟨seed, -, h⟩ := bind_eq_ok.mp h
  obtain ⟨legacy, hLegacy, h⟩ := bind_eq_ok.mp h
  obtain ⟨⟨gateway, appHandler⟩, hContent, h⟩ := bind_eq_ok.mp h
  obtain ⟨_, -, h⟩ := bind_eq_ok.mp h
  obtain ⟨mux, hMux, h⟩ := bind_eq_ok.mp h
  cases h
  obtain ⟨hPatterns, hRegistered, rfl⟩ := (register_eq_ok (registered_nil _)).mp hMux
  refine ⟨primary, legacy, appHandler, rfl, ?_, ?_, ?_, rfl, fun hDefault => ?_, hPatterns, rfl, hRegistered⟩
  · intro config hConfig
    rcases List.mem_cons.mp hConfig with rfl | hConfig
    · exact ⟨_, _, _, _, _, hPrimary⟩
    · obtain rfl := List.mem_singleton.mp hConfig
      exact ⟨_, _, _, _, _, hLegacy⟩
  · obtain ⟨-, pkEnc, sk, -, rfl⟩ := newConfig_eq_ok.mp hLegacy
    rfl
  · rcases contentHandler_eq_ok.mp hContent with ⟨-, hGateway, -⟩ | ⟨-, hGateway, -⟩
    · exact .inl hGateway
    · exact .inr ⟨_, _, hGateway⟩
  · rcases contentHandler_eq_ok.mp hContent with ⟨-, hGateway, hHandler⟩ | ⟨hProto, -⟩
    · exact ⟨hHandler, defaultGateway_labels hGateway⟩
    · exact absurd hDefault (protoLabels_not_default hProto)

/-- The settings for Prometheus, or those for StatsD in their place. -/
def MetricsConfigured (lib : Libraries) (s : Settings) : Prop :=
  if s.prometheusConfig ≠ [] then ∃ config pattern, lib.unmarshal s.prometheusConfig = some config ∧
    lib.registers config.MetricName = true ∧ parsePattern lib.isValidWildcardName config.ScrapePath = some pattern
  else ∃ timeout, ParseInt (getStringEnv s.statsdTimeout (text "100")) = some timeout ∧
    (s.statsdHost = [] ∨ s.statsdPort = [] ∨ lib.statsdNew (JoinHostPort s.statsdHost s.statsdPort) timeout = true)

theorem configureMetrics_eq_ok {s : Settings} {u : Unit} : configureMetrics lib s = .ok u ↔ MetricsConfigured lib s := by
  have hScrape : ∀ pattern, (∃ mux : Mux Unit, HandleFunc lib.isValidWildcardName [] pattern () = .ok mux) ↔
      ∃ p, parsePattern lib.isValidWildcardName pattern = some p := by
    intro pattern
    constructor
    · rintro ⟨mux, hMux⟩
      obtain ⟨p, hParse, -⟩ := handleFunc_eq_ok.mp hMux
      exact ⟨p, hParse⟩
    · rintro ⟨p, hParse⟩
      exact ⟨_, handleFunc_eq_ok.mpr ⟨p, hParse, nofun, rfl⟩⟩
  unfold configureMetrics MetricsConfigured
  split
  · simp only [bind_eq_ok, orThrow_eq_ok, NewPrometheusMetricsFactory, require_eq_ok, pure, Except.pure]
    constructor
    · rintro ⟨config, hConfig, -, hRegisters, mux, hMux, -⟩
      obtain ⟨p, hParse⟩ := (hScrape _).mp ⟨mux, hMux⟩
      exact ⟨config, p, hConfig, hRegisters, hParse⟩
    · rintro ⟨config, p, hConfig, hRegisters, hParse⟩
      obtain ⟨mux, hMux⟩ := (hScrape _).mpr ⟨p, hParse⟩
      exact ⟨config, hConfig, (), hRegisters, mux, hMux, trivial⟩
  · simp only [bind_eq_ok, orThrow_eq_ok, require_eq_ok, createStatsDClient, decide_eq_true_eq]

/-- What the process needs to start. -/
structure Startable (P : Primitives SK PK) (lib : Libraries) (s : Settings) : Prop where
  primaryKey : ∃ keys, P.deriveKeyPair KEM_X25519_KYBER768_DRAFT00 s.seed = .ok keys
  legacyKey : ∃ seed keys, flipLast s.seed = .ok seed ∧ P.deriveKeyPair KEM_X25519_HKDF_SHA256 seed = .ok keys
  labels : DefaultLabels s ∨ ProtoLabels s
  metrics : MetricsConfigured lib s
  patterns : Patterns lib s.endpoints
  apart : (routes lib s.endpoints).Pairwise fun n1 n2 => ¬Clash n1 n2

theorem routes_parsed (lib : Libraries) (es : List (Bytes × Endpoint)) :
    ∀ n ∈ routes lib es, parsePattern lib.isValidWildcardName n.pattern.str = some n.pattern := by
  intro n hn
  obtain ⟨e, -, he⟩ := List.mem_filterMap.mp hn
  obtain ⟨pattern, hParse, rfl⟩ := Option.map_eq_some_iff.mp he
  exact (parsePattern_str hParse).symm ▸ hParse

theorem contentHandler_starts (proto : Proto) {s : Settings} {configs : List (PrivateConfig SK)}
    (hLabels : DefaultLabels s ∨ ProtoLabels s) (hKeys : (configs.map (·.publicConfig.ID)).Nodup) :
    ∃ content, contentHandler proto s configs = .ok content := by
  obtain ⟨keys, keyMap, hMap⟩ : ∃ keys keyMap, createConfigMap configs ([], .empty) = .ok (keys, keyMap) := by
    refine ⟨_, _, createConfigMap_eq_ok.mpr ⟨?_, rfl, rfl⟩⟩
    change ((configs.map entryOf).map Prod.fst).Nodup
    rwa [List.map_map]
  rcases hLabels with hDefault | hProto
  · have hGateway : NewDefaultGateway configs = .ok ⟨defaultLabelRequest, defaultLabelResponse, keys, keyMap⟩ := by
      rw [NewDefaultGateway, hMap]
      rfl
    exact ⟨_, contentHandler_eq_ok.mpr (.inl ⟨hDefault, hGateway, rfl⟩)⟩
  · have hValid : ¬(s.requestLabel = [] ∨ s.responseLabel = [] ∨ s.requestLabel = s.responseLabel) :=
      protoLabels_not_default hProto
    have hGateway : NewCustomGateway configs s.requestLabel s.responseLabel =
        .ok ⟨s.requestLabel, s.responseLabel, keys, keyMap⟩ := by
      rw [NewCustomGateway, if_neg hValid, hMap]
      rfl
    exact ⟨_, contentHandler_eq_ok.mpr (.inr ⟨hProto, hGateway, rfl⟩)⟩

theorem main_starts (proto : Proto) {s : Settings} (h : Startable P lib s) :
    ∃ server, main P proto lib s = .ok server := by
  obtain ⟨⟨pk, sk⟩, hPrimary⟩ := h.primaryKey
  obtain ⟨seed, ⟨legacyPk, legacySk⟩, hSeed, hLegacy⟩ := h.legacyKey
  let primary : PrivateConfig SK :=
    ⟨⟨s.configID, KEM_X25519_KYBER768_DRAFT00, [⟨KDF_HKDF_SHA256, AEAD_AES128GCM⟩], pk⟩, sk⟩
  let legacy : PrivateConfig SK :=
    ⟨⟨legacyConfigID s.configID, KEM_X25519_HKDF_SHA256, [⟨KDF_HKDF_SHA256, AEAD_AES128GCM⟩], legacyPk⟩, legacySk⟩
  have hPrimaryConfig : NewConfigFromSeed P s.configID KEM_X25519_KYBER768_DRAFT00 KDF_HKDF_SHA256 AEAD_AES128GCM s.seed =
      .ok primary := newConfig_eq_ok.mpr ⟨⟨rfl, rfl, rfl⟩, pk, sk, hPrimary, rfl⟩
  have hLegacyConfig : NewConfigFromSeed P (legacyConfigID s.configID) KEM_X25519_HKDF_SHA256 KDF_HKDF_SHA256
      AEAD_AES128GCM seed = .ok legacy := newConfig_eq_ok.mpr ⟨⟨rfl, rfl, rfl⟩, legacyPk, legacySk, hLegacy, rfl⟩
  have hKeys : ([primary, legacy].map (·.publicConfig.ID)).Nodup := by
    simpa [primary, legacy] using (legacyConfigID_ne s.configID).symm
  obtain ⟨⟨gateway, appHandler⟩, hContent⟩ := contentHandler_starts proto h.labels hKeys
  have hMux : register lib s.endpoints [] = .ok (routes lib s.endpoints) :=
    (register_eq_ok (registered_nil _)).mpr ⟨h.patterns, ⟨routes_parsed lib _, h.apart⟩, rfl⟩
  simp only [main, bind_eq_ok, Prod.exists]
  exact ⟨_, _, hPrimaryConfig, seed, hSeed, _, hLegacyConfig, gateway, appHandler, hContent, (),
    configureMetrics_eq_ok.mpr h.metrics, _, hMux, rfl⟩

/-- All endpoints that are not disabled are plain paths. -/
def PlainEndpoints (s : Settings) : Prop := ∀ e ∈ s.endpoints, e.1 ≠ [] → Plain e.1

instance (s : Settings) : Decidable (PlainEndpoints s) :=
  List.decidableBAll (fun e : Bytes × Endpoint => e.1 ≠ [] → Plain e.1) s.endpoints

/-- Plain endpoints are patterns, and clash when they are the same route. -/
theorem plainEndpoints_apart {s : Settings} (h : PlainEndpoints s) :
    Patterns lib s.endpoints ∧ ((routes lib s.endpoints).Pairwise (fun n1 n2 => ¬Clash n1 n2) ↔
      ((s.endpoints.filter (·.1 ≠ [])).map fun e => (plainPattern e.1).segments).Nodup) := by
  have hRoutes : routes lib s.endpoints = (s.endpoints.filter (·.1 ≠ [])).map fun e => ⟨plainPattern e.1, e.2⟩ := by
    rw [routes, ← List.filterMap_eq_map]
    apply List.filterMap_congr
    intro e he
    simp only [List.mem_filter, decide_eq_true_eq] at he
    rw [parsePattern_plain _ (h e he.1 he.2)]
    rfl
  constructor
  · exact fun e he hSome => ⟨_, parsePattern_plain _ (h e he hSome)⟩
  · rw [hRoutes, List.pairwise_map, List.Nodup, List.pairwise_map]
    simp only [clash_plain_iff, ne_eq]

theorem mem_routes {es : List (Bytes × Endpoint)} {n : RoutingNode Endpoint} : n ∈ routes lib es ↔
    (n.pattern.str, n.handler) ∈ es ∧ n.pattern.str ≠ [] ∧
      parsePattern lib.isValidWildcardName n.pattern.str = some n.pattern := by
  rw [routes, List.mem_filterMap]
  constructor
  · rintro ⟨⟨pattern, e⟩, hMem, hNode⟩
    obtain ⟨p, hParse, rfl⟩ := Option.map_eq_some_iff.mp hNode
    obtain rfl := parsePattern_str hParse
    simp only [List.mem_filter, decide_eq_true_eq] at hMem
    exact ⟨hMem.1, hMem.2, hParse⟩
  · rintro ⟨hMem, hSome, hParse⟩
    exact ⟨_, by simpa using ⟨hMem, hSome⟩, by rw [hParse]; rfl⟩

/-- Two handlers of one pattern would have kept the process from starting. -/
theorem Started.handler_unique {s : Settings} {server : Server SK} {primary legacy : PrivateConfig SK}
    {appHandler : AppContentHandler} (h : Started P lib s server primary legacy appHandler) {pattern : Bytes}
    (hSome : pattern ≠ []) {e e' : Endpoint} (he : (pattern, e) ∈ s.endpoints) (he' : (pattern, e') ∈ s.endpoints) :
    e = e' := by
  obtain ⟨p, hParse⟩ := h.patterns _ he hSome
  obtain rfl := parsePattern_str hParse
  have hFirst : ⟨p, e⟩ ∈ server.mux := h.mux ▸ mem_routes.mpr ⟨he, hSome, hParse⟩
  have hSecond : ⟨p, e'⟩ ∈ server.mux := h.mux ▸ mem_routes.mpr ⟨he', hSome, hParse⟩
  exact (RoutingNode.mk.inj (h.registered.eq_of_same hSecond hFirst rfl rfl rfl)).2

/-! ## Settings for tests -/

/-- The defaults of all variables, with a seed and a secret. -/
def testSettings : Settings where
  seed := [1, 2]
  configID := 0
  requestLabel := []
  responseLabel := []
  httpHandler := ⟨none, none⟩
  debugResponse := false
  prometheusConfig := []
  statsdHost := []
  statsdPort := []
  statsdTimeout := []
  gatewayEndpointEnv := []
  configEndpointEnv := []
  legacyConfigEndpointEnv := []
  echoEndpointEnv := none
  metadataEndpointEnv := none
  healthEndpointEnv := []
  relayGatewaySecret := [7]

def testWorld : World Bytes Bytes where
  go := plainGo
  primitives := testPrimitives
  upstream := ⟨true, 1, fun _ => .ok plainResponse⟩
  random n := .ok (List.replicate n 0)
  random_length := by
    rintro n _ ⟨⟩
    exact List.length_replicate
  dumpRequest _ := .ok []

def testProto : Proto := ⟨fun _ => .error (.other []), fun _ => .ok []⟩

/-- No settings for metrics are used, and all names are ASCII. -/
def testLibraries : Libraries where
  unmarshal _ := none
  registers _ := false
  statsdNew _ _ := false
  isValidWildcardName name := name.all isLetter

theorem testSettings_plain : PlainEndpoints testSettings := by decide

theorem testSettings_startable : Startable testPrimitives testLibraries testSettings where
  primaryKey := ⟨_, rfl⟩
  legacyKey := ⟨_, _, rfl, rfl⟩
  labels := .inl (.inl rfl)
  metrics := ⟨100, by decide, .inl rfl⟩
  patterns := (plainEndpoints_apart testSettings_plain).1
  apart := (plainEndpoints_apart testSettings_plain).2.mpr (by decide)

/-! ## The target is behind the secret -/

/-- An echo endpoint that ends in a slash, above the gateway endpoint, or that names the method: each leads past the
secret. -/
example :
    findHandler (routes testLibraries [(text "/echo/a/b", .target), (text "/echo/", .reflective)])
      ⟨text "POST", [], [], text "/echo/a%2Fb", text "/echo/a/b"⟩ = .handler .reflective ∧
    findHandler (routes testLibraries [(text "/gateway", .target), (text "POST /gateway", .reflective)])
      ⟨text "POST", [], [], text "/gateway", text "/gateway"⟩ = .handler .reflective := by decide

/-! ## Clients are served -/

/-- A path that reaches the endpoint which it names. -/
structure Literal (path : Bytes) : Prop where
  free : 37 ∉ path
  clean : cleanPath path = path
  noSlash : path.getLast? ≠ some 47

section
variable {w : World SK PK} {s : Settings} {server : Server SK} {sha256 : Bytes → Digest} {maxAge : Nat}

theorem Started.serves {primary legacy : PrivateConfig SK} {appHandler : AppContentHandler}
    (h : Started P lib s server primary legacy appHandler) (hPlain : PlainEndpoints s) {pattern : Bytes} {e : Endpoint}
    (he : (pattern, e) ∈ s.endpoints) (hSome : pattern ≠ []) (hLiteral : Literal pattern) {r : Incoming}
    (hPath : r.EscapedPath = pattern) :
    server.ServeHTTP sha256 w maxAge r = .handler (server.handle sha256 w maxAge r.toServerRequest e) ∧
      r.Path = pattern := by
  have hNodes : ∀ n ∈ server.mux, Plain n.pattern.str := by
    intro n hn
    rw [h.mux, mem_routes] at hn
    exact hPlain _ hn.1 hn.2.1
  have hNode : ⟨plainPattern pattern, e⟩ ∈ server.mux :=
    h.mux ▸ mem_routes.mpr ⟨he, hSome, parsePattern_plain _ (hPlain _ he hSome)⟩
  constructor
  · rw [Server.ServeHTTP, hPath,
      findHandler_self h.registered hNodes hNode hLiteral.free hLiteral.clean hLiteral.noSlash]
    rfl
  · have hUnescape := r.unescaped
    rw [hPath, PathUnescape_literal hLiteral.free] at hUnescape
    exact (Option.some.inj hUnescape).symm

/-- The request is answered, in one of the ways in which its randomness can turn out. -/
def Replies (sha256 : Bytes → Digest) (w : World SK PK) (maxAge : Nat) (server : Server SK) (r : Incoming)
    (reply : Reply) : Prop :=
  ∃ run, server.ServeHTTP sha256 w maxAge r = .handler run ∧ run.result = .ok reply

/-- What the relay sends for a client. -/
structure Posts (s : Settings) (r : Incoming) (req : EncapsulatedRequest) : Prop where
  method : r.Method = text "POST"
  path : r.EscapedPath = s.gatewayEndpoint
  contentType : r.Header.Get (text "Content-Type") = ohttpRequestContentType
  secret : r.Header.Get (text "X-Columbia-Relay-Auth") = s.relayGatewaySecret
  body : r.Body = .ok req.Marshal

theorem legacyConfig_fetched (maxAge : Nat) {primary legacy : PrivateConfig SK} {appHandler : AppContentHandler}
    (h : Started P lib s server primary legacy appHandler) (r : ServerRequest) : ∃ reply,
      (legacyConfigHandler server.target maxAge r).result = .ok reply ∧ reply.status = 200 ∧
      UnmarshalPublicConfig reply.body = .ok legacy.publicConfig := by
  have hLegacy : legacy ∈ [primary, legacy] := by simp
  obtain ⟨body, hBody, -⟩ := (h.derived legacy hLegacy).marshal
  have hConfig := h.gateway.config hLegacy
  rw [h.legacyKeyID] at hConfig
  refine ⟨⟨200, [cacheControl maxAge], body⟩, ?_, rfl, ?_⟩
  · rw [legacyConfigHandler, hConfig]
    dsimp only
    rw [Logged.result_bind, hBody]
    rfl
  · exact unmarshalPublicConfig_eq_ok.mpr ⟨(h.derived legacy hLegacy).valid, body, [], hBody, (List.append_nil body).symm⟩

theorem returned_ok_bind {α β : Type} (a : α) (f : Except Failure α → Metered Failure β) :
    (returned (.ok a) >>= f) = f (.ok a) := rfl

theorem outcome_ok_bind {β : Type} {x : Metered Failure Bytes} {a : Bytes} (hx : x.result = .ok a)
    (f : Except Failure Bytes → Metered Failure β) : (outcome x >>= f).result = (f (.ok a)).result := by
  rw [Logged.result_bind, outcome, hx]
  rfl

theorem outcome_panicked_bind {β : Type} {x : Metered Failure Bytes} (hx : x.result = .error .panicked)
    (f : Except Failure Bytes → Metered Failure β) : (outcome x >>= f).result = .error .panicked := by
  rw [Logged.result_bind, outcome, hx]
  rfl

/-- A request for a target, as the handler of encapsulated requests gets it. -/
structure Delivered (target : GatewayResource SK) (r : ServerRequest) (appHandler : AppContentHandler)
    (req : EncapsulatedRequest) : Prop where
  method : r.Method = text "POST"
  contentType : r.Header.Get (text "Content-Type") = ohttpRequestContentType
  handler : target.encapsulationHandlers.get? r.Path = some (.DefaultEncapsulationHandler appHandler)
  read : ∃ data, r.Body = .ok data ∧ UnmarshalEncapsulatedRequest data = .ok req

theorem gatewayHandler_delivered {w : World SK PK} {target : GatewayResource SK} {r : ServerRequest}
    {appHandler : AppContentHandler} {req : EncapsulatedRequest} (h : Delivered target r appHandler req) :
    ∃ reply, gatewayHandler w target r = (defaultHandle w target.gateway appHandler req >>= reply) ∧
      ∀ raw, (reply (.ok raw)).result = .ok ⟨200, [(text "Content-Type", ohttpResponseContentType),
        (text "Connection", text "Keep-Alive")], raw⟩ := by
  obtain ⟨data, hBody, hRead⟩ := h.read
  unfold gatewayHandler
  rw [if_neg (not_not.mpr h.method), if_neg (not_not.mpr h.contentType), h.handler]
  dsimp only
  rw [hBody]
  dsimp only
  rw [hRead, returned_ok_bind]
  exact ⟨_, rfl, fun _ => rfl⟩

/-- A request that opens, and whose payload is answered, gets this answer encapsulated. -/
theorem gatewayHandler_answers {w : World SK PK} {target : GatewayResource SK} {r : ServerRequest}
    {appHandler : AppContentHandler} {payload out raw : Bytes} {req : EncapsulatedRequest} {ctx : RequestContext}
    (h : Delivered target r appHandler req) (hMatches : target.gateway.MatchesConfig req = true)
    (hOpened : target.gateway.DecapsulateRequest w.primitives req = .ok (payload, ctx))
    (hOut : (appHandler.Handle w payload).result = .ok out) (hRaw : encapsulateResponse w ctx out = .ok raw) :
    (gatewayHandler w target r).result = .ok ⟨200, [(text "Content-Type", ohttpResponseContentType),
      (text "Connection", text "Keep-Alive")], raw⟩ := by
  have hHandled : (defaultHandle w target.gateway appHandler req).result = .ok (.ok raw) := by
    unfold defaultHandle
    rw [if_neg (by rw [hMatches]; exact nofun), hOpened, returned_ok_bind]
    dsimp only
    rw [outcome_ok_bind hOut]
    dsimp only
    rw [hRaw]
    rfl
  obtain ⟨reply, hHandler, hReply⟩ := gatewayHandler_delivered (w := w) h
  rw [hHandler, Logged.result_bind, hHandled]
  exact hReply raw

/-- A request that opens, and whose payload makes its handler panic, is not answered. -/
theorem gatewayHandler_panics {w : World SK PK} {target : GatewayResource SK} {r : ServerRequest}
    {appHandler : AppContentHandler} {payload : Bytes} {req : EncapsulatedRequest} {ctx : RequestContext}
    (h : Delivered target r appHandler req) (hMatches : target.gateway.MatchesConfig req = true)
    (hOpened : target.gateway.DecapsulateRequest w.primitives req = .ok (payload, ctx))
    (hOut : (appHandler.Handle w payload).result = .error .panicked) :
    (gatewayHandler w target r).result = .error .panicked := by
  have hHandled : (defaultHandle w target.gateway appHandler req).result = .error .panicked := by
    unfold defaultHandle
    rw [if_neg (by rw [hMatches]; exact nofun), hOpened, returned_ok_bind]
    exact outcome_panicked_bind hOut _
  obtain ⟨reply, hHandler, -⟩ := gatewayHandler_delivered (w := w) h
  rw [hHandler, Logged.result_bind, hHandled]
  rfl

theorem Started.targetHandler {primary legacy : PrivateConfig SK} {appHandler : AppContentHandler}
    (h : Started P lib s server primary legacy appHandler) :
    server.target.encapsulationHandlers.get? s.gatewayEndpoint = some (.DefaultEncapsulationHandler appHandler) := by
  have hSome : s.gatewayEndpoint ≠ [] := getStringEnv_ne_nil _ (by decide)
  have hApart : ∀ e, (e, Endpoint.reflective) ∈ s.endpoints → s.gatewayEndpoint ≠ e := by
    rintro _ hReflective rfl
    exact absurd (h.handler_unique hSome List.mem_cons_self hReflective) nofun
  rw [h.handlers, encapsulationHandlers, OrderedMap.get?_set_of_ne _ _ (hApart _ (by simp [Settings.endpoints])),
    OrderedMap.get?_set_of_ne _ _ (hApart _ (by simp [Settings.endpoints])), OrderedMap.get?_set_self]

/-- What a client encapsulated for one of the configurations is opened by the gateway. -/
theorem Started.opens {w : World SK PK} {primary legacy : PrivateConfig SK}
    (h : Started w.primitives lib s server primary legacy (.BinaryHTTPAppHandler s.httpHandler))
    {config : PrivateConfig SK} (hConfig : config ∈ [primary, legacy]) {payload seed : Bytes}
    {req : EncapsulatedRequest} {ctx : RequestContext}
    (hRequest : Client.EncapsulateRequest w.primitives ⟨server.target.gateway.requestLabel,
      server.target.gateway.responseLabel, config.publicConfig⟩ payload seed = .ok (req, ctx))
    {r : Incoming} (hPost : Posts s r req) (hPath : r.Path = s.gatewayEndpoint) :
    Delivered server.target r.toServerRequest (.BinaryHTTPAppHandler s.httpHandler) req ∧
    server.target.gateway.MatchesConfig req = true ∧
    server.target.gateway.DecapsulateRequest w.primitives req = .ok (payload, ctx) ∧
    ∀ out responseNonce, responseNonce.length = responseNonceLen ctx.suite → ∃ raw,
      ctx.EncapsulateResponse w.primitives out responseNonce = .ok raw ∧
      ctx.DecapsulateResponse w.primitives raw = .ok out := by
  have hClient : server.target.gateway.Client config.publicConfig.ID = .ok ⟨server.target.gateway.requestLabel,
      server.target.gateway.responseLabel, config.publicConfig⟩ := by
    rw [OhttpGateway.Client, h.gateway.config hConfig]
    rfl
  obtain ⟨hRead, hMatches, hOpened, hExporter⟩ :=
    decapsulateRequest_of_encapsulate h.gateway h.derived hClient hRequest
  refine ⟨⟨hPost.method, hPost.contentType, ?_, _, hPost.body, hRead⟩, hMatches, hOpened, fun out responseNonce hLength =>
    decapsulate_of_encapsulate rfl hExporter hLength⟩
  rw [hPath]
  exact h.targetHandler

/-- The reply says what the target, or the gateway in its place, has to say to the payload, for its client to read. -/
def DueReply (w : World SK PK) (s : Settings) (ctx : RequestContext) (payload : Bytes) (reply : Reply) : Prop :=
  reply.status = 200 ∧ ∃ out decoded, ctx.DecapsulateResponse w.primitives reply.body = .ok out ∧
    UnmarshalBinaryResponse w.go out = .ok decoded ∧
    decoded.StatusCode = (expectedAnswer w.go (filteredHandle s.httpHandler w.upstream) payload).StatusCode ∧
    decoded.Body = (expectedAnswer w.go (filteredHandle s.httpHandler w.upstream) payload).Body

/-- Neither the payload nor the answer to it makes the gateway panic. -/
def CanAnswer (w : World SK PK) (s : Settings) (payload : Bytes) : Prop :=
  UnmarshalBinaryRequest w.go payload ≠ .error .panicked ∧
    ¬AnswerTooLarge w.go (filteredHandle s.httpHandler w.upstream) payload

/-- A client that knows one of the configurations gets its payload answered, unless the gateway panics. -/
theorem Started.exchange {w : World SK PK} {primary legacy : PrivateConfig SK}
    (h : Started w.primitives lib s server primary legacy (.BinaryHTTPAppHandler s.httpHandler))
    {config : PrivateConfig SK} (hConfig : config ∈ [primary, legacy])
    (hRandom : ∀ n, ∃ b, w.random n = .ok b) {payload seed : Bytes} {req : EncapsulatedRequest} {ctx : RequestContext}
    (hRequest : Client.EncapsulateRequest w.primitives ⟨server.target.gateway.requestLabel,
      server.target.gateway.responseLabel, config.publicConfig⟩ payload seed = .ok (req, ctx))
    {r : Incoming} (hPost : Posts s r req) (hPath : r.Path = s.gatewayEndpoint) :
    ((∃ reply, (gatewayHandler w server.target r.toServerRequest).result = .ok reply) ↔ CanAnswer w s payload) ∧
    ∀ reply, (gatewayHandler w server.target r.toServerRequest).result = .ok reply → DueReply w s ctx payload reply := by
  obtain ⟨hDelivered, hMatches, hOpened, hSeals⟩ := h.opens hConfig hRequest hPost hPath
  have hError : ∀ e, (binaryHandle w.go (filteredHandle s.httpHandler w.upstream) payload).result = .error e ↔
      e = .panicked ∧ (UnmarshalBinaryRequest w.go payload = .error .panicked ∨
        AnswerTooLarge w.go (filteredHandle s.httpHandler w.upstream) payload) := binaryHandle_error_iff payload
  cases hOut : (binaryHandle w.go (filteredHandle s.httpHandler w.upstream) payload).result with
  | error e =>
    obtain ⟨rfl, hPanics⟩ := (hError e).mp hOut
    rw [gatewayHandler_panics hDelivered hMatches hOpened hOut]
    refine ⟨⟨nofun, fun hCan => ?_⟩, nofun⟩
    exact (hPanics.elim hCan.1 hCan.2).elim
  | ok out =>
    obtain ⟨responseNonce, hNonce⟩ := hRandom (responseNonceLen ctx.suite)
    obtain ⟨raw, hRaw, hResponse⟩ := hSeals out responseNonce (w.random_length _ _ hNonce)
    have hSealed : encapsulateResponse w ctx out = .ok raw := by
      rw [encapsulateResponse, hNonce]
      exact hRaw
    have hCan : CanAnswer w s payload := by
      have hNot : ¬(UnmarshalBinaryRequest w.go payload = .error .panicked ∨
          AnswerTooLarge w.go (filteredHandle s.httpHandler w.upstream) payload) := fun hPanics => by
        have hFails := (hError .panicked).mpr ⟨rfl, hPanics⟩
        rw [hOut] at hFails
        cases hFails
      exact not_or.mp hNot
    rw [gatewayHandler_answers hDelivered hMatches hOpened hOut hSealed]
    refine ⟨⟨fun _ => hCan, fun _ => ⟨_, rfl⟩⟩, ?_⟩
    rintro reply ⟨⟩
    obtain ⟨decoded, hDecoded⟩ := binary_answer hOut
    exact ⟨rfl, out, decoded, hResponse, hDecoded⟩

theorem Replies.unique {sha256 : Bytes → Digest} {w : World SK PK} {maxAge : Nat} {r : Incoming} {a b : Reply}
    (ha : Replies sha256 w maxAge server r a) (hb : Replies sha256 w maxAge server r b) : a = b := by
  obtain ⟨run, hRun, ha⟩ := ha
  obtain ⟨run', hRun', hb⟩ := hb
  rw [hRun] at hRun'
  cases hRun'
  exact Except.ok.inj (ha.symm.trans hb)

/-- An endpoint that is named by a plain literal path. -/
theorem Started.named {w : World SK PK} {primary legacy : PrivateConfig SK} {appHandler : AppContentHandler}
    (h : Started P lib s server primary legacy appHandler) {pattern : Bytes} {e : Endpoint}
    (he : (pattern, e) ∈ [(s.gatewayEndpoint, .target), (s.legacyConfigEndpoint, .legacyConfig),
      (s.configEndpoint, .config)]) (hPlain : PlainEndpoints s) (hLiteral : Literal pattern) {r : Incoming}
    (hPath : r.EscapedPath = pattern) :
    server.ServeHTTP sha256 w maxAge r = .handler (server.handle sha256 w maxAge r.toServerRequest e) ∧
      r.Path = pattern := by
  have hMem : (pattern, e) ∈ s.endpoints ∧ pattern ≠ [] := by
    simp only [List.mem_cons, List.not_mem_nil, or_false, Prod.mk.injEq] at he
    rcases he with ⟨rfl, rfl⟩ | ⟨rfl, rfl⟩ | ⟨rfl, rfl⟩
    all_goals exact ⟨by simp [Settings.endpoints], getStringEnv_ne_nil _ (by decide)⟩
  exact h.serves hPlain hMem.1 hMem.2 hLiteral hPath

theorem Started.configured {w : World SK PK} {primary legacy : PrivateConfig SK} {appHandler : AppContentHandler}
    (h : Started P lib s server primary legacy appHandler) (hPlain : PlainEndpoints s)
    (hLiteral : Literal s.legacyConfigEndpoint) {r : Incoming} (hPath : r.EscapedPath = s.legacyConfigEndpoint) :
    ∃ reply, Replies sha256 w maxAge server r reply ∧ reply.status = 200 ∧
      UnmarshalPublicConfig reply.body = .ok legacy.publicConfig := by
  obtain ⟨reply, hReply, hStatus, hRead⟩ := legacyConfig_fetched maxAge h r.toServerRequest
  exact ⟨reply, ⟨_, (h.named (e := .legacyConfig) (by simp) hPlain hLiteral hPath).1, hReply⟩, hStatus, hRead⟩

/-- What is posted for a client is answered with what is due to its payload. -/
theorem Started.answers {w : World SK PK} {primary legacy : PrivateConfig SK}
    (h : Started w.primitives lib s server primary legacy (.BinaryHTTPAppHandler s.httpHandler))
    (hPlain : PlainEndpoints s) (hLiteral : Literal s.gatewayEndpoint) (hRandom : ∀ n, ∃ b, w.random n = .ok b)
    {config : PrivateConfig SK} (hConfig : config ∈ [primary, legacy]) {payload seed : Bytes} {req : EncapsulatedRequest}
    {ctx : RequestContext}
    (hRequest : Client.EncapsulateRequest w.primitives ⟨server.target.gateway.requestLabel,
      server.target.gateway.responseLabel, config.publicConfig⟩ payload seed = .ok (req, ctx))
    {r : Incoming} (hPost : Posts s r req) :
    ((∃ reply, Replies sha256 w maxAge server r reply) ↔ CanAnswer w s payload) ∧
    ∀ reply, Replies sha256 w maxAge server r reply → DueReply w s ctx payload reply := by
  obtain ⟨hServed, hPath⟩ : server.ServeHTTP sha256 w maxAge r =
      .handler (server.handle sha256 w maxAge r.toServerRequest .target) ∧ r.Path = s.gatewayEndpoint :=
    h.named (by simp) hPlain hLiteral hPost.path
  have hPassed : ¬(server.settings.relayGatewaySecret ≠ [] ∧ sha256 (r.Header.Get (text "X-Columbia-Relay-Auth")) ≠
      sha256 server.settings.relayGatewaySecret) := fun hRefused => hRefused.2 (by rw [hPost.secret, h.settings])
  have hReplies : ∀ reply, Replies sha256 w maxAge server r reply ↔
      (gatewayHandler w server.target r.toServerRequest).result = .ok reply := by
    intro reply
    rw [Replies, hServed, Server.handle, requireRelaySecret, if_neg hPassed]
    simp only [Found.handler.injEq, exists_eq_left']
  simp only [hReplies]
  exact h.exchange hConfig hRandom hRequest hPost hPath

end

end

end Columbia.Gateway.Main
