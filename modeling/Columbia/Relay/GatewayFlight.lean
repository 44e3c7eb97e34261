import Columbia.Js.Value
import Columbia.Lib.Transition
import Mathlib.Data.List.Nodup
import Mathlib.Logic.Function.Basic

/-! # Gateway fetches of the relay: `proxyGatewayRequest`, `serveConfig`, `forwardToGateway`

A flight is one gateway request with the callers that wait for it. Callers are numbered as they come in,
flights as they are started. Sockets close, the gateway answers, fails or times out in any order;
a listener that is no longer registered does nothing. An exception in a listener ends the process.
-/
namespace Columbia.Relay.GatewayFlight
open Columbia.Js Columbia.Lib
set_option autoImplicit false

inductive Route
  | relay
  | ohttpConfigs
  deriving DecidableEq

inductive Reason
  | gw_error
  | gres_error
  | resp_too_large
  | client_disconnect
  deriving DecidableEq

structure Log where
  route : Route
  status : Nat
  reason : Option Reason
  deriving DecidableEq

structure Reply where
  status : Nat
  contentType : Option Str
  body : Bytes
  deriving DecidableEq

/-- A response object, with what was written to it and logged about it. -/
structure Caller where
  destroyed : Bool
  headersSent : Bool
  writableEnded : Bool
  replies : List Reply
  logs : List Log
  deriving DecidableEq

/-- The gateway's response; `delivered` is everything it sent, `rc` what the flight kept. -/
structure Gres where
  statusCode : Nat
  contentType : Option Str
  rc : List Bytes
  rcLen : Nat
  delivered : List Bytes
  ended : Bool
  destroyed : Bool
  deriving DecidableEq

/-- `callers` are waiting, `joined` ever waited; `sent` holds the body once `greq.end` was called. -/
structure Flight where
  route : Route
  completed : Bool
  callers : List Nat
  joined : List Nat
  gatewayResponse : Option Gres
  greqDestroyed : Bool
  sent : Option Bytes
  deriving DecidableEq

structure ConfigCache where
  body : Bytes
  contentType : Str
  fetchedAt : Int

structure Server where
  callers : Nat → Caller
  callerCount : Nat
  flights : Nat → Flight
  flightCount : Nat
  configFlight : Option Nat
  configCache : Option ConfigCache
  crashed : Bool

structure Config where
  maxRespBytes : Nat
  configTtlMs : Int
  hasCfgGw : Bool

def newCaller (destroyed : Bool) : Caller := ⟨destroyed, false, false, [], []⟩

def newFlight (route : Route) : Flight := ⟨route, false, [], [], none, false, none⟩

/-- Numbers that are not in use yet hold no caller and a flight without waiters. -/
def Server.empty : Server :=
  ⟨fun _ => newCaller false, 0, fun _ => { newFlight .relay with completed := true }, 0, none, none, false⟩

def Caller.write (c : Caller) (reply : Reply) : Caller :=
  { c with headersSent := true, writableEnded := true, replies := c.replies ++ [reply] }

def Caller.log (c : Caller) (entry : Log) : Caller := { c with logs := c.logs ++ [entry] }

def Caller.waits (c : Caller) : Bool := !c.destroyed && !c.headersSent

def Caller.conclude (route : Route) (reason : Option Reason) (reply : Reply) (c : Caller) : Caller :=
  (if c.waits then c.write reply else c).log ⟨route, reply.status, reason⟩

/-- `writeHead` takes no other status. -/
def Reply.sendable (reply : Reply) : Bool := 100 ≤ reply.status && reply.status ≤ 999

theorem Reply.sendable_iff {reply : Reply} : reply.sendable = true ↔ 100 ≤ reply.status ∧ reply.status ≤ 999 := by
  simp [Reply.sendable]

/-- The loop over the callers, and whether `writeHead` threw in it. -/
def concludeAll (route : Route) (reason : Option Reason) (reply : Reply) :
    List Nat → (Nat → Caller) → (Nat → Caller) × Bool
  | [], callers => (callers, false)
  | c :: waiting, callers =>
    if (callers c).waits && !reply.sendable then (callers, true)
    else concludeAll route reason reply waiting (Function.update callers c ((callers c).conclude route reason reply))

def setFlight (s : Server) (f : Nat) (flight : Flight) : Server :=
  { s with flights := Function.update s.flights f flight }

def finish (s : Server) (f : Nat) (reason : Option Reason) (reply : Reply) : Server :=
  if (s.flights f).completed then s
  else
    let (callers, threw) := concludeAll (s.flights f).route reason reply (s.flights f).callers s.callers
    { setFlight s f { s.flights f with
        completed := true
        callers := if threw then (s.flights f).callers else [] } with
      callers := callers
      -- `onFinish` of a configuration fetch clears the shared pointer
      configFlight := if (s.flights f).route = .ohttpConfigs then none else s.configFlight
      -- the handler of `uncaughtException` exits
      crashed := s.crashed || threw }

def fail (s : Server) (f : Nat) (reason : Reason) : Server := finish s f (some reason) ⟨502, none, []⟩

def destroyGres (flight : Flight) : Flight :=
  { flight with gatewayResponse := flight.gatewayResponse.map fun g => { g with destroyed := true } }

def destroyGreq (flight : Flight) : Flight := { flight with greqDestroyed := true }

def onFlight (s : Server) (f : Nat) (change : Flight → Flight) : Server := setFlight s f (change (s.flights f))

def closed (s : Server) (f c : Nat) : Server :=
  if (s.callers c).writableEnded || (s.flights f).completed then s
  else
    let logged := (s.callers c).log ⟨(s.flights f).route, 499, some .client_disconnect⟩
    let left : Server := { setFlight s f { s.flights f with callers := (s.flights f).callers.erase c } with
      callers := Function.update s.callers c logged }
    if (left.flights f).callers = [] then
      onFlight (finish left f (some .client_disconnect) ⟨499, none, []⟩) f fun flight =>
        destroyGreq (destroyGres flight)
    else left

def add (s : Server) (f c : Nat) : Server × Bool :=
  if (s.flights f).completed then (s, false)
  else
    let joined := setFlight s f { s.flights f with
      callers := (s.flights f).callers ++ [c]
      joined := (s.flights f).joined ++ [c] }
    (if (s.callers c).destroyed then closed joined f c else joined, true)

/-- Starts a flight with its first caller; the caller may already be gone. -/
def proxyGatewayRequest (s : Server) (route : Route) (body : Bytes) (c : Nat) : Server :=
  let f := s.flightCount
  let created := { setFlight s f (newFlight route) with flightCount := f + 1 }
  let added := (add created f c).1
  if (added.flights f).completed then added else onFlight added f fun flight => { flight with sent := some body }

def reply (s : Server) (c : Nat) (answer : Reply) : Server :=
  let written := ((s.callers c).write answer).log ⟨.ohttpConfigs, answer.status, none⟩
  { s with callers := Function.update s.callers c written }

def startConfigFlight (s : Server) (c : Nat) : Server :=
  { proxyGatewayRequest s .ohttpConfigs [] c with configFlight := some s.flightCount }

def serveConfig (cfg : Config) (s : Server) (c : Nat) (now : Int) : Server :=
  match s.configCache with
  | some cache =>
    if now - cache.fetchedAt < cfg.configTtlMs then reply s c ⟨200, some cache.contentType, cache.body⟩
    else uncached
  | none => uncached
where
  uncached : Server :=
    if !cfg.hasCfgGw then reply s c ⟨502, none, []⟩
    else
      match s.configFlight with
      | some f => if (add s f c).2 then (add s f c).1 else startConfigFlight s c
      | none => startConfigFlight s c

def arrive (s : Server) (destroyed : Bool) : Server :=
  { s with callers := Function.update s.callers s.callerCount (newCaller destroyed), callerCount := s.callerCount + 1 }

def onData (cfg : Config) (s : Server) (f : Nat) (g : Gres) (chunk : Bytes) : Server :=
  let seen := { g with delivered := g.delivered ++ [chunk] }
  let keep := fun g => onFlight s f fun flight => { flight with gatewayResponse := some g }
  if (s.flights f).completed then keep seen
  else if cfg.maxRespBytes < g.rcLen + chunk.length then
    onFlight (fail s f .resp_too_large) f fun flight =>
      let counted := { seen with rcLen := g.rcLen + chunk.length }
      destroyGreq (destroyGres { flight with gatewayResponse := some counted })
  else keep { seen with rc := g.rc ++ [chunk], rcLen := g.rcLen + chunk.length }

def octetStream : Str := str "application/octet-stream"

/-- `headersForResponse` of the two routes, with what it does to the cache. -/
def headersForResponse (s : Server) (route : Route) (status : Nat) (contentType : Option Str) (body : Bytes)
    (now : Int) : Server × Str :=
  match route with
  | .relay => (s, str "message/ohttp-res")
  | .ohttpConfigs =>
    -- an empty header value is falsy
    let contentType := match contentType with | some t => if t = [] then octetStream else t | none => octetStream
    (if status = 200 then { s with configCache := some ⟨body, contentType, now⟩ } else s, contentType)

def onEnd (s : Server) (f : Nat) (g : Gres) (now : Int) : Server :=
  let s := onFlight s f fun flight => { flight with gatewayResponse := some { g with ended := true } }
  if (s.flights f).completed then s
  else
    let status := if g.statusCode = 0 then 502 else g.statusCode
    let (s, contentType) := headersForResponse s (s.flights f).route status g.contentType g.rc.flatten now
    finish s f none ⟨status, some contentType, g.rc.flatten⟩

inductive Event
  | config (destroyed : Bool) (now : Int)
  | forward (destroyed : Bool) (body : Bytes)
  | destroyCaller (c : Nat)
  | closeCaller (c : Nat)
  | response (f : Nat) (statusCode : Nat) (contentType : Option Str)
  | data (f : Nat) (chunk : Bytes)
  | ended (f : Nat) (now : Int)
  | gresError (f : Nat)
  | timeout (f : Nat)
  | greqError (f : Nat)

/-- A stream ends at most once and sends nothing after its end; a request is answered at most once, with any three
digits for a status. -/
def next (cfg : Config) (s : Server) (event : Event) : Option Server :=
  if s.crashed then none
  else
    match event with
    | .config destroyed now => some (serveConfig cfg (arrive s destroyed) s.callerCount now)
    | .forward destroyed body => some (proxyGatewayRequest (arrive s destroyed) .relay body s.callerCount)
    | .destroyCaller c =>
      if c < s.callerCount then
        some { s with callers := Function.update s.callers c { s.callers c with destroyed := true } }
      else none
    | .closeCaller c =>
      match (List.range s.flightCount).find? fun f => c ∈ (s.flights f).callers with
      | some f => some (closed s f c)
      | none => some s
    | .response f statusCode contentType =>
      if f < s.flightCount ∧ (s.flights f).gatewayResponse = none ∧ statusCode ≤ 999 then
        some (onFlight s f fun flight =>
          { flight with gatewayResponse := some ⟨statusCode, contentType, [], 0, [], false, flight.completed⟩ })
      else none
    | .data f chunk =>
      match (s.flights f).gatewayResponse with
      | some g => if f < s.flightCount ∧ g.ended = false then some (onData cfg s f g chunk) else none
      | none => none
    | .ended f now =>
      match (s.flights f).gatewayResponse with
      | some g => if f < s.flightCount ∧ g.ended = false then some (onEnd s f g now) else none
      | none => none
    | .gresError f =>
      if f < s.flightCount ∧ (s.flights f).gatewayResponse.isSome then
        some (onFlight (fail s f .gres_error) f destroyGreq)
      else none
    | .timeout f => if f < s.flightCount then some (onFlight s f destroyGreq) else none
    | .greqError f => if f < s.flightCount then some (onFlight (fail s f .gw_error) f destroyGres) else none

def gateway (cfg : Config) : System Server Event := ⟨.empty, next cfg⟩

/-- What an event does, and what its listener could rely on. -/
inductive Step (cfg : Config) (s : Server) : Event → Server → Prop
  | config (destroyed : Bool) (now : Int) :
    Step cfg s (.config destroyed now) (serveConfig cfg (arrive s destroyed) s.callerCount now)
  | forward (destroyed : Bool) (body : Bytes) :
    Step cfg s (.forward destroyed body) (proxyGatewayRequest (arrive s destroyed) .relay body s.callerCount)
  | destroyCaller (c : Nat) : Step cfg s (.destroyCaller c)
      { s with callers := Function.update s.callers c { s.callers c with destroyed := true } }
  | closed (f c : Nat) (hc : c ∈ (s.flights f).callers) : Step cfg s (.closeCaller c) (closed s f c)
  | gone (c : Nat) : Step cfg s (.closeCaller c) s
  | response (f statusCode : Nat) (contentType : Option Str) (hf : f < s.flightCount)
    (hFresh : (s.flights f).gatewayResponse = none) (hDigits : statusCode ≤ 999) :
    Step cfg s (.response f statusCode contentType) (onFlight s f fun flight =>
      { flight with gatewayResponse := some ⟨statusCode, contentType, [], 0, [], false, flight.completed⟩ })
  | data (f : Nat) (chunk : Bytes) (g : Gres) (hg : (s.flights f).gatewayResponse = some g) (hOpen : g.ended = false) :
    Step cfg s (.data f chunk) (onData cfg s f g chunk)
  | ended (f : Nat) (now : Int) (g : Gres) (hf : f < s.flightCount) (hg : (s.flights f).gatewayResponse = some g)
    (hOpen : g.ended = false) : Step cfg s (.ended f now) (onEnd s f g now)
  | gresError (f : Nat) : Step cfg s (.gresError f) (onFlight (fail s f .gres_error) f destroyGreq)
  | timeout (f : Nat) : Step cfg s (.timeout f) (onFlight s f destroyGreq)
  | greqError (f : Nat) : Step cfg s (.greqError f) (onFlight (fail s f .gw_error) f destroyGres)

theorem next_up {cfg : Config} {s t : Server} {event : Event} (hNext : next cfg s event = some t) :
    s.crashed = false := by
  unfold next at hNext
  split at hNext
  · cases hNext
  · simpa using ‹¬s.crashed = true›

theorem next_of_crashed {cfg : Config} {s : Server} (h : s.crashed = true) (event : Event) : next cfg s event = none :=
  if_pos h

theorem next_step {cfg : Config} {s t : Server} {event : Event} (hNext : next cfg s event = some t) :
    Step cfg s event t := by
  have hUp := next_up hNext
  unfold next at hNext
  rw [if_neg (by simp [hUp])] at hNext
  cases event with
  | config destroyed now =>
    cases hNext
    exact .config destroyed now
  | forward destroyed body =>
    cases hNext
    exact .forward destroyed body
  | destroyCaller c =>
    simp only at hNext
    split at hNext <;> cases hNext
    exact .destroyCaller c
  | closeCaller c =>
    simp only at hNext
    split at hNext <;> cases hNext
    · rename_i f hFind
      exact .closed f c (by simpa using List.find?_some hFind)
    · exact .gone c
  | response f statusCode contentType =>
    simp only at hNext
    split at hNext <;> cases hNext
    rename_i hFresh
    exact .response f statusCode contentType hFresh.1 hFresh.2.1 hFresh.2.2
  | data f chunk =>
    simp only at hNext
    split at hNext
    · rename_i g hg
      split at hNext <;> cases hNext
      rename_i hLive
      exact .data f chunk g hg hLive.2
    · cases hNext
  | ended f now =>
    simp only at hNext
    split at hNext
    · rename_i g hg
      split at hNext <;> cases hNext
      rename_i hLive
      exact .ended f now g hLive.1 hg hLive.2
    · cases hNext
  | gresError f =>
    simp only at hNext
    split at hNext <;> cases hNext
    exact .gresError f
  | timeout f =>
    simp only at hNext
    split at hNext <;> cases hNext
    exact .timeout f
  | greqError f =>
    simp only at hNext
    split at hNext <;> cases hNext
    exact .greqError f

/-! ## One flight at a time -/

/-- A flight keeps its route and a response that has ended; once completed it is joined no more. -/
structure Grows (flight flight' : Flight) : Prop where
  route : flight'.route = flight.route
  completed : flight.completed = true → flight'.completed = true ∧ flight'.joined = flight.joined
  ended : ∀ g, flight.gatewayResponse = some g → g.ended = true → ∃ g', flight'.gatewayResponse = some g' ∧
    g'.ended = true ∧ g'.statusCode = g.statusCode ∧ g'.delivered = g.delivered

/-- What a step of flight `f` leaves alone; only its own completion clears the shared pointer. -/
structure Touches (f : Nat) (s t : Server) : Prop where
  others : ∀ g, g ≠ f → t.flights g = s.flights g
  grows : Grows (s.flights f) (t.flights f)
  pointer : t.configFlight = s.configFlight ∨ (s.flights f).route = .ohttpConfigs ∧
    (s.flights f).completed = false ∧ (t.flights f).completed = true ∧ t.configFlight = none
  flightCount : t.flightCount = s.flightCount
  callerCount : t.callerCount = s.callerCount
  cache : t.configCache = s.configCache

theorem Grows.refl (flight : Flight) : Grows flight flight :=
  ⟨rfl, fun h => ⟨h, rfl⟩, fun g hg hEnded => ⟨g, hg, hEnded, rfl, rfl⟩⟩

theorem Grows.trans {a b c : Flight} (hab : Grows a b) (hbc : Grows b c) : Grows a c := by
  refine ⟨hbc.route.trans hab.route, fun h => ?_, fun g hg hEnded => ?_⟩
  · obtain ⟨hb, hJoined⟩ := hab.completed h
    obtain ⟨hc, hJoined'⟩ := hbc.completed hb
    exact ⟨hc, hJoined'.trans hJoined⟩
  · obtain ⟨g', hg', hEnded', hStatus, hDelivered⟩ := hab.ended g hg hEnded
    obtain ⟨g'', hg'', hEnded'', hStatus', hDelivered'⟩ := hbc.ended g' hg' hEnded'
    exact ⟨g'', hg'', hEnded'', hStatus'.trans hStatus, hDelivered'.trans hDelivered⟩

theorem Touches.refl (f : Nat) (s : Server) : Touches f s s := ⟨fun _ _ => rfl, .refl _, .inl rfl, rfl, rfl, rfl⟩

theorem Touches.trans {f : Nat} {s t u : Server} (hst : Touches f s t) (htu : Touches f t u) : Touches f s u := by
  refine ⟨fun g hg => (htu.others g hg).trans (hst.others g hg), hst.grows.trans htu.grows, ?_,
    htu.flightCount.trans hst.flightCount, htu.callerCount.trans hst.callerCount, htu.cache.trans hst.cache⟩
  rcases hst.pointer with hSame | ⟨hRoute, hOpen, hDone, hNone⟩
  · rcases htu.pointer with hSame' | ⟨hRoute, hOpen, hDone, hNone⟩
    · exact .inl (hSame'.trans hSame)
    · refine .inr ⟨hst.grows.route ▸ hRoute, ?_, hDone, hNone⟩
      cases hCompleted : (s.flights f).completed with
      | false => rfl
      | true => rw [(hst.grows.completed hCompleted).1] at hOpen; cases hOpen
  · rcases htu.pointer with hSame' | ⟨-, hOpen', -, -⟩
    · exact .inr ⟨hRoute, hOpen, (htu.grows.completed hDone).1, hSame'.trans hNone⟩
    · rw [hDone] at hOpen'
      cases hOpen'

@[simp] theorem setFlight_self (s : Server) (f : Nat) (flight : Flight) : (setFlight s f flight).flights f = flight :=
  Function.update_self ..

@[simp] theorem setFlight_of_ne (s : Server) {f g : Nat} (flight : Flight) (h : g ≠ f) :
    (setFlight s f flight).flights g = s.flights g := Function.update_of_ne h ..

@[simp] theorem setFlight_callers (s : Server) (f : Nat) (flight : Flight) :
    (setFlight s f flight).callers = s.callers := rfl

theorem touches_onFlight (s : Server) (f : Nat) {change : Flight → Flight}
    (h : Grows (s.flights f) (change (s.flights f))) : Touches f s (onFlight s f change) :=
  ⟨fun g hg => by simp [onFlight, hg], by simpa [onFlight] using h, .inl rfl, rfl, rfl, rfl⟩

theorem grows_destroyGreq (flight : Flight) : Grows flight (destroyGreq flight) :=
  ⟨rfl, fun h => ⟨h, rfl⟩, fun g hg hEnded => ⟨g, hg, hEnded, rfl, rfl⟩⟩

theorem grows_destroyGres (flight : Flight) : Grows flight (destroyGres flight) :=
  ⟨rfl, fun h => ⟨h, rfl⟩, fun g hg hEnded => ⟨{ g with destroyed := true }, by simp [destroyGres, hg], hEnded, rfl, rfl⟩⟩

theorem finish_of_completed {s : Server} {f : Nat} (h : (s.flights f).completed = true) (reason : Option Reason)
    (reply : Reply) : finish s f reason reply = s := by
  rw [finish, if_pos h]

@[simp] theorem finish_completed (s : Server) (f : Nat) (reason : Option Reason) (reply : Reply) :
    ((finish s f reason reply).flights f).completed = true := by
  unfold finish
  split
  · assumption
  · simp

@[simp] theorem finish_gatewayResponse (s : Server) (f : Nat) (reason : Option Reason) (reply : Reply) :
    ((finish s f reason reply).flights f).gatewayResponse = (s.flights f).gatewayResponse := by
  unfold finish
  split
  · rfl
  · simp

theorem touches_finish (s : Server) (f : Nat) (reason : Option Reason) (reply : Reply) :
    Touches f s (finish s f reason reply) := by
  cases h : (s.flights f).completed with
  | true =>
    rw [finish_of_completed h]
    exact .refl f s
  | false =>
    rw [finish, h, if_neg (by decide)]
    refine ⟨fun g hg => by simp [hg], ⟨by simp, fun hDone => absurd hDone (by simp [h]), fun g hg hEnded =>
      ⟨g, by simpa using hg, hEnded, rfl, rfl⟩⟩, ?_, rfl, rfl, rfl⟩
    by_cases hRoute : (s.flights f).route = .ohttpConfigs
    · exact .inr ⟨hRoute, h, by simp, by simp [hRoute]⟩
    · exact .inl (by simp [hRoute])

theorem touches_closed (s : Server) (f c : Nat) : Touches f s (closed s f c) := by
  unfold closed
  split
  · exact .refl f s
  · rename_i hOpen
    simp only
    have hLeft : Touches f s { setFlight s f { s.flights f with callers := (s.flights f).callers.erase c } with
        callers := Function.update s.callers c
          ((s.callers c).log ⟨(s.flights f).route, 499, some .client_disconnect⟩) } :=
      ⟨fun g hg => by simp [hg], ⟨by simp, fun hDone => by simp [hDone] at hOpen,
        fun g hg hEnded => ⟨g, by simpa using hg, hEnded, rfl, rfl⟩⟩, .inl rfl, rfl, rfl, rfl⟩
    split
    · exact (hLeft.trans (touches_finish _ f _ _)).trans
        (touches_onFlight _ f ((grows_destroyGres _).trans (grows_destroyGreq _)))
    · exact hLeft

theorem touches_add (s : Server) (f c : Nat) : Touches f s (add s f c).1 := by
  unfold add
  split
  · exact .refl f s
  · rename_i hOpen
    simp only
    have hJoined : Touches f s (setFlight s f { s.flights f with
        callers := (s.flights f).callers ++ [c], joined := (s.flights f).joined ++ [c] }) :=
      ⟨fun g hg => by simp [hg], ⟨by simp, fun hDone => absurd hDone hOpen,
        fun g hg hEnded => ⟨g, by simpa using hg, hEnded, rfl, rfl⟩⟩, .inl rfl, rfl, rfl, rfl⟩
    split
    · exact hJoined.trans (touches_closed _ f c)
    · exact hJoined

/-! ## Callers: who waits, who was answered -/

def Pristine (c : Caller) : Prop := c.headersSent = false ∧ c.writableEnded = false ∧ c.replies = [] ∧ c.logs = []

def AtMostOnce (c : Caller) : Prop := c.replies.length ≤ 1 ∧ c.logs.length ≤ 1

/-- An unfinished flight holds all that the gateway delivered so far, within the bound. -/
structure Holds (cfg : Config) (g : Gres) : Prop where
  all : g.rc = g.delivered
  counted : g.rcLen = g.rc.flatten.length
  bounded : g.rcLen ≤ cfg.maxRespBytes
  threeDigits : g.statusCode ≤ 999

def Kept (cfg : Config) (flight : Flight) : Prop :=
  ∀ g, flight.gatewayResponse = some g → flight.completed = false → Holds cfg g

structure FlightInv (cfg : Config) (callers : Nat → Caller) (flight : Flight) : Prop where
  unique : flight.callers.Nodup
  joined : flight.joined.Nodup
  waiting : ∀ c ∈ flight.callers, c ∈ flight.joined ∧ Pristine (callers c)
  concluded : ∀ c ∈ flight.joined, c ∉ flight.callers → (callers c).logs.length = 1
  settled : flight.completed = true → flight.callers = []
  kept : Kept cfg flight

structure CallersInv (cfg : Config) (s : Server) : Prop where
  flights : s.crashed = false → ∀ f, FlightInv cfg s.callers (s.flights f)
  callers : ∀ c, AtMostOnce (s.callers c)
  apart : ∀ f g c, c ∈ (s.flights f).joined → c ∈ (s.flights g).joined → f = g
  known : ∀ f c, c ∈ (s.flights f).joined → c < s.callerCount

theorem Pristine.atMostOnce {c : Caller} (h : Pristine c) : AtMostOnce c := by
  obtain ⟨-, -, hReplies, hLogs⟩ := h
  simp [AtMostOnce, hReplies, hLogs]

variable {cfg : Config}

theorem FlightInv.congr {callers callers' : Nat → Caller} {flight : Flight} (h : FlightInv cfg callers flight)
    (hSame : ∀ c ∈ flight.joined, callers' c = callers c) : FlightInv cfg callers' flight := by
  refine ⟨h.unique, h.joined, fun c hc => ?_, fun c hc hGone => ?_, h.settled, h.kept⟩
  · obtain ⟨hJoined, hPristine⟩ := h.waiting c hc
    exact ⟨hJoined, (hSame c hJoined).symm ▸ hPristine⟩
  · rw [hSame c hc]
    exact h.concluded c hc hGone

theorem CallersInv.update {s t : Server} {f : Nat} (h : CallersInv cfg s) (hUp : s.crashed = false)
    (hTouches : Touches f s t) (hJoined : (t.flights f).joined = (s.flights f).joined)
    (hCallers : ∀ c, c ∉ (s.flights f).joined → t.callers c = s.callers c)
    (hFlight : t.crashed = false → FlightInv cfg t.callers (t.flights f)) (hOnce : ∀ c, AtMostOnce (t.callers c)) :
    CallersInv cfg t := by
  have hAll : ∀ g, (t.flights g).joined = (s.flights g).joined := by
    intro g
    rcases eq_or_ne g f with rfl | hg
    · exact hJoined
    · rw [hTouches.others g hg]
  refine ⟨fun hUp' g => ?_, hOnce, ?_, ?_⟩
  · rcases eq_or_ne g f with rfl | hg
    · exact hFlight hUp'
    · rw [hTouches.others g hg]
      exact (h.flights hUp g).congr fun c hc => hCallers c fun hc' => hg (h.apart g f c hc hc')
  · simp only [hAll]
    exact h.apart
  · simp only [hAll, hTouches.callerCount]
    exact h.known

theorem CallersInv.onFlight {s : Server} (h : CallersInv cfg s) (hUp : s.crashed = false) (f : Nat)
    {change : Flight → Flight}
    (hGrows : Grows (s.flights f) (change (s.flights f)))
    (hCallers : (change (s.flights f)).callers = (s.flights f).callers)
    (hJoined : (change (s.flights f)).joined = (s.flights f).joined)
    (hCompleted : (change (s.flights f)).completed = (s.flights f).completed)
    (hKept : Kept cfg (change (s.flights f))) : CallersInv cfg (onFlight s f change) := by
  have hf := h.flights hUp f
  refine h.update hUp (touches_onFlight s f hGrows) ?_ (fun _ _ => rfl) (fun _ => ?_) h.callers
  · simpa [GatewayFlight.onFlight] using hJoined
  · simp only [GatewayFlight.onFlight, setFlight_self]
    refine ⟨hCallers ▸ hf.unique, hJoined ▸ hf.joined, fun c hc => ?_, fun c hc hGone => ?_, fun hDone => ?_, hKept⟩
    · rw [hCallers] at hc
      exact hJoined.symm ▸ hf.waiting c hc
    · rw [hJoined] at hc
      rw [hCallers] at hGone
      exact hf.concluded c hc hGone
    · rw [hCallers]
      exact hf.settled (hCompleted ▸ hDone)

section
variable (route : Route) (reason : Option Reason) {reply : Reply} {waiting : List Nat}

/-- Unless `writeHead` throws, every caller is reached. -/
theorem concludeAll_apply (hNodup : waiting.Nodup) {callers : Nat → Caller}
    (hSent : (concludeAll route reason reply waiting callers).2 = false) (c : Nat) :
    (concludeAll route reason reply waiting callers).1 c =
      if c ∈ waiting then (callers c).conclude route reason reply else callers c := by
  induction waiting generalizing callers with
  | nil => rfl
  | cons d waiting ih =>
    obtain ⟨hNew, hRest⟩ := List.nodup_cons.mp hNodup
    rw [concludeAll] at hSent ⊢
    split at hSent
    · cases hSent
    · rw [if_neg (by assumption), ih hRest hSent]
      rcases eq_or_ne c d with rfl | hcd
      · simp [hNew]
      · simp [hcd]

theorem concludeAll_cases (hNodup : waiting.Nodup) (callers : Nat → Caller) (c : Nat) :
    (concludeAll route reason reply waiting callers).1 c = callers c ∨
      c ∈ waiting ∧ (concludeAll route reason reply waiting callers).1 c = (callers c).conclude route reason reply := by
  induction waiting generalizing callers with
  | nil => exact .inl rfl
  | cons d waiting ih =>
    obtain ⟨hNew, hRest⟩ := List.nodup_cons.mp hNodup
    rw [concludeAll]
    split
    · exact .inl rfl
    · have hLater := ih hRest (Function.update callers d ((callers d).conclude route reason reply))
      rcases eq_or_ne c d with rfl | hcd
      · rcases hLater with hSame | ⟨hMem, -⟩
        · exact .inr ⟨List.mem_cons_self, hSame.trans (Function.update_self ..)⟩
        · exact absurd hMem hNew
      · rw [Function.update_of_ne hcd] at hLater
        exact hLater.imp_right fun hConcluded => ⟨List.mem_cons_of_mem d hConcluded.1, hConcluded.2⟩

/-- It throws at the first caller that still waits, if the status is out of range. -/
theorem concludeAll_threw_iff (hNodup : waiting.Nodup) (callers : Nat → Caller) :
    (concludeAll route reason reply waiting callers).2 = true ↔
      reply.sendable = false ∧ ∃ c ∈ waiting, (callers c).waits = true := by
  induction waiting generalizing callers with
  | nil => simp [concludeAll]
  | cons d waiting ih =>
    obtain ⟨hNew, hRest⟩ := List.nodup_cons.mp hNodup
    have hOthers : ∀ c ∈ waiting,
        Function.update callers d ((callers d).conclude route reason reply) c = callers c := by
      rintro c hc
      exact Function.update_of_ne (ne_of_mem_of_not_mem hc hNew) _ _
    rw [concludeAll]
    split
    · rename_i hThrows
      obtain ⟨hWaits, hStatus⟩ : (callers d).waits = true ∧ reply.sendable = false := by simpa using hThrows
      simp [hWaits, hStatus]
    · rename_i hGoesOn
      rw [ih hRest]
      apply and_congr_right
      intro hStatus
      have hGone : (callers d).waits = false := by simpa [hStatus] using hGoesOn
      simp only [List.exists_mem_cons_iff, hGone, Bool.false_eq_true, false_or]
      constructor
      · rintro ⟨c, hc, hWaits⟩
        exact ⟨c, hc, hOthers c hc ▸ hWaits⟩
      · rintro ⟨c, hc, hWaits⟩
        exact ⟨c, hc, (hOthers c hc).symm ▸ hWaits⟩

theorem concludeAll_of_sendable (h : reply.sendable = true) (callers : Nat → Caller) :
    (concludeAll route reason reply waiting callers).2 = false := by
  induction waiting generalizing callers with
  | nil => rfl
  | cons d waiting ih =>
    rw [concludeAll, if_neg (by simp [h]), ih]

end

/-- Its own statuses never end the process. -/
theorem finish_crashed (s : Server) (f : Nat) (reason : Option Reason) {reply : Reply}
    (hStatus : reply.sendable = true) : (finish s f reason reply).crashed = s.crashed := by
  unfold finish
  split
  · rfl
  · simp [concludeAll_of_sendable _ _ hStatus]

theorem fail_crashed (s : Server) (f : Nat) (reason : Reason) : (fail s f reason).crashed = s.crashed := by
  apply finish_crashed
  rfl

theorem closed_crashed (s : Server) (f c : Nat) : (closed s f c).crashed = s.crashed := by
  unfold closed
  split
  · rfl
  · simp only
    split
    · exact finish_crashed _ f _ rfl
    · rfl

theorem add_crashed (s : Server) (f c : Nat) : (add s f c).1.crashed = s.crashed := by
  unfold add
  split
  · rfl
  · simp only
    split
    · exact closed_crashed _ f c
    · rfl

theorem Pristine.conclude {c : Caller} (h : Pristine c) (route : Route) (reason : Option Reason) (reply : Reply) :
    AtMostOnce (c.conclude route reason reply) ∧ (c.conclude route reason reply).logs.length = 1 := by
  obtain ⟨-, -, hReplies, hLogs⟩ := h
  unfold Caller.conclude
  split <;> simp [AtMostOnce, Caller.log, Caller.write, hReplies, hLogs]

theorem Kept.destroyGres {flight : Flight} (h : Kept cfg flight) : Kept cfg (destroyGres flight) := by
  intro g hg hOpen
  obtain ⟨g', hg', rfl⟩ := Option.map_eq_some_iff.mp hg
  exact { h g' hg' hOpen with }

theorem CallersInv.finish {s : Server} (h : CallersInv cfg s) (hUp : s.crashed = false) (f : Nat)
    (reason : Option Reason) (reply : Reply) : CallersInv cfg (finish s f reason reply) := by
  cases hDone : (s.flights f).completed with
  | true => rwa [finish_of_completed hDone]
  | false =>
    have hf := h.flights hUp f
    have hTouches := touches_finish s f reason reply
    rw [GatewayFlight.finish, hDone, if_neg (by decide)] at hTouches ⊢
    refine h.update hUp hTouches (by simp) (fun c hc => ?_) (fun hUp' => ?_) fun c => ?_
    · refine (concludeAll_cases _ _ hf.unique s.callers c).resolve_right ?_
      exact fun hWaiting => hc (hf.waiting c hWaiting.1).1
    · have hSent : (concludeAll (s.flights f).route reason reply (s.flights f).callers s.callers).2 = false := by
        simpa [hUp] using hUp'
      have hApply := concludeAll_apply _ _ hf.unique hSent
      simp only [setFlight_self, hSent, Bool.false_eq_true, if_false]
      refine ⟨List.nodup_nil, hf.joined, nofun, fun c hc _ => ?_, fun _ => rfl, fun _ _ hOpen => nomatch hOpen⟩
      rw [hApply]
      split
      · exact ((hf.waiting c ‹_›).2.conclude _ _ _).2
      · exact hf.concluded c hc ‹_›
    · rcases concludeAll_cases (s.flights f).route reason hf.unique s.callers c with hSame | ⟨hWaiting, hConcluded⟩
      · exact (congrArg AtMostOnce hSame).mpr (h.callers c)
      · exact (congrArg AtMostOnce hConcluded).mpr ((hf.waiting c hWaiting).2.conclude _ _ _).1

theorem CallersInv.abort {s : Server} (h : CallersInv cfg s) (hUp : s.crashed = false) (f : Nat) :
    CallersInv cfg (GatewayFlight.onFlight (GatewayFlight.finish s f (some .client_disconnect) ⟨499, none, []⟩) f
      fun flight => destroyGreq (destroyGres flight)) := by
  have hFinished := h.finish hUp f (some .client_disconnect) ⟨499, none, []⟩
  have hUp' := (@finish_crashed s f (some .client_disconnect) ⟨499, none, []⟩ rfl).trans hUp
  exact hFinished.onFlight hUp' f ((grows_destroyGres _).trans (grows_destroyGreq _)) rfl rfl rfl
    (Kept.destroyGres (hFinished.flights hUp' f).kept)

theorem CallersInv.closed {s : Server} (h : CallersInv cfg s) (hUp : s.crashed = false) {f c : Nat}
    (hc : c ∈ (s.flights f).callers) : CallersInv cfg (closed s f c) := by
  have hf := h.flights hUp f
  obtain ⟨hJoined, hPristine⟩ := hf.waiting c hc
  unfold GatewayFlight.closed
  split
  · exact h
  · rename_i hOpen
    simp only
    have hLogged : AtMostOnce ((s.callers c).log ⟨(s.flights f).route, 499, some .client_disconnect⟩) ∧
        ((s.callers c).log ⟨(s.flights f).route, 499, some .client_disconnect⟩).logs.length = 1 := by
      obtain ⟨-, -, hReplies, hLogs⟩ := hPristine
      simp [AtMostOnce, Caller.log, hReplies, hLogs]
    have hLeft : CallersInv cfg { setFlight s f { s.flights f with callers := (s.flights f).callers.erase c } with
        callers := Function.update s.callers c
          ((s.callers c).log ⟨(s.flights f).route, 499, some .client_disconnect⟩) } := by
      refine h.update (f := f) hUp ⟨fun g hg => by simp [hg], ⟨by simp, fun hDone => by simp [hDone] at hOpen,
        fun g hg hEnded => ⟨g, by simpa using hg, hEnded, rfl, rfl⟩⟩, .inl rfl, rfl, rfl, rfl⟩ (by simp)
        (fun d hd => Function.update_of_ne (show d ≠ c from fun hdc => hd (hdc ▸ hJoined)) _ _) (fun _ => ?_) fun d => ?_
      · simp only [setFlight_self]
        refine ⟨hf.unique.erase c, hf.joined, fun d hd => ?_, fun d hd hGone => ?_, fun hDone => ?_, hf.kept⟩
        · obtain ⟨hdc, hd⟩ := (List.Nodup.mem_erase_iff hf.unique).mp hd
          rw [Function.update_of_ne hdc]
          exact hf.waiting d hd
        · rcases eq_or_ne d c with rfl | hdc
          · rw [Function.update_self]
            exact hLogged.2
          · rw [Function.update_of_ne hdc]
            exact hf.concluded d hd fun hWaiting => hGone ((List.Nodup.mem_erase_iff hf.unique).mpr ⟨hdc, hWaiting⟩)
        · rw [hf.settled hDone]
          rfl
      · rcases eq_or_ne d c with rfl | hdc
        · simp only [Function.update_self]
          exact hLogged.1
        · simp only [Function.update_of_ne hdc]
          exact h.callers d
    split
    · exact hLeft.abort hUp f
    · exact hLeft

theorem CallersInv.add {s : Server} (h : CallersInv cfg s) (hUp : s.crashed = false) {f c : Nat}
    (hNew : ∀ g, c ∉ (s.flights g).joined)
    (hKnown : c < s.callerCount) (hPristine : Pristine (s.callers c)) : CallersInv cfg (add s f c).1 := by
  unfold GatewayFlight.add
  split
  · exact h
  · rename_i hOpen
    simp only
    have hf := h.flights hUp f
    have hNotWaiting : c ∉ (s.flights f).callers := fun hc => hNew f (hf.waiting c hc).1
    have hJoined : CallersInv cfg (setFlight s f { s.flights f with
        callers := (s.flights f).callers ++ [c], joined := (s.flights f).joined ++ [c] }) := by
      have hMem : ∀ g d, d ∈ ((setFlight s f { s.flights f with
          callers := (s.flights f).callers ++ [c], joined := (s.flights f).joined ++ [c] }).flights g).joined ↔
          d ∈ (s.flights g).joined ∨ g = f ∧ d = c := by
        intro g d
        rcases eq_or_ne g f with rfl | hg
        · simp
        · simp [hg]
      refine ⟨fun _ g => ?_, h.callers, fun g g' d hd hd' => ?_, fun g d hd => ?_⟩
      · rcases eq_or_ne g f with rfl | hg
        · simp only [setFlight_self]
          refine ⟨?_, ?_, fun d hd => ?_, fun d hd hGone => ?_, fun hDone => absurd hDone hOpen, hf.kept⟩
          · exact List.nodup_append.mpr ⟨hf.unique, List.nodup_singleton c, fun a ha b hb hab =>
              hNotWaiting (List.mem_singleton.mp hb ▸ hab ▸ ha)⟩
          · exact List.nodup_append.mpr ⟨hf.joined, List.nodup_singleton c, fun a ha b hb hab =>
              hNew g (List.mem_singleton.mp hb ▸ hab ▸ ha)⟩
          · rcases List.mem_append.mp hd with hd | hd
            · exact ⟨List.mem_append_left _ (hf.waiting d hd).1, (hf.waiting d hd).2⟩
            · rw [List.mem_singleton.mp hd]
              exact ⟨List.mem_append_right _ List.mem_cons_self, hPristine⟩
          · rcases List.mem_append.mp hd with hd | hd
            · exact hf.concluded d hd fun hWaiting => hGone (List.mem_append_left _ hWaiting)
            · exact absurd (List.mem_append_right _ hd) hGone
        · rw [setFlight_of_ne _ _ hg]
          exact h.flights hUp g
      · rcases (hMem g d).mp hd with hOld | ⟨hg, hdc⟩
        · rcases (hMem g' d).mp hd' with hOld' | ⟨-, hdc⟩
          · exact h.apart g g' d hOld hOld'
          · exact absurd (hdc ▸ hOld) (hNew g)
        · rcases (hMem g' d).mp hd' with hOld' | ⟨hg', -⟩
          · exact absurd (hdc ▸ hOld') (hNew g')
          · rw [hg, hg']
      · rcases (hMem g d).mp hd with hd | ⟨-, rfl⟩
        · exact h.known g d hd
        · exact hKnown
    split
    · exact hJoined.closed hUp (by simp)
    · exact hJoined

/-! ## Steps of the relay -/

/-- The cached configuration is all that one configuration fetch was sent with status 200. -/
def Source (cfg : Config) (s : Server) (cache : ConfigCache) : Prop :=
  ∃ f g, f < s.flightCount ∧ (s.flights f).route = .ohttpConfigs ∧ (s.flights f).gatewayResponse = some g ∧
    g.statusCode = 200 ∧ g.ended = true ∧ cache.body = g.delivered.flatten ∧ cache.body.length ≤ cfg.maxRespBytes

structure Inv (cfg : Config) (s : Server) : Prop where
  callers : CallersInv cfg s
  pointer : ∀ f, (s.flights f).route = .ohttpConfigs → (s.flights f).completed = false → s.configFlight = some f
  cache : ∀ cache, s.configCache = some cache → Source cfg s cache

theorem Source.of_grows {s t : Server} {cache : ConfigCache} (h : Source cfg s cache)
    (hCount : s.flightCount ≤ t.flightCount) (hGrows : ∀ f, f < s.flightCount → Grows (s.flights f) (t.flights f)) :
    Source cfg t cache := by
  obtain ⟨f, g, hf, hRoute, hg, hStatus, hEnded, hBody, hLength⟩ := h
  obtain ⟨g', hg', hEnded', hStatus', hDelivered⟩ := (hGrows f hf).ended g hg hEnded
  exact ⟨f, g', by omega, (hGrows f hf).route.trans hRoute, hg', hStatus'.trans hStatus, hEnded',
    hDelivered ▸ hBody, hLength⟩

theorem Touches.grows_all {f : Nat} {s t : Server} (h : Touches f s t) (g : Nat) :
    Grows (s.flights g) (t.flights g) := by
  rcases eq_or_ne g f with rfl | hg
  · exact h.grows
  · rw [h.others g hg]
    exact .refl _

theorem Touches.pointer_kept {f : Nat} {s t : Server} (h : Touches f s t)
    (hPointer : ∀ g, (s.flights g).route = .ohttpConfigs → (s.flights g).completed = false → s.configFlight = some g)
    (g : Nat) (hRoute : (t.flights g).route = .ohttpConfigs) (hOpen : (t.flights g).completed = false) :
    t.configFlight = some g := by
  have hGrows := h.grows_all g
  have hOpen' : (s.flights g).completed = false := by
    cases hDone : (s.flights g).completed with
    | false => rfl
    | true => rw [(hGrows.completed hDone).1] at hOpen; cases hOpen
  have hAt := hPointer g (hGrows.route ▸ hRoute) hOpen'
  rcases h.pointer with hSame | ⟨hRoute', hOpen'', hDone, -⟩
  · rw [hSame, hAt]
  · have hf := hPointer f hRoute' hOpen''
    rw [hAt] at hf
    cases hf
    rw [hDone] at hOpen
    cases hOpen

theorem Inv.touch {f : Nat} {s t : Server} (h : Inv cfg s) (hTouches : Touches f s t) (hCallers : CallersInv cfg t) :
    Inv cfg t := by
  refine ⟨hCallers, hTouches.pointer_kept h.pointer, fun cache hCache => ?_⟩
  rw [hTouches.cache] at hCache
  exact (h.cache cache hCache).of_grows hTouches.flightCount.ge fun g _ => hTouches.grows_all g

theorem Inv.finish {s : Server} (h : Inv cfg s) (hUp : s.crashed = false) (f : Nat) (reason : Option Reason)
    (reply : Reply) : Inv cfg (finish s f reason reply) :=
  h.touch (touches_finish s f reason reply) (h.callers.finish hUp f reason reply)

theorem Inv.onFlight {s : Server} (h : Inv cfg s) (hUp : s.crashed = false) (f : Nat) {change : Flight → Flight}
    (hGrows : Grows (s.flights f) (change (s.flights f)))
    (hCallers : (change (s.flights f)).callers = (s.flights f).callers)
    (hJoined : (change (s.flights f)).joined = (s.flights f).joined)
    (hCompleted : (change (s.flights f)).completed = (s.flights f).completed)
    (hKept : Kept cfg (change (s.flights f))) : Inv cfg (onFlight s f change) :=
  h.touch (touches_onFlight s f hGrows) (h.callers.onFlight hUp f hGrows hCallers hJoined hCompleted hKept)

theorem Inv.fail {s : Server} (h : Inv cfg s) (hUp : s.crashed = false) (f : Nat) (reason : Reason) :
    Inv cfg (fail s f reason) ∧ (GatewayFlight.fail s f reason).crashed = false :=
  ⟨h.finish hUp f _ _, (fail_crashed s f reason).trans hUp⟩

theorem Inv.destroyGreq {s : Server} (h : Inv cfg s) (hUp : s.crashed = false) (f : Nat) :
    Inv cfg (GatewayFlight.onFlight s f destroyGreq) :=
  h.onFlight hUp f (grows_destroyGreq _) rfl rfl rfl (h.callers.flights hUp f).kept

theorem Inv.destroyGres {s : Server} (h : Inv cfg s) (hUp : s.crashed = false) (f : Nat) :
    Inv cfg (GatewayFlight.onFlight s f destroyGres) :=
  h.onFlight hUp f (grows_destroyGres _) rfl rfl rfl (h.callers.flights hUp f).kept.destroyGres

theorem CallersInv.callers_congr {s : Server} {callers : Nat → Caller} {count : Nat} (h : CallersInv cfg s)
    (hCount : s.callerCount ≤ count)
    (hSame : ∀ f c, c ∈ (s.flights f).joined → (Pristine (s.callers c) → Pristine (callers c)) ∧
      (callers c).logs = (s.callers c).logs) (hOnce : ∀ c, AtMostOnce (callers c)) :
    CallersInv cfg { s with callers := callers, callerCount := count } := by
  refine ⟨fun hUp f => ?_, hOnce, h.apart, fun f c hc => (h.known f c hc).trans_le hCount⟩
  have hf := h.flights hUp f
  refine ⟨hf.unique, hf.joined, fun c hc => ?_, fun c hc hGone => ?_, hf.settled, hf.kept⟩
  · obtain ⟨hJoined, hPristine⟩ := hf.waiting c hc
    exact ⟨hJoined, (hSame f c hJoined).1 hPristine⟩
  · rw [(hSame f c hc).2]
    exact hf.concluded c hc hGone

theorem Inv.arrive {s : Server} (h : Inv cfg s) (destroyed : Bool) :
    Inv cfg (arrive s destroyed) ∧ Pristine ((arrive s destroyed).callers s.callerCount) ∧
      ∀ f, s.callerCount ∉ ((arrive s destroyed).flights f).joined := by
  have hNew : ∀ f, s.callerCount ∉ (s.flights f).joined := fun f hc => lt_irrefl _ (h.callers.known f _ hc)
  have hPristine : Pristine (newCaller destroyed) := ⟨rfl, rfl, rfl, rfl⟩
  refine ⟨⟨h.callers.callers_congr (Nat.le_succ _) (fun f c hc => ?_) fun c => ?_, h.pointer, h.cache⟩, ?_, hNew⟩
  · have hne : c ≠ s.callerCount := fun hEq => hNew f (hEq ▸ hc)
    rw [Function.update_of_ne hne]
    exact ⟨fun hp => hp, rfl⟩
  · rcases eq_or_ne c s.callerCount with rfl | hne
    · rw [Function.update_self]
      exact hPristine.atMostOnce
    · rw [Function.update_of_ne hne]
      exact h.callers.callers c
  · simp only [GatewayFlight.arrive, Function.update_self]
    exact hPristine

theorem Inv.reply {s : Server} {c : Nat} (h : Inv cfg s) (hNew : ∀ f, c ∉ (s.flights f).joined)
    (hPristine : Pristine (s.callers c)) (answer : Reply) : Inv cfg (reply s c answer) := by
  refine ⟨h.callers.callers_congr le_rfl (fun f d hd => ?_) fun d => ?_, h.pointer, h.cache⟩
  · have hne : d ≠ c := fun hEq => hNew f (hEq ▸ hd)
    rw [Function.update_of_ne hne]
    exact ⟨fun hp => hp, rfl⟩
  · rcases eq_or_ne d c with rfl | hne
    · obtain ⟨-, -, hReplies, hLogs⟩ := hPristine
      rw [Function.update_self]
      simp [AtMostOnce, Caller.write, Caller.log, hReplies, hLogs]
    · rw [Function.update_of_ne hne]
      exact h.callers.callers d

theorem Inv.destroyCaller {s : Server} (h : Inv cfg s) (c : Nat) :
    Inv cfg { s with callers := Function.update s.callers c { s.callers c with destroyed := true } } := by
  have hSame : ∀ d, (Function.update s.callers c { s.callers c with destroyed := true } d).headersSent =
      (s.callers d).headersSent ∧
      (Function.update s.callers c { s.callers c with destroyed := true } d).writableEnded =
        (s.callers d).writableEnded ∧
      (Function.update s.callers c { s.callers c with destroyed := true } d).replies = (s.callers d).replies ∧
      (Function.update s.callers c { s.callers c with destroyed := true } d).logs = (s.callers d).logs := by
    intro d
    rcases eq_or_ne d c with rfl | hne
    · simp
    · simp [Function.update_of_ne hne]
  refine ⟨h.callers.callers_congr le_rfl (fun f d _ => ?_) fun d => ?_, h.pointer, h.cache⟩
  · obtain ⟨hSent, hEnded, hReplies, hLogs⟩ := hSame d
    rw [Pristine, Pristine, hSent, hEnded, hReplies, hLogs]
    exact ⟨fun hp => hp, rfl⟩
  · obtain ⟨-, -, hReplies, hLogs⟩ := hSame d
    rw [AtMostOnce, hReplies, hLogs]
    exact h.callers.callers d

theorem proxyGatewayRequest_touches (s : Server) (route : Route) (body : Bytes) (c : Nat) :
    Touches s.flightCount { setFlight s s.flightCount (newFlight route) with flightCount := s.flightCount + 1 }
      (proxyGatewayRequest s route body c) := by
  unfold proxyGatewayRequest
  simp only
  split
  · exact touches_add _ _ _
  · exact (touches_add _ _ _).trans (touches_onFlight _ _ ⟨rfl, fun h => ⟨h, rfl⟩, fun g hg hEnded =>
      ⟨g, hg, hEnded, rfl, rfl⟩⟩)

theorem CallersInv.proxyGatewayRequest {s : Server} {c : Nat} (h : CallersInv cfg s) (hUp : s.crashed = false)
    (hNew : ∀ f, c ∉ (s.flights f).joined) (hKnown : c < s.callerCount) (hPristine : Pristine (s.callers c))
    (route : Route) (body : Bytes) : CallersInv cfg (proxyGatewayRequest s route body c) := by
  have hFlights : ∀ f, { setFlight s s.flightCount (newFlight route) with
      flightCount := s.flightCount + 1 }.flights f = if f = s.flightCount then newFlight route else s.flights f :=
    fun f => Function.update_apply ..
  have hCreated : CallersInv cfg { setFlight s s.flightCount (newFlight route) with
      flightCount := s.flightCount + 1 } := by
    refine ⟨fun _ f => ?_, h.callers, fun f g d hd hd' => ?_, fun f d hd => ?_⟩
    · rw [hFlights]
      split
      · exact ⟨List.nodup_nil, List.nodup_nil, nofun, nofun, fun _ => rfl, nofun⟩
      · exact h.flights hUp f
    · rw [hFlights] at hd hd'
      split at hd
      · cases hd
      · split at hd'
        · cases hd'
        · exact h.apart f g d hd hd'
    · rw [hFlights] at hd
      split at hd
      · cases hd
      · exact h.known f d hd
  have hNewCreated : ∀ f, c ∉ ({ setFlight s s.flightCount (newFlight route) with
      flightCount := s.flightCount + 1 }.flights f).joined := by
    intro f
    rw [hFlights]
    split
    · exact List.not_mem_nil
    · exact hNew f
  have hAdded := hCreated.add hUp (f := s.flightCount) hNewCreated hKnown hPristine
  have hUp' := (add_crashed { setFlight s s.flightCount (newFlight route) with flightCount := s.flightCount + 1 }
    s.flightCount c).trans hUp
  unfold GatewayFlight.proxyGatewayRequest
  simp only
  split
  · exact hAdded
  · exact hAdded.onFlight hUp' _ ⟨rfl, fun hDone => ⟨hDone, rfl⟩, fun g hg hEnded => ⟨g, hg, hEnded, rfl, rfl⟩⟩
      rfl rfl rfl (hAdded.flights hUp' _).kept

theorem proxyGatewayRequest_others (s : Server) (route : Route) (body : Bytes) (c : Nat) {f : Nat}
    (hf : f ≠ s.flightCount) : (proxyGatewayRequest s route body c).flights f = s.flights f :=
  ((proxyGatewayRequest_touches s route body c).others f hf).trans (setFlight_of_ne s _ hf)

theorem proxyGatewayRequest_source {s : Server} {cache : ConfigCache} (h : Source cfg s cache) (route : Route)
    (body : Bytes) (c : Nat) : Source cfg (proxyGatewayRequest s route body c) cache := by
  refine h.of_grows ?_ fun f hf => ?_
  · rw [(proxyGatewayRequest_touches s route body c).flightCount]
    exact Nat.le_succ _
  · rw [proxyGatewayRequest_others s route body c (by omega)]
    exact .refl _

theorem Inv.forward {s : Server} {c : Nat} (h : Inv cfg s) (hUp : s.crashed = false) (hNew : ∀ f, c ∉ (s.flights f).joined)
    (hKnown : c < s.callerCount) (hPristine : Pristine (s.callers c)) (body : Bytes) :
    Inv cfg (proxyGatewayRequest s .relay body c) := by
  have hTouches := proxyGatewayRequest_touches s .relay body c
  refine ⟨h.callers.proxyGatewayRequest hUp hNew hKnown hPristine _ _, fun f hRoute hOpen => ?_, fun cache hCache => ?_⟩
  · rcases eq_or_ne f s.flightCount with rfl | hf
    · rw [hTouches.grows.route, setFlight_self] at hRoute
      cases hRoute
    · rw [proxyGatewayRequest_others s _ _ _ hf] at hRoute hOpen
      rcases hTouches.pointer with hSame | ⟨hConfig, -⟩
      · exact hSame.trans (h.pointer f hRoute hOpen)
      · rw [setFlight_self] at hConfig
        cases hConfig
  · rw [hTouches.cache] at hCache
    exact proxyGatewayRequest_source (h.cache cache hCache) _ _ _

theorem Inv.startConfigFlight {s : Server} {c : Nat} (h : Inv cfg s) (hUp : s.crashed = false)
    (hNew : ∀ f, c ∉ (s.flights f).joined) (hKnown : c < s.callerCount) (hPristine : Pristine (s.callers c))
    (hIdle : ∀ f, (s.flights f).route = .ohttpConfigs → (s.flights f).completed = true) :
    Inv cfg (startConfigFlight s c) := by
  have hTouches := proxyGatewayRequest_touches s .ohttpConfigs [] c
  have hCallers := h.callers.proxyGatewayRequest hUp hNew hKnown hPristine .ohttpConfigs []
  refine ⟨⟨hCallers.flights, hCallers.callers, hCallers.apart, hCallers.known⟩, fun f hRoute hOpen => ?_,
    fun cache hCache => ?_⟩
  · rcases eq_or_ne f s.flightCount with rfl | hf
    · rfl
    · simp only [GatewayFlight.startConfigFlight, proxyGatewayRequest_others s _ _ _ hf] at hRoute hOpen
      rw [hIdle f hRoute] at hOpen
      cases hOpen
  · simp only [GatewayFlight.startConfigFlight, hTouches.cache] at hCache
    exact proxyGatewayRequest_source (h.cache cache hCache) _ _ _

theorem add_snd (s : Server) (f c : Nat) : (add s f c).2 = !(s.flights f).completed := by
  unfold add
  split
  · rename_i hDone
    rw [hDone]
    rfl
  · rename_i hOpen
    simp only [Bool.not_eq_true] at hOpen
    rw [hOpen]
    rfl

theorem Inv.idle {s : Server} (h : Inv cfg s)
    (hRefused : ∀ f, s.configFlight = some f → (s.flights f).completed = true) (f : Nat)
    (hRoute : (s.flights f).route = .ohttpConfigs) : (s.flights f).completed = true := by
  cases hOpen : (s.flights f).completed with
  | true => rfl
  | false => rw [← hOpen]; exact hRefused f (h.pointer f hRoute hOpen)

/-- A caller is answered at once, joins the fetch that is under way, or starts one. -/
inductive Served (s : Server) (c : Nat) : Server → Prop
  | replied (answer : Reply) : Served s c (reply s c answer)
  | joined (f : Nat) : Served s c (add s f c).1
  | started (hRefused : ∀ f, s.configFlight = some f → (s.flights f).completed = true) :
    Served s c (startConfigFlight s c)

theorem uncached_served (s : Server) (c : Nat) : Served s c (serveConfig.uncached cfg s c) := by
  unfold serveConfig.uncached
  split
  · exact .replied _
  split
  · rename_i f hPointer
    rw [add_snd]
    split
    · exact .joined f
    · rename_i hDone
      apply Served.started
      intro g hg
      rw [hPointer] at hg
      cases hg
      simpa using hDone
  · rename_i hPointer
    apply Served.started
    intro g hg
    rw [hPointer] at hg
    cases hg

theorem serveConfig_served (s : Server) (c : Nat) (now : Int) : Served s c (serveConfig cfg s c now) := by
  unfold serveConfig
  split
  · split
    · exact .replied _
    · exact uncached_served s c
  · exact uncached_served s c

theorem Inv.serveConfig {s : Server} {c : Nat} (h : Inv cfg s) (hUp : s.crashed = false)
    (hNew : ∀ f, c ∉ (s.flights f).joined) (hKnown : c < s.callerCount) (hPristine : Pristine (s.callers c)) (now : Int) :
    Inv cfg (serveConfig cfg s c now) := by
  have hServed : Served s c (GatewayFlight.serveConfig cfg s c now) := serveConfig_served s c now
  generalize GatewayFlight.serveConfig cfg s c now = t at hServed
  cases hServed with
  | replied answer => exact h.reply hNew hPristine answer
  | joined f => exact h.touch (touches_add s f c) (h.callers.add hUp hNew hKnown hPristine)
  | started hRefused => exact h.startConfigFlight hUp hNew hKnown hPristine (h.idle hRefused)

theorem Inv.onData {s : Server} {f : Nat} {g : Gres} (h : Inv cfg s) (hUp : s.crashed = false)
    (hg : (s.flights f).gatewayResponse = some g) (hOpen : g.ended = false) (chunk : Bytes) :
    Inv cfg (onData cfg s f g chunk) := by
  have hKeep : ∀ g', Kept cfg { s.flights f with gatewayResponse := some g' } →
      Inv cfg (GatewayFlight.onFlight s f fun flight => { flight with gatewayResponse := some g' }) := by
    intro g' hKept
    refine h.onFlight hUp f ⟨rfl, fun hDone => ⟨hDone, rfl⟩, fun g'' hg'' hEnded => ?_⟩ rfl rfl rfl hKept
    rw [hg] at hg''
    cases hg''
    rw [hOpen] at hEnded
    cases hEnded
  unfold GatewayFlight.onData
  simp only
  split
  · rename_i hDone
    exact hKeep _ fun _ _ hNot => by simp [hDone] at hNot
  rename_i hNotDone
  obtain ⟨hAll, hLen, hBound, hDigits⟩ := (h.callers.flights hUp f).kept g hg (by simpa using hNotDone)
  split
  · obtain ⟨hFailed, hUp'⟩ := h.fail hUp f .resp_too_large
    refine hFailed.onFlight hUp' f ⟨rfl, fun hDone => ⟨hDone, rfl⟩, fun g' hg' hEnded => ?_⟩ rfl rfl rfl
      fun _ _ hNot => Bool.noConfusion ((finish_completed s f _ _).symm.trans hNot)
    rw [GatewayFlight.fail, finish_gatewayResponse, hg] at hg'
    cases hg'
    rw [hOpen] at hEnded
    cases hEnded
  · rename_i hFits
    refine hKeep _ fun g' hg' _ => ?_
    cases hg'
    refine ⟨by rw [hAll], by simp [hLen], ?_, hDigits⟩
    simp only
    omega

theorem headersForResponse_cache (s : Server) (route : Route) (status : Nat) (contentType : Option Str) (body : Bytes)
    (now : Int) : (headersForResponse s route status contentType body now).1 = s ∨
      route = .ohttpConfigs ∧ status = 200 ∧ ∃ text, (headersForResponse s route status contentType body now).1 =
        { s with configCache := some ⟨body, text, now⟩ } := by
  cases route with
  | relay => exact .inl rfl
  | ohttpConfigs =>
    simp only [headersForResponse]
    split
    · rename_i hStatus
      exact .inr ⟨trivial, hStatus, _, rfl⟩
    · exact .inl rfl

theorem headersForResponse_crashed (s : Server) (route : Route) (status : Nat) (contentType : Option Str)
    (body : Bytes) (now : Int) : (headersForResponse s route status contentType body now).1.crashed = s.crashed := by
  rcases headersForResponse_cache s route status contentType body now with hSame | ⟨-, -, text, hCache⟩
  · rw [hSame]
  · rw [hCache]

theorem Inv.onEnd {s : Server} {f : Nat} {g : Gres} (h : Inv cfg s) (hUp : s.crashed = false) (hf : f < s.flightCount)
    (hg : (s.flights f).gatewayResponse = some g) (hOpen : g.ended = false) (now : Int) : Inv cfg (onEnd s f g now) := by
  have hEnded : Inv cfg
      (GatewayFlight.onFlight s f fun flight => { flight with gatewayResponse := some { g with ended := true } }) := by
    refine h.onFlight hUp f ⟨rfl, fun hDone => ⟨hDone, rfl⟩, fun g' hg' hEnded' => ?_⟩ rfl rfl rfl fun g' hg' hNot => ?_
    · rw [hg] at hg'
      cases hg'
      rw [hOpen] at hEnded'
      cases hEnded'
    · cases hg'
      exact { (h.callers.flights hUp f).kept g hg hNot with }
  have hFlight : (GatewayFlight.onFlight s f fun flight =>
      { flight with gatewayResponse := some { g with ended := true } }).flights f =
      { s.flights f with gatewayResponse := some { g with ended := true } } := by
    simp [GatewayFlight.onFlight]
  unfold GatewayFlight.onEnd
  simp only
  split
  · exact hEnded
  rename_i hNotDone
  rw [hFlight] at hNotDone ⊢
  obtain ⟨hAll, hLen, hBound, -⟩ := (h.callers.flights hUp f).kept g hg (by simpa using hNotDone)
  have hUp' : (headersForResponse (GatewayFlight.onFlight s f fun flight =>
      { flight with gatewayResponse := some { g with ended := true } }) (s.flights f).route
      (if g.statusCode = 0 then 502 else g.statusCode) g.contentType g.rc.flatten now).1.crashed = false :=
    (headersForResponse_crashed ..).trans hUp
  refine Inv.finish ?_ hUp' f _ _
  rcases headersForResponse_cache (GatewayFlight.onFlight s f fun flight =>
      { flight with gatewayResponse := some { g with ended := true } }) (s.flights f).route
      (if g.statusCode = 0 then 502 else g.statusCode) g.contentType g.rc.flatten now with
    hSame | ⟨hRoute, hStatus, text, hCache⟩
  · rw [hSame]
    exact hEnded
  · rw [hCache]
    refine ⟨⟨hEnded.callers.flights, hEnded.callers.callers, hEnded.callers.apart, hEnded.callers.known⟩,
      hEnded.pointer, fun cache hNew => ?_⟩
    cases hNew
    have hCode : g.statusCode = 200 := by
      split at hStatus
      · cases hStatus
      · exact hStatus
    refine ⟨f, { g with ended := true }, hf, ?_, ?_, hCode, rfl, by rw [hAll], by rw [← hLen]; exact hBound⟩
    · simpa [hFlight] using hRoute
    · simp [hFlight]

theorem Inv.next {s t : Server} {event : Event} (h : Inv cfg s) (hNext : next cfg s event = some t) : Inv cfg t := by
  have hUp := next_up hNext
  cases next_step hNext with
  | config destroyed now =>
    obtain ⟨hArrived, hPristine, hNew⟩ := h.arrive destroyed
    exact hArrived.serveConfig hUp hNew (Nat.lt_succ_self _) hPristine now
  | forward destroyed body =>
    obtain ⟨hArrived, hPristine, hNew⟩ := h.arrive destroyed
    exact hArrived.forward hUp hNew (Nat.lt_succ_self _) hPristine body
  | destroyCaller c => exact h.destroyCaller c
  | closed f c hc => exact h.touch (touches_closed s f c) (h.callers.closed hUp hc)
  | gone c => exact h
  | response f statusCode contentType hf hFresh hDigits =>
    refine h.onFlight hUp f ⟨rfl, fun hDone => ⟨hDone, rfl⟩, fun g hg _ => ?_⟩ rfl rfl rfl fun g hg _ => ?_
    · rw [hFresh] at hg
      cases hg
    · cases hg
      exact ⟨rfl, rfl, Nat.zero_le _, hDigits⟩
  | data f chunk g hg hOpen => exact h.onData hUp hg hOpen chunk
  | ended f now g hf hg hOpen => exact h.onEnd hUp hf hg hOpen now
  | gresError f =>
    obtain ⟨hFailed, hUp'⟩ := h.fail hUp f .gres_error
    exact hFailed.destroyGreq hUp' f
  | timeout f => exact h.destroyGreq hUp f
  | greqError f =>
    obtain ⟨hFailed, hUp'⟩ := h.fail hUp f .gw_error
    exact hFailed.destroyGres hUp' f

theorem inv_empty : Inv cfg .empty := by
  refine ⟨⟨fun _ f => ⟨List.nodup_nil, List.nodup_nil, nofun, nofun, fun _ => rfl, nofun⟩, fun c => ?_, nofun, nofun⟩,
    nofun, nofun⟩
  exact Pristine.atMostOnce ⟨rfl, rfl, rfl, rfl⟩

theorem gateway_invariant {s : Server} (h : (gateway cfg).Reachable s) : Inv cfg s :=
  System.Reachable.invariant (Inv cfg) inv_empty (fun _ _ _ hInv hNext => hInv.next hNext) h

theorem closed_cases {s : Server} (h : Inv cfg s) (hUp : s.crashed = false) {f c : Nat} (hc : c ∈ (s.flights f).callers) :
    ((s.flights f).callers = [c] → ((closed s f c).flights f).completed = true ∧
      ((closed s f c).flights f).greqDestroyed = true ∧
      ∀ g, ((closed s f c).flights f).gatewayResponse = some g → g.destroyed = true) ∧
    ((s.flights f).callers ≠ [c] → ((closed s f c).flights f).completed = false ∧
      ((closed s f c).flights f).greqDestroyed = (s.flights f).greqDestroyed ∧
      ((closed s f c).flights f).gatewayResponse = (s.flights f).gatewayResponse) := by
  have hf := h.callers.flights hUp f
  have hOpen : (s.flights f).completed = false := by
    cases hDone : (s.flights f).completed with
    | false => rfl
    | true => rw [hf.settled hDone] at hc; cases hc
  obtain ⟨-, hEnded, -, -⟩ := (hf.waiting c hc).2
  have hErase : (s.flights f).callers.erase c = [] ↔ (s.flights f).callers = [c] := by
    constructor
    · intro hNil
      have hLength := List.length_erase_of_mem hc
      rw [hNil, List.length_nil] at hLength
      have hPos := List.length_pos_of_mem hc
      have hOne : (s.flights f).callers.length = 1 := by omega
      obtain ⟨d, hd⟩ := List.length_eq_one_iff.mp hOne
      rw [hd] at hc ⊢
      rw [List.mem_singleton.mp hc]
    · intro hOne
      rw [hOne, List.erase_cons_head]
  unfold closed
  rw [hEnded, hOpen, if_neg (by decide)]
  simp only [setFlight_self, hErase]
  constructor
  · intro hOne
    rw [if_pos hOne]
    simp only [onFlight, setFlight_self, destroyGreq, destroyGres]
    refine ⟨finish_completed _ _ _ _, trivial, fun g hg => ?_⟩
    obtain ⟨g', -, rfl⟩ := Option.map_eq_some_iff.mp hg
    rfl
  · intro hMore
    rw [if_neg hMore]
    simp [hOpen]

/-- A part of a flight that its gateway request and the end of its wait leave alone. -/
def Stable {α : Type} (field : Flight → α) : Prop :=
  ∀ a b : Flight, a.route = b.route → a.joined = b.joined → a.sent = b.sent → field a = field b

section
variable {α : Type} {field : Flight → α}

variable (field) in
theorem onFlight_field (s : Server) (f g : Nat) {change : Flight → Flight}
    (h : field (change (s.flights f)) = field (s.flights f)) :
    field ((onFlight s f change).flights g) = field (s.flights g) := by
  rcases eq_or_ne g f with rfl | hg
  · simpa [onFlight] using h
  · simp [onFlight, hg]

theorem finish_field (hField : Stable field) (s : Server) (f g : Nat) (reason : Option Reason) (reply : Reply) :
    field ((finish s f reason reply).flights g) = field (s.flights g) := by
  rcases eq_or_ne g f with rfl | hg
  · unfold finish
    split
    · rfl
    · simp only [setFlight_self]
      exact hField _ _ rfl rfl rfl
  · rw [(touches_finish s f reason reply).others g hg]

theorem closed_field (hField : Stable field) (s : Server) (f c g : Nat) :
    field ((closed s f c).flights g) = field (s.flights g) := by
  have hLeft : field ((setFlight s f { s.flights f with callers := (s.flights f).callers.erase c }).flights g) =
      field (s.flights g) := by
    rcases eq_or_ne g f with rfl | hg
    · rw [setFlight_self]
      exact hField _ _ rfl rfl rfl
    · rw [setFlight_of_ne _ _ hg]
  unfold closed
  split
  · rfl
  · simp only
    split
    · rw [onFlight_field field, finish_field hField]
      · exact hLeft
      · exact hField _ _ rfl rfl rfl
    · exact hLeft

theorem onData_field (hField : Stable field) (s : Server) (f h : Nat) (g : Gres) (chunk : Bytes) :
    field ((onData cfg s f g chunk).flights h) = field (s.flights h) := by
  unfold onData
  simp only
  split
  · exact onFlight_field field s f h (hField _ _ rfl rfl rfl)
  split
  · rw [onFlight_field field]
    · exact finish_field hField s f h _ _
    · exact hField _ _ rfl rfl rfl
  · exact onFlight_field field s f h (hField _ _ rfl rfl rfl)

theorem headersForResponse_callers (s : Server) (route : Route) (status : Nat) (contentType : Option Str)
    (body : Bytes) (now : Int) : (headersForResponse s route status contentType body now).1.callers = s.callers := by
  rcases headersForResponse_cache s route status contentType body now with hSame | ⟨-, -, text, hCache⟩
  · rw [hSame]
  · rw [hCache]

theorem headersForResponse_flights (s : Server) (route : Route) (status : Nat) (contentType : Option Str)
    (body : Bytes) (now : Int) : (headersForResponse s route status contentType body now).1.flights = s.flights := by
  rcases headersForResponse_cache s route status contentType body now with hSame | ⟨-, -, text, hCache⟩
  · rw [hSame]
  · rw [hCache]

theorem onEnd_field (hField : Stable field) (s : Server) (f h : Nat) (g : Gres) (now : Int) :
    field ((onEnd s f g now).flights h) = field (s.flights h) := by
  unfold onEnd
  simp only
  split
  · exact onFlight_field field s f h (hField _ _ rfl rfl rfl)
  · rw [finish_field hField, headersForResponse_flights]
    exact onFlight_field field s f h (hField _ _ rfl rfl rfl)

/-- A step changes such a part of a flight only by letting a caller join it. -/
theorem next_field (hField : Stable field) {s t : Server} {event : Event} (hNext : next cfg s event = some t) {f : Nat}
    (hf : f < s.flightCount)
    (hAdd : ∀ destroyed g, field ((add (arrive s destroyed) g s.callerCount).1.flights f) = field (s.flights f)) :
    field (t.flights f) = field (s.flights f) := by
  have hStart : ∀ destroyed route body,
      field ((proxyGatewayRequest (arrive s destroyed) route body s.callerCount).flights f) = field (s.flights f) :=
    fun destroyed route body => by
      rw [proxyGatewayRequest_others (arrive s destroyed) route body _ (by exact hf.ne)]
      rfl
  cases next_step hNext with
  | config destroyed now =>
    have hServed : Served _ _ (serveConfig cfg (arrive s destroyed) s.callerCount now) := serveConfig_served _ _ now
    generalize serveConfig cfg (arrive s destroyed) s.callerCount now = t at hServed
    cases hServed with
    | replied answer => rfl
    | joined g => exact hAdd destroyed g
    | started hRefused => exact hStart destroyed .ohttpConfigs []
  | forward destroyed body => exact hStart destroyed .relay body
  | destroyCaller c => rfl
  | closed g c hc => exact closed_field hField s g c f
  | gone c => rfl
  | response g statusCode contentType hg hFresh hDigits => exact onFlight_field field s g f (hField _ _ rfl rfl rfl)
  | data g chunk gres hg hOpen => exact onData_field hField s g f gres chunk
  | ended g now gres hf hg hOpen => exact onEnd_field hField s g f gres now
  | gresError g =>
    exact (onFlight_field field _ g f (hField _ _ rfl rfl rfl)).trans (finish_field hField s g f _ _)
  | timeout g => exact onFlight_field field s g f (hField _ _ rfl rfl rfl)
  | greqError g =>
    exact (onFlight_field field _ g f (hField _ _ rfl rfl rfl)).trans (finish_field hField s g f _ _)

end

theorem stable_joined : Stable Flight.joined := fun _ _ _ hJoined _ => hJoined

theorem next_joined {s t : Server} {event : Event} (hNext : next cfg s event = some t) {f : Nat}
    (hf : f < s.flightCount) (hDone : (s.flights f).completed = true) :
    (t.flights f).joined = (s.flights f).joined := by
  apply next_field stable_joined hNext hf
  intro destroyed g
  exact (((touches_add (arrive s destroyed) g s.callerCount).grows_all f).completed hDone).2

/-- Where a flight goes, and what it sends. -/
def course (flight : Flight) : Route × Option Bytes := (flight.route, flight.sent)

theorem stable_course : Stable course := fun _ _ hRoute _ hSent => Prod.ext hRoute hSent

theorem add_course (s : Server) (f c g : Nat) : course ((add s f c).1.flights g) = course (s.flights g) := by
  have hJoined : course ((setFlight s f { s.flights f with
      callers := (s.flights f).callers ++ [c], joined := (s.flights f).joined ++ [c] }).flights g) =
      course (s.flights g) := by
    rcases eq_or_ne g f with rfl | hg
    · rw [setFlight_self]
      rfl
    · rw [setFlight_of_ne _ _ hg]
  unfold add
  split
  · rfl
  · simp only
    split
    · exact (closed_field stable_course _ f c g).trans hJoined
    · exact hJoined

/-- The course of a flight is fixed when it starts. -/
theorem next_course {s t : Server} {event : Event} (hNext : next cfg s event = some t) {f : Nat}
    (hf : f < s.flightCount) : course (t.flights f) = course (s.flights f) := by
  apply next_field stable_course hNext hf
  intro destroyed g
  exact add_course (arrive s destroyed) g s.callerCount f

theorem proxyGatewayRequest_course (s : Server) (route : Route) (body : Bytes) (c : Nat) :
    (proxyGatewayRequest s route body c).flightCount = s.flightCount + 1 ∧
      ∃ sent, course ((proxyGatewayRequest s route body c).flights s.flightCount) = (route, sent) ∧
        (sent = none ∨ sent = some body) := by
  refine ⟨(proxyGatewayRequest_touches s route body c).flightCount, ?_⟩
  have hAdded : course ((add { setFlight s s.flightCount (newFlight route) with flightCount := s.flightCount + 1 }
      s.flightCount c).1.flights s.flightCount) = (route, none) := by
    rw [add_course]
    change course ((setFlight s s.flightCount (newFlight route)).flights s.flightCount) = _
    rw [setFlight_self]
    rfl
  unfold proxyGatewayRequest
  simp only
  split
  · exact ⟨none, hAdded, .inl rfl⟩
  · refine ⟨some body, ?_, .inr rfl⟩
    rw [onFlight, setFlight_self]
    exact Prod.ext (Prod.mk.inj hAdded).1 rfl

theorem finish_flightCount (s : Server) (f : Nat) (reason : Option Reason) (reply : Reply) :
    (finish s f reason reply).flightCount = s.flightCount := (touches_finish s f reason reply).flightCount

theorem onData_flightCount (s : Server) (f : Nat) (g : Gres) (chunk : Bytes) :
    (onData cfg s f g chunk).flightCount = s.flightCount := by
  unfold onData
  simp only
  split
  · rfl
  split
  · exact finish_flightCount s f _ _
  · rfl

theorem onEnd_flightCount (s : Server) (f : Nat) (g : Gres) (now : Int) :
    (onEnd s f g now).flightCount = s.flightCount := by
  unfold onEnd
  simp only
  split
  · rfl
  · rw [finish_flightCount]
    rcases headersForResponse_cache (onFlight s f fun flight =>
        { flight with gatewayResponse := some { g with ended := true } })
        ((onFlight s f fun flight => { flight with gatewayResponse := some { g with ended := true } }).flights f).route
        (if g.statusCode = 0 then 502 else g.statusCode) g.contentType g.rc.flatten now with hSame | ⟨-, -, text, hCache⟩
    · rw [hSame]
      rfl
    · rw [hCache]
      rfl

theorem serveConfig_starts (s : Server) (c : Nat) (now : Int) :
    (serveConfig cfg s c now).flightCount = s.flightCount ∨ (serveConfig cfg s c now).flightCount = s.flightCount + 1 ∧
      ((serveConfig cfg s c now).flights s.flightCount).route = .ohttpConfigs := by
  have hServed : Served s c (serveConfig cfg s c now) := serveConfig_served s c now
  generalize serveConfig cfg s c now = t at hServed
  cases hServed with
  | replied answer => exact .inl rfl
  | joined f => exact .inl (touches_add s f c).flightCount
  | started hRefused =>
    obtain ⟨hCount, sent, hCourse, -⟩ := proxyGatewayRequest_course s .ohttpConfigs [] c
    exact .inr ⟨hCount, (Prod.mk.inj hCourse).1⟩

/-- Without a forwarded body, a step starts no flight but for the configuration. -/
theorem next_starts {s t : Server} {event : Event} (hNext : next cfg s event = some t)
    (hOther : ∀ destroyed body, event ≠ .forward destroyed body) :
    t.flightCount = s.flightCount ∨
      t.flightCount = s.flightCount + 1 ∧ (t.flights s.flightCount).route = .ohttpConfigs := by
  cases next_step hNext with
  | config destroyed now => exact serveConfig_starts (arrive s destroyed) s.callerCount now
  | forward destroyed body => exact absurd rfl (hOther destroyed body)
  | destroyCaller c => exact .inl rfl
  | closed f c hc => exact .inl (touches_closed s f c).flightCount
  | gone c => exact .inl rfl
  | response f statusCode contentType hf hFresh hDigits => exact .inl rfl
  | data f chunk g hg hOpen => exact .inl (onData_flightCount s f g chunk)
  | ended f now g hf hg hOpen => exact .inl (onEnd_flightCount s f g now)
  | gresError f => exact .inl (finish_flightCount s f _ _)
  | timeout f => exact .inl rfl
  | greqError f => exact .inl (finish_flightCount s f _ _)

theorem add_joins {s : Server} {f c : Nat} (hOpen : (s.flights f).completed = false) :
    c ∈ ((add s f c).1.flights f).joined := by
  unfold add
  rw [hOpen, if_neg (by decide)]
  simp only
  split
  · rw [closed_field stable_joined]
    simp
  · simp

theorem proxyGatewayRequest_joins (s : Server) (route : Route) (body : Bytes) (c : Nat) :
    c ∈ ((proxyGatewayRequest s route body c).flights s.flightCount).joined ∧
      (proxyGatewayRequest s route body c).flightCount = s.flightCount + 1 ∧
      ((s.callers c).destroyed = false →
        ((proxyGatewayRequest s route body c).flights s.flightCount).sent = some body) := by
  have hAdded : c ∈ ((add { setFlight s s.flightCount (newFlight route) with
      flightCount := s.flightCount + 1 } s.flightCount c).1.flights s.flightCount).joined :=
    add_joins (by simp [newFlight])
  refine ⟨?_, (proxyGatewayRequest_touches s route body c).flightCount, fun hAlive => ?_⟩
  · unfold proxyGatewayRequest
    simp only
    split
    · exact hAdded
    · rw [onFlight_field Flight.joined]
      · exact hAdded
      · rfl
  · simp [proxyGatewayRequest, add, newFlight, hAlive, onFlight]

theorem serveConfig_joins {s : Server} (destroyed : Bool) {now : Int} (hGw : cfg.hasCfgGw = true)
    (hStale : ∀ cache, s.configCache = some cache → cfg.configTtlMs ≤ now - cache.fetchedAt) :
    let t := serveConfig cfg (arrive s destroyed) s.callerCount now
    (∃ f, s.configFlight = some f ∧ (s.flights f).completed = false ∧ s.callerCount ∈ (t.flights f).joined) ∨
    s.callerCount ∈ (t.flights s.flightCount).joined ∧ t.flightCount = s.flightCount + 1 ∧
      (destroyed = false → (t.flights s.flightCount).sent = some []) := by
  have hStart := proxyGatewayRequest_joins (arrive s destroyed) .ohttpConfigs [] s.callerCount
  have hAlive : ((arrive s destroyed).callers s.callerCount).destroyed = destroyed := by
    simp [arrive, newCaller]
  rw [hAlive] at hStart
  have hUncached : serveConfig cfg (arrive s destroyed) s.callerCount now =
      serveConfig.uncached cfg (arrive s destroyed) s.callerCount := by
    unfold serveConfig
    split
    · rename_i cache hCache
      rw [if_neg (by have := hStale cache hCache; omega)]
    · rfl
  simp only [hUncached, serveConfig.uncached, hGw, Bool.not_true, Bool.false_eq_true, if_false]
  split
  · rename_i f hPointer
    rw [add_snd]
    split
    · rename_i hOpen
      have hOpen' : ((arrive s destroyed).flights f).completed = false := by simpa using hOpen
      exact .inl ⟨f, hPointer, hOpen', add_joins hOpen'⟩
    · exact .inr hStart
  · exact .inr hStart

/-! ## One outcome for each caller -/

/-- Each caller has one outcome, the fetch is aborted only for the last one to leave, fetches of the configuration
follow one another one at a time, and nothing but complete successful answers is cached. -/
structure OneOutcome (cfg : Config) (s : Server) : Prop where
  atMostOnce : ∀ c, (s.callers c).replies.length ≤ 1 ∧ (s.callers c).logs.length ≤ 1
  logged : ∀ f, (s.flights f).completed = true → ∀ c ∈ (s.flights f).joined, (s.callers c).logs.length = 1
  lastOne : ∀ f, f < s.flightCount → ∀ c ∈ (s.flights f).callers,
    next cfg s (.closeCaller c) = some (closed s f c) ∧
      ((s.flights f).callers = [c] → ((closed s f c).flights f).completed = true ∧
        ((closed s f c).flights f).greqDestroyed = true ∧
        ∀ g, ((closed s f c).flights f).gatewayResponse = some g → g.destroyed = true) ∧
      ((s.flights f).callers ≠ [c] → ((closed s f c).flights f).completed = false ∧
        ((closed s f c).flights f).greqDestroyed = (s.flights f).greqDestroyed ∧
        ((closed s f c).flights f).gatewayResponse = (s.flights f).gatewayResponse)
  closedToOthers : ∀ event t, next cfg s event = some t → ∀ f, f < s.flightCount → (s.flights f).completed = true →
    (t.flights f).joined = (s.flights f).joined
  oneConfig : ∀ f g, (s.flights f).route = .ohttpConfigs → (s.flights f).completed = false →
    (s.flights g).route = .ohttpConfigs → (s.flights g).completed = false → f = g
  neverBlocked : ∀ destroyed now t, next cfg s (.config destroyed now) = some t → cfg.hasCfgGw = true →
    (∀ cache, s.configCache = some cache → cfg.configTtlMs ≤ now - cache.fetchedAt) →
    (∃ f, (s.flights f).completed = false ∧ s.callerCount ∈ (t.flights f).joined) ∨
    s.callerCount ∈ (t.flights s.flightCount).joined ∧ t.flightCount = s.flightCount + 1 ∧
      (destroyed = false → (t.flights s.flightCount).sent = some [])
  source : ∀ cache, s.configCache = some cache → Source cfg s cache

/-- No response with a status from 1 to 99 ends an open fetch while a caller that waits for it is connected. -/
def Answerable (s : Server) : Event → Prop
  | .ended f _ => ∀ g, (s.flights f).gatewayResponse = some g → (s.flights f).completed = false →
    (∃ c ∈ (s.flights f).callers, (s.callers c).destroyed = false) → g.statusCode = 0 ∨ 100 ≤ g.statusCode
  | _ => True

theorem Inv.oneOutcome {s : Server} (hInv : Inv cfg s) (hUp : s.crashed = false) : OneOutcome cfg s := by
  have hFlights := hInv.callers.flights hUp
  constructor
  case atMostOnce => exact hInv.callers.callers
  case logged =>
    intro f hDone c hc
    refine (hFlights f).concluded c hc ?_
    rw [(hFlights f).settled hDone]
    exact List.not_mem_nil
  case lastOne =>
    intro f hf c hc
    have hOwn : ∀ g, c ∈ (s.flights g).callers → g = f := fun g hg =>
      hInv.callers.apart g f c ((hFlights g).waiting c hg).1 ((hFlights f).waiting c hc).1
    have hFind : (List.range s.flightCount).find? (fun g => c ∈ (s.flights g).callers) = some f := by
      cases hFound : (List.range s.flightCount).find? fun g => c ∈ (s.flights g).callers with
      | none => exact absurd (by simpa using hc) (List.find?_eq_none.mp hFound f (List.mem_range.mpr hf))
      | some g => rw [hOwn g (by simpa using List.find?_some hFound)]
    refine ⟨?_, closed_cases hInv hUp hc⟩
    unfold GatewayFlight.next
    rw [if_neg (by simp [hUp])]
    simp only [hFind]
  case closedToOthers => exact fun event t hNext f hf hDone => next_joined hNext hf hDone
  case oneConfig =>
    intro f g hRoute hOpen hRoute' hOpen'
    have hf := hInv.pointer f hRoute hOpen
    rw [hInv.pointer g hRoute' hOpen'] at hf
    exact (Option.some.inj hf).symm
  case neverBlocked =>
    intro destroyed now t hNext hGw hStale
    cases next_step hNext with
    | config =>
      rcases serveConfig_joins destroyed hGw hStale with ⟨f, -, hOpen, hJoined⟩ | hStarted
      · exact .inl ⟨f, hOpen, hJoined⟩
      · exact .inr hStarted
  case source => exact hInv.cache

/-- The caller at which `writeHead` throws stays as it was. -/
theorem concludeAll_threw {route : Route} {reason : Option Reason} {reply : Reply} {waiting : List Nat}
    (hNodup : waiting.Nodup) {callers : Nat → Caller}
    (h : (concludeAll route reason reply waiting callers).2 = true) :
    ∃ c ∈ waiting, (concludeAll route reason reply waiting callers).1 c = callers c := by
  induction waiting generalizing callers with
  | nil => cases h
  | cons d waiting ih =>
    obtain ⟨hNew, hRest⟩ := List.nodup_cons.mp hNodup
    rw [concludeAll] at h ⊢
    split at h
    · rw [if_pos (by assumption)]
      exact ⟨d, List.mem_cons_self, rfl⟩
    · rw [if_neg (by assumption)]
      obtain ⟨c, hc, hSame⟩ := ih hRest h
      exact ⟨c, List.mem_cons_of_mem d hc,
        hSame.trans (Function.update_of_ne (ne_of_mem_of_not_mem hc hNew) _ _)⟩

theorem onData_crashed (s : Server) (f : Nat) (g : Gres) (chunk : Bytes) :
    (onData cfg s f g chunk).crashed = s.crashed := by
  unfold onData
  simp only
  split
  · rfl
  split
  · exact fail_crashed s f .resp_too_large
  · rfl

theorem proxyGatewayRequest_crashed (s : Server) (route : Route) (body : Bytes) (c : Nat) :
    (proxyGatewayRequest s route body c).crashed = s.crashed := by
  unfold proxyGatewayRequest
  simp only
  split
  · exact add_crashed _ _ c
  · exact add_crashed _ _ c

theorem forward_up {s t : Server} {destroyed : Bool} {body : Bytes}
    (hNext : next cfg s (.forward destroyed body) = some t) : t.crashed = false := by
  have hUp := next_up hNext
  cases next_step hNext with
  | forward _ _ => exact (proxyGatewayRequest_crashed (arrive s destroyed) .relay body s.callerCount).trans hUp

theorem serveConfig_crashed (s : Server) (c : Nat) (now : Int) : (serveConfig cfg s c now).crashed = s.crashed := by
  have hServed : Served s c (serveConfig cfg s c now) := serveConfig_served s c now
  generalize serveConfig cfg s c now = t at hServed
  cases hServed with
  | replied answer => rfl
  | joined f => exact add_crashed s f c
  | started hRefused => exact proxyGatewayRequest_crashed s .ohttpConfigs [] c

/-- The server once the response of flight `f` is known to be complete. -/
def complete (s : Server) (f : Nat) (g : Gres) : Server :=
  onFlight s f fun flight => { flight with gatewayResponse := some { g with ended := true } }

theorem complete_field {α : Type} (field : Flight → α) (s : Server) (f : Nat) (g : Gres)
    (h : field { s.flights f with gatewayResponse := some { g with ended := true } } = field (s.flights f)) :
    field ((complete s f g).flights f) = field (s.flights f) := by
  rw [complete, onFlight, setFlight_self, h]

/-- The end of a response of an open fetch finishes it, with 502 for a status of 0. -/
theorem onEnd_finishes {s : Server} {f : Nat} (hOpen : (s.flights f).completed = false) (g : Gres) (now : Int) :
    ∃ t contentType, t.flights = (complete s f g).flights ∧ t.callers = s.callers ∧ t.crashed = s.crashed ∧
      onEnd s f g now = finish t f none ⟨if g.statusCode = 0 then 502 else g.statusCode, contentType, g.rc.flatten⟩ := by
  have hStill : ((complete s f g).flights f).completed = false := complete_field Flight.completed s f g rfl ▸ hOpen
  let headers := headersForResponse (complete s f g) ((complete s f g).flights f).route
    (if g.statusCode = 0 then 502 else g.statusCode) g.contentType g.rc.flatten now
  refine ⟨headers.1, some headers.2, headersForResponse_flights .., ?_, headersForResponse_crashed .., ?_⟩
  · exact headersForResponse_callers ..
  · change (if ((complete s f g).flights f).completed then complete s f g else _) = _
    rw [hStill, if_neg (by decide)]
    rfl

/-- The end of a response is where the process can end too. -/
theorem onEnd_threw_iff {s : Server} (hInv : Inv cfg s) (hUp : s.crashed = false) {f : Nat} {g : Gres}
    (hg : (s.flights f).gatewayResponse = some g) (hOpen : (s.flights f).completed = false) (now : Int) :
    (onEnd s f g now).crashed = true ↔ (g.statusCode ≠ 0 ∧ g.statusCode < 100) ∧
      ∃ c ∈ (s.flights f).callers, (s.callers c).destroyed = false := by
  have hFlight := hInv.callers.flights hUp f
  have hDigits := (hFlight.kept g hg hOpen).threeDigits
  obtain ⟨t, contentType, hFlights, hCallers, hSame, hEnd⟩ := onEnd_finishes hOpen g now
  have hWaiting : (t.flights f).callers = (s.flights f).callers := by
    rw [hFlights]
    exact complete_field Flight.callers s f g rfl
  have hStill : (t.flights f).completed = false := by
    rw [hFlights]
    exact (complete_field Flight.completed s f g rfl).trans hOpen
  have hWaits : ∀ c ∈ (s.flights f).callers, ((s.callers c).waits = true ↔ (s.callers c).destroyed = false) := by
    intro c hc
    obtain ⟨hUnsent, -⟩ := (hFlight.waiting c hc).2
    simp [Caller.waits, hUnsent]
  have hStatus : ∀ contentType body, (⟨if g.statusCode = 0 then 502 else g.statusCode, contentType, body⟩ :
      Reply).sendable = false ↔ g.statusCode ≠ 0 ∧ g.statusCode < 100 := by
    intro contentType body
    rw [← Bool.not_eq_true, Reply.sendable_iff]
    simp only
    split <;> omega
  rw [hEnd, finish, hStill, if_neg (by decide)]
  simp only [hSame, hUp, Bool.false_or]
  rw [hWaiting, hCallers, concludeAll_threw_iff _ _ hFlight.unique, hStatus]
  apply and_congr_right
  intro _
  exact exists_congr fun c => and_congr_right (hWaits c)

theorem onEnd_crashed_iff {s : Server} (hInv : Inv cfg s) (hUp : s.crashed = false) {f : Nat} {g : Gres}
    (hg : (s.flights f).gatewayResponse = some g) (now : Int) :
    (onEnd s f g now).crashed = false ↔ Answerable s (.ended f now) := by
  cases hDone : (s.flights f).completed with
  | true =>
    have hSame : (onEnd s f g now).crashed = s.crashed := by simp [onEnd, onFlight, hDone, setFlight]
    rw [hSame, hUp]
    exact ⟨fun _ g' _ hOpen => absurd hOpen (by simp [hDone]), fun _ => rfl⟩
  | false =>
    rw [← Bool.not_eq_true, onEnd_threw_iff hInv hUp hg hDone now]
    constructor
    · intro hNot g' hg' _ hLive
      obtain rfl := Option.some.inj (hg.symm.trans hg')
      by_contra hStatus
      exact hNot ⟨by omega, hLive⟩
    · rintro hAnswerable ⟨hStatus, hLive⟩
      have hSendable := hAnswerable g hg hDone hLive
      omega

/-- Without such a response the process stays up. -/
theorem next_crashed_iff {s t : Server} {event : Event} (hInv : Inv cfg s) (hNext : next cfg s event = some t) :
    t.crashed = false ↔ Answerable s event := by
  have hUp := next_up hNext
  cases next_step hNext with
  | config destroyed now =>
    exact iff_of_true ((serveConfig_crashed (arrive s destroyed) s.callerCount now).trans hUp) trivial
  | forward destroyed body =>
    exact iff_of_true (forward_up hNext) trivial
  | destroyCaller c => exact iff_of_true hUp trivial
  | closed f c hc => exact iff_of_true ((closed_crashed s f c).trans hUp) trivial
  | gone c => exact iff_of_true hUp trivial
  | response f statusCode contentType hf hFresh hDigits => exact iff_of_true hUp trivial
  | data f chunk g hg hOpen => exact iff_of_true ((onData_crashed s f g chunk).trans hUp) trivial
  | ended f now g hf hg hOpen => exact onEnd_crashed_iff hInv hUp hg now
  | gresError f => exact iff_of_true ((fail_crashed s f .gres_error).trans hUp) trivial
  | timeout f => exact iff_of_true hUp trivial
  | greqError f => exact iff_of_true ((fail_crashed s f .gw_error).trans hUp) trivial

/-- A process that ends so leaves a caller of a completed fetch without an outcome. -/
theorem next_not_oneOutcome {s t : Server} {event : Event} (hInv : Inv cfg s) (hNext : next cfg s event = some t)
    (hNot : ¬Answerable s event) : ¬OneOutcome cfg t := by
  have hUp := next_up hNext
  cases next_step hNext with
  | ended f now g hf hg hEnd =>
    have hCrashed : (onEnd s f g now).crashed = true := by
      rw [← Bool.not_eq_false, onEnd_crashed_iff hInv hUp hg now]
      exact hNot
    have hOpen : (s.flights f).completed = false := by
      by_contra hDone
      exact hNot fun g' _ hOpen => absurd hOpen hDone
    have hFlight := hInv.callers.flights hUp f
    obtain ⟨t, contentType, hFlights, hCallers, hSame, hEnd⟩ := onEnd_finishes hOpen g now
    have hWaiting : (t.flights f).callers = (s.flights f).callers := by
      rw [hFlights]
      exact complete_field Flight.callers s f g rfl
    have hStill : (t.flights f).completed = false := by
      rw [hFlights]
      exact (complete_field Flight.completed s f g rfl).trans hOpen
    have hJoined : (t.flights f).joined = (s.flights f).joined := by
      rw [hFlights]
      exact complete_field Flight.joined s f g rfl
    rw [hEnd] at hCrashed ⊢
    intro hOutcome
    rw [finish, hStill, if_neg (by decide)] at hCrashed hOutcome
    simp only [hSame, hUp, Bool.false_or] at hCrashed
    rw [hWaiting, hCallers] at hCrashed
    obtain ⟨c, hc, hUnheard⟩ := concludeAll_threw hFlight.unique hCrashed
    obtain ⟨hIn, hPristine⟩ := hFlight.waiting c hc
    have hLogged := hOutcome.logged f (by simp) c (by simpa [hJoined] using hIn)
    simp only [hWaiting, hCallers, hUnheard, hPristine.2.2.2] at hLogged
    cases hLogged
  | config | forward | destroyCaller | closed | gone | response | data | gresError | timeout | greqError =>
    exact absurd trivial hNot

theorem gateway_up {s : Server} (h : (gateway cfg).ReachedBy Answerable s) : s.crashed = false := by
  induction h with
  | start => rfl
  | step hReached hAnswerable hNext _ =>
    exact (next_crashed_iff (gateway_invariant hReached.reachable) hNext).mpr hAnswerable

variable (cfg) in
/-- Unless a status from 1 to 99 is to be sent on, which ends the process, each caller has one outcome; and only then. -/
theorem gateway_flights_one_outcome :
    (∀ s, (gateway cfg).ReachedBy Answerable s → OneOutcome cfg s) ∧
    ∀ s event t, (gateway cfg).Reachable s → next cfg s event = some t → (OneOutcome cfg t ↔ Answerable s event) := by
  constructor
  · intro s h
    exact (gateway_invariant h.reachable).oneOutcome (gateway_up h)
  · intro s event t h hNext
    have hInv := gateway_invariant h
    constructor
    · intro hOutcome
      by_contra hNot
      exact next_not_oneOutcome hInv hNext hNot hOutcome
    · intro hAnswerable
      exact (hInv.next hNext).oneOutcome ((next_crashed_iff hInv hNext).mpr hAnswerable)

def testConfig : Config := ⟨5000000, 120000, true⟩

/-- Two callers share a fetch, the first one leaves, and the gateway sends its answer. -/
def sharing : List Event :=
  [.config false 0, .config false 1, .closeCaller 0, .response 0 200 none, .data 0 [1, 2], .data 0 [3]]

/-- It ends, and a third caller is served from the cache. -/
def shared : List Event := sharing ++ [.ended 0 5] ++ [.config false 6]

theorem sharing_answerable : (gateway testConfig).ReachedBy Answerable ((gateway testConfig).after sharing) := by
  apply System.reachedBy_after
  intro event hEvent s
  simp only [sharing, List.mem_cons, List.not_mem_nil, or_false] at hEvent
  rcases hEvent with rfl | rfl | rfl | rfl | rfl | rfl <;> trivial

theorem shared_answerable : (gateway testConfig).ReachedBy Answerable ((gateway testConfig).after shared) := by
  refine System.reachedBy_after_concat _ (System.reachedBy_after_concat _ sharing_answerable ?_) trivial
  intro g hg _ _
  have hStatus : ((((gateway testConfig).after sharing).flights 0).gatewayResponse.map (·.statusCode)) = some 200 := by
    decide
  rw [hg] at hStatus
  have hCode : g.statusCode = 200 := Option.some.inj hStatus
  exact .inr (by omega)

theorem gateway_flights_one_outcome_shared :
    (((gateway testConfig).after shared).callers 0).logs = [⟨.ohttpConfigs, 499, some .client_disconnect⟩] ∧
    (((gateway testConfig).after shared).callers 1).replies = [⟨200, some octetStream, [1, 2, 3]⟩] ∧
    (((gateway testConfig).after shared).callers 2).replies = [⟨200, some octetStream, [1, 2, 3]⟩] ∧
    OneOutcome testConfig ((gateway testConfig).after shared) := by
  refine ⟨by decide, by decide, by decide, ?_⟩
  exact (gateway_flights_one_outcome testConfig).1 _ shared_answerable

/-- `HTTP/1.1 099`: the fetch is complete, and its caller was neither answered nor logged. -/
def unsendable : List Event := [.forward false [1], .response 0 99 none, .ended 0 5]

theorem gateway_flights_unsendable :
    (((gateway testConfig).after unsendable).flights 0).completed = true ∧
    (((gateway testConfig).after unsendable).flights 0).joined = [0] ∧
    (((gateway testConfig).after unsendable).callers 0).replies = [] ∧
    (((gateway testConfig).after unsendable).callers 0).logs = [] ∧
    ¬∀ s, (gateway testConfig).Reachable s → OneOutcome testConfig s := by
  have hDone : (((gateway testConfig).after unsendable).flights 0).completed = true := by decide
  have hJoined : (((gateway testConfig).after unsendable).flights 0).joined = [0] := by decide
  have hLogs : (((gateway testConfig).after unsendable).callers 0).logs = [] := by decide
  refine ⟨hDone, hJoined, by decide, hLogs, fun hClaim => ?_⟩
  have hLogged := (hClaim _ (System.reachable_after _ unsendable)).logged 0 hDone 0 (by simp [hJoined])
  rw [hLogs] at hLogged
  cases hLogged

end Columbia.Relay.GatewayFlight
