import Columbia.Relay.GatewayFlight

/-! # What the callers of the relay are answered

An answer is a whole response of the gateway, as it was sent on the caller's own fetch, or, for the configuration, on
an earlier one that ended less than `CONFIG_TTL_MS` ago. All that the relay says itself is a 502 without a body.
-/
namespace Columbia.Relay.Passthrough
open Columbia.Js Columbia.Lib
open Columbia.Relay.GatewayFlight
set_option autoImplicit false

def badGateway : Reply := ⟨502, none, []⟩

/-- The `Content-Type` that `headersForResponse` sets. -/
def contentTypeFor : Route → Option Str → Str
  | .relay, _ => str "message/ohttp-res"
  | .ohttpConfigs, none => octetStream
  | .ohttpConfigs, some contentType => if contentType = [] then octetStream else contentType

def gatewayReply (route : Route) (statusCode : Nat) (contentType : Option Str) (body : Bytes) : Reply :=
  ⟨if statusCode = 0 then 502 else statusCode, some (contentTypeFor route contentType), body⟩

/-! ## What the gateway sent -/

/-- The chunks that came in on flight `f`. -/
def chunksOf (f : Nat) (events : List Event) : List Bytes :=
  events.filterMap fun | .data g chunk => if g = f then some chunk else none | _ => none

abbrev Heard := Option (Nat × Option Str × List Bytes × Bool)

/-- What came in on a flight, and whether it is all. -/
def heard (flight : Flight) : Heard :=
  flight.gatewayResponse.map fun g => (g.statusCode, g.contentType, g.delivered, g.ended)

def hearing (s : Server) (f : Nat) : Heard := heard (s.flights f)

/-- The gateway's response on flight `f` came to its end at this time, and this is what the relay makes of it. -/
def Ended (cfg : Config) (events : List Event) (s : Server) (f : Nat) (time : Int) (reply : Reply) : Prop :=
  f < s.flightCount ∧ ∃ before after statusCode contentType, events = before ++ .ended f time :: after ∧
    .response f statusCode contentType ∈ before ∧
    hearing s f = some (statusCode, contentType, chunksOf f before, true) ∧
    reply = gatewayReply (s.flights f).route statusCode contentType (chunksOf f before).flatten ∧
    reply.body.length ≤ cfg.maxRespBytes

/-- Where an answer to caller `c` can come from. -/
inductive Answered (cfg : Config) (events : List Event) (s : Server) (c : Nat) : Reply → Prop
  | badGateway : Answered cfg events s c badGateway
  | fetched {f : Nat} {time : Int} {reply : Reply} (hJoined : c ∈ (s.flights f).joined)
      (hEnded : Ended cfg events s f time reply) : Answered cfg events s c reply
  | cached {before after : List Event} {u : Server} {destroyed : Bool} {now time : Int} {f : Nat} {reply : Reply}
      (hEvents : events = before ++ .config destroyed now :: after)
      (hBefore : (gateway cfg).run (gateway cfg).start before = some u) (hCaller : c = u.callerCount)
      (hKnown : c < s.callerCount) (hAtOnce : ∀ f, c ∉ (s.flights f).joined)
      (hEarlier : .ended f time ∈ before) (hRoute : (s.flights f).route = .ohttpConfigs)
      (hEnded : Ended cfg events s f time reply) (hStatus : reply.status = 200)
      (hFresh : now - time < cfg.configTtlMs) : Answered cfg events s c reply

def Stored (cfg : Config) (events : List Event) (s : Server) (cache : ConfigCache) : Prop :=
  ∃ f, (s.flights f).route = .ohttpConfigs ∧
    Ended cfg events s f cache.fetchedAt ⟨200, some cache.contentType, cache.body⟩

theorem chunksOf_snoc (f : Nat) (events : List Event) (event : Event) :
    chunksOf f (events ++ [event]) = chunksOf f events ++ chunksOf f [event] := List.filterMap_append

/-! ## What a step does to answers -/

/-- From `s` to `t`: what has been heard by then, what the relay answers of its own accord or gives as these `answers`,
and what it stores. -/
structure Moves (s t : Server) (hears : Nat → Heard) (answers : Nat → Reply → Prop) (stores : ConfigCache → Prop) :
    Prop where
  callers : s.callerCount ≤ t.callerCount
  count : s.flightCount ≤ t.flightCount
  route : ∀ f, f < s.flightCount → (t.flights f).route = (s.flights f).route
  joined : ∀ f, f < s.flightCount → ∀ c ∈ (s.flights f).joined, c ∈ (t.flights f).joined
  heard : ∀ f, heard (t.flights f) = hears f
  replies : ∀ c, ∀ reply ∈ (t.callers c).replies, reply ∈ (s.callers c).replies ∨ reply = badGateway ∨ answers c reply
  cache : ∀ cache, t.configCache = some cache → s.configCache = some cache ∨ stores cache

section
variable {s t u : Server} {hears hears' : Nat → Heard} {answers : Nat → Reply → Prop} {stores : ConfigCache → Prop}

theorem Moves.trans (hst : Moves s t hears' answers stores) (htu : Moves t u hears answers stores) :
    Moves s u hears answers stores := by
  refine ⟨hst.callers.trans htu.callers, hst.count.trans htu.count, fun f hf => ?_, fun f hf c hc => ?_, htu.heard,
    fun c reply hReply => ?_, fun cache hCache => ?_⟩
  · exact (htu.route f (hf.trans_le hst.count)).trans (hst.route f hf)
  · exact htu.joined f (hf.trans_le hst.count) c (hst.joined f hf c hc)
  · rcases htu.replies c reply hReply with hBefore | hOther
    · exact hst.replies c reply hBefore
    · exact .inr hOther
  · rcases htu.cache cache hCache with hBefore | hStored
    · exact hst.cache cache hBefore
    · exact .inr hStored

theorem Moves.mono {answers' : Nat → Reply → Prop} {stores' : ConfigCache → Prop} (h : Moves s t hears answers stores)
    (hAnswers : ∀ c reply, answers c reply → reply = badGateway ∨ answers' c reply)
    (hStores : ∀ cache, stores cache → stores' cache) : Moves s t hears answers' stores' := by
  refine ⟨h.callers, h.count, h.route, h.joined, h.heard, fun c reply hReply => ?_, fun cache hCache => ?_⟩
  · rcases h.replies c reply hReply with hBefore | hOwn | hAnswer
    · exact .inl hBefore
    · exact .inr (.inl hOwn)
    · exact .inr (hAnswers c reply hAnswer)
  · exact (h.cache cache hCache).imp_right (hStores cache)

theorem Moves.keeps (hst : Moves s t hears answers stores) (htu : Moves t u (hearing t) answers stores) :
    Moves s u hears answers stores := by
  have hTrans := hst.trans htu
  have hSame : hearing t = hears := funext hst.heard
  rwa [hSame] at hTrans

/-- Nothing comes from the gateway, and nothing but the relay's own answer is given. -/
def Silent (s t : Server) : Prop := Moves s t (hearing s) (fun _ _ => False) fun _ => False

theorem Silent.refl (s : Server) : Silent s s :=
  ⟨le_rfl, le_rfl, fun _ _ => rfl, fun _ _ _ hc => hc, fun _ => rfl, fun _ _ hReply => .inl hReply,
    fun _ hCache => .inl hCache⟩

theorem Silent.moves (h : Silent s t) : Moves s t (hearing s) answers stores :=
  Moves.mono h (fun _ _ => False.elim) fun _ => False.elim

theorem Silent.trans (hst : Silent s t) (htu : Silent t u) : Silent s u := Moves.keeps hst htu

theorem moves_onFlight (s : Server) (f : Nat) {change : Flight → Flight}
    (hRoute : (change (s.flights f)).route = (s.flights f).route)
    (hJoined : (change (s.flights f)).joined = (s.flights f).joined) :
    Moves s (onFlight s f change) (Function.update (hearing s) f (heard (change (s.flights f)))) answers stores := by
  have hSame : ∀ {α : Type} (field : Flight → α), field (change (s.flights f)) = field (s.flights f) → ∀ g,
      field ((onFlight s f change).flights g) = field (s.flights g) := fun field h g => onFlight_field field s f g h
  refine ⟨le_rfl, le_rfl, fun g _ => hSame Flight.route hRoute g, fun g _ c hc => hSame Flight.joined hJoined g ▸ hc,
    fun g => ?_, fun _ _ hReply => .inl hReply, fun _ hCache => .inl hCache⟩
  rcases eq_or_ne g f with rfl | hg
  · simp [onFlight]
  · simp [onFlight, hearing, hg]

theorem silent_onFlight (s : Server) (f : Nat) {change : Flight → Flight}
    (hRoute : (change (s.flights f)).route = (s.flights f).route)
    (hJoined : (change (s.flights f)).joined = (s.flights f).joined)
    (hHeard : heard (change (s.flights f)) = heard (s.flights f)) : Silent s (onFlight s f change) := by
  have hMoves : Moves s (onFlight s f change) _ (fun _ _ => False) fun _ => False := moves_onFlight s f hRoute hJoined
  have hSame : Function.update (hearing s) f (heard (s.flights f)) = hearing s := Function.update_eq_self f (hearing s)
  rwa [hHeard, hSame] at hMoves

theorem heard_destroyGres (flight : Flight) : heard (destroyGres flight) = heard flight := by
  cases flight with
  | mk route completed callers joined gatewayResponse greqDestroyed sent => cases gatewayResponse <;> rfl

theorem silent_destroyGreq (s : Server) (f : Nat) : Silent s (onFlight s f destroyGreq) :=
  silent_onFlight s f rfl rfl rfl

theorem silent_destroyGres (s : Server) (f : Nat) : Silent s (onFlight s f destroyGres) :=
  silent_onFlight s f rfl rfl (heard_destroyGres _)

theorem mem_conclude {route : Route} {reason : Option Reason} {answer reply : Reply} {c : Caller}
    (h : reply ∈ (c.conclude route reason answer).replies) : reply ∈ c.replies ∨ reply = answer := by
  unfold Caller.conclude at h
  split at h
  · simpa [Caller.write, Caller.log] using h
  · exact .inl h

theorem mem_concludeAll {route : Route} {reason : Option Reason} {answer reply : Reply} {waiting : List Nat}
    {callers : Nat → Caller} {c : Nat} (h : reply ∈ ((concludeAll route reason answer waiting callers).1 c).replies) :
    reply ∈ (callers c).replies ∨ reply = answer ∧ c ∈ waiting := by
  induction waiting generalizing callers with
  | nil => exact .inl h
  | cons d rest ih =>
    rw [concludeAll] at h
    split at h
    · exact .inl h
    rcases ih h with hMem | ⟨hReply, hc⟩
    · rcases eq_or_ne c d with rfl | hcd
      · simp only [Function.update_self] at hMem
        rcases mem_conclude hMem with hBefore | hReply
        · exact .inl hBefore
        · exact .inr ⟨hReply, List.mem_cons_self⟩
      · simp only [Function.update_of_ne hcd] at hMem
        exact .inl hMem
    · exact .inr ⟨hReply, List.mem_cons_of_mem _ hc⟩

theorem moves_finish (s : Server) (f : Nat) (reason : Option Reason) (answer : Reply) :
    Moves s (finish s f reason answer) (hearing s) (fun c reply => reply = answer ∧ c ∈ (s.flights f).callers)
      stores := by
  have hTouches := touches_finish s f reason answer
  refine ⟨hTouches.callerCount.ge, hTouches.flightCount.ge, fun g _ => (hTouches.grows_all g).route,
    fun g _ c hc => finish_field stable_joined s f g reason answer ▸ hc, fun g => ?_, fun c reply hReply => ?_,
    fun cache hCache => .inl (hTouches.cache ▸ hCache)⟩
  · rcases eq_or_ne g f with rfl | hg
    · rw [heard, finish_gatewayResponse]
      rfl
    · rw [hTouches.others g hg]
      rfl
  · unfold finish at hReply
    split at hReply
    · exact .inl hReply
    · exact (mem_concludeAll hReply).imp_right .inr

theorem silent_fail (s : Server) (f : Nat) (reason : Reason) : Silent s (fail s f reason) :=
  (moves_finish s f (some reason) badGateway).mono (fun _ _ h => .inl h.1) fun _ => id

theorem silent_closed (s : Server) (f c : Nat) : Silent s (closed s f c) := by
  unfold closed
  split
  · exact .refl s
  · simp only
    have hLeft : Silent s { setFlight s f { s.flights f with callers := (s.flights f).callers.erase c } with
        callers := Function.update s.callers c
          ((s.callers c).log ⟨(s.flights f).route, 499, some .client_disconnect⟩) } := by
      have hFlight : Silent s (onFlight s f fun flight => { flight with callers := flight.callers.erase c }) :=
        silent_onFlight s f rfl rfl rfl
      refine ⟨le_rfl, hFlight.count, hFlight.route, hFlight.joined, hFlight.heard, fun d reply hReply => .inl ?_,
        hFlight.cache⟩
      rcases eq_or_ne d c with rfl | hdc
      · simpa [Caller.log] using hReply
      · simpa [hdc] using hReply
    split
    · rename_i hLast
      refine (hLeft.trans ?_).trans (silent_onFlight _ f rfl rfl (heard_destroyGres _))
      apply (moves_finish _ f _ _).mono ?_ fun _ => id
      rintro d reply ⟨-, hd⟩
      rw [hLast] at hd
      cases hd
    · exact hLeft

theorem silent_add (s : Server) (f c : Nat) : Silent s (add s f c).1 := by
  have hJoined : Silent s (setFlight s f { s.flights f with
      callers := (s.flights f).callers ++ [c], joined := (s.flights f).joined ++ [c] }) := by
    have hOthers : ∀ g, g ≠ f → (setFlight s f { s.flights f with
        callers := (s.flights f).callers ++ [c], joined := (s.flights f).joined ++ [c] }).flights g = s.flights g :=
      fun g hg => setFlight_of_ne s _ hg
    refine ⟨le_rfl, le_rfl, fun g _ => ?_, fun g _ => ?_, fun g => ?_, fun _ _ hReply => .inl hReply,
      fun _ hCache => .inl hCache⟩
    · rcases eq_or_ne g f with rfl | hg
      · rw [setFlight_self]
      · rw [hOthers g hg]
    · rcases eq_or_ne g f with rfl | hg
      · rw [setFlight_self]
        exact fun d hd => List.mem_append_left _ hd
      · rw [hOthers g hg]
        exact fun d hd => hd
    · rcases eq_or_ne g f with rfl | hg
      · rw [setFlight_self]
        rfl
      · rw [hOthers g hg]
        rfl
  unfold add
  split
  · exact .refl s
  · simp only
    split
    · exact hJoined.trans (silent_closed _ f c)
    · exact hJoined

theorem silent_proxyGatewayRequest {s : Server} (hUnused : hearing s s.flightCount = none) (route : Route) (body : Bytes)
    (c : Nat) : Silent s (proxyGatewayRequest s route body c) := by
  have hCreated : Silent s { setFlight s s.flightCount (newFlight route) with flightCount := s.flightCount + 1 } := by
    have hOthers : ∀ g, g ≠ s.flightCount →
        (setFlight s s.flightCount (newFlight route)).flights g = s.flights g := fun g hg => setFlight_of_ne s _ hg
    refine ⟨le_rfl, Nat.le_succ _, fun g hg => ?_, fun g hg => ?_, fun g => ?_, fun _ _ hReply => .inl hReply,
      fun _ hCache => .inl hCache⟩
    · exact congrArg Flight.route (hOthers g hg.ne)
    · exact fun d hd => congrArg Flight.joined (hOthers g hg.ne) ▸ hd
    · rcases eq_or_ne g s.flightCount with rfl | hg
      · rw [hUnused]
        exact congrArg heard (setFlight_self s _ _)
      · exact congrArg heard (hOthers g hg)
  have hAdded := hCreated.trans (silent_add _ s.flightCount c)
  unfold proxyGatewayRequest
  simp only
  split
  · exact hAdded
  · exact hAdded.trans (silent_onFlight _ _ rfl rfl rfl)

theorem silent_arrive (s : Server) (destroyed : Bool) : Silent s (arrive s destroyed) := by
  refine ⟨Nat.le_succ _, le_rfl, fun _ _ => rfl, fun _ _ _ hc => hc, fun _ => rfl, fun c reply hReply => .inl ?_,
    fun _ hCache => .inl hCache⟩
  rcases eq_or_ne c s.callerCount with rfl | hc
  · simp only [arrive, Function.update_self] at hReply
    cases hReply
  · simpa only [arrive, Function.update_of_ne hc] using hReply

theorem moves_reply (s : Server) (c : Nat) (answer : Reply) :
    Moves s (reply s c answer) (hearing s) (fun d reply => reply = answer ∧ d = c) stores := by
  refine ⟨le_rfl, le_rfl, fun _ _ => rfl, fun _ _ _ hd => hd, fun _ => rfl, fun d r hReply => ?_,
    fun _ hCache => .inl hCache⟩
  rcases eq_or_ne d c with rfl | hdc
  · simp only [reply, Function.update_self] at hReply
    rcases List.mem_append.mp hReply with hBefore | hNew
    · exact .inl hBefore
    · exact .inr (.inr ⟨List.mem_singleton.mp hNew, rfl⟩)
  · simp only [reply, Function.update_of_ne hdc] at hReply
    exact .inl hReply

theorem silent_startConfigFlight {s : Server} (hUnused : hearing s s.flightCount = none) (c : Nat) :
    Silent s (startConfigFlight s c) := by
  have hStarted := silent_proxyGatewayRequest hUnused .ohttpConfigs [] c
  exact ⟨hStarted.callers, hStarted.count, hStarted.route, hStarted.joined, hStarted.heard, hStarted.replies,
    hStarted.cache⟩

/-- A caller for the configuration is answered from a cache that has not expired, and else waits or gets a 502. -/
theorem moves_serveConfig {cfg : Config} {s : Server} (hUnused : hearing s s.flightCount = none) (c : Nat) (now : Int) :
    Moves s (serveConfig cfg s c now) (hearing s) (fun d reply => d = c ∧ ∃ cache, s.configCache = some cache ∧
      now - cache.fetchedAt < cfg.configTtlMs ∧ reply = ⟨200, some cache.contentType, cache.body⟩) stores := by
  have hUncached : Silent s (serveConfig.uncached cfg s c) := by
    unfold serveConfig.uncached
    split
    · exact (moves_reply s c badGateway).mono (fun _ _ h => .inl h.1) fun _ => id
    split
    · split
      · exact silent_add s _ c
      · exact silent_startConfigFlight hUnused c
    · exact silent_startConfigFlight hUnused c
  unfold serveConfig
  split
  · rename_i cache hCache
    split
    · rename_i hFresh
      apply (moves_reply s c _).mono ?_ fun _ => id
      rintro d reply ⟨rfl, rfl⟩
      exact .inr ⟨rfl, cache, hCache, hFresh, rfl⟩
    · exact hUncached.moves
  · exact hUncached.moves

theorem headersForResponse_contentType (s : Server) (route : Route) (status : Nat) (contentType : Option Str)
    (body : Bytes) (now : Int) :
    (headersForResponse s route status contentType body now).2 = contentTypeFor route contentType := by
  cases route with
  | relay => rfl
  | ohttpConfigs => cases contentType <;> rfl

theorem moves_headersForResponse (s : Server) (route : Route) (status : Nat) (contentType : Option Str) (body : Bytes)
    (now : Int) : Moves s (headersForResponse s route status contentType body now).1 (hearing s) answers
      fun cache => route = .ohttpConfigs ∧ status = 200 ∧ cache = ⟨body, contentTypeFor route contentType, now⟩ := by
  cases route with
  | relay => exact (Silent.refl s).moves
  | ohttpConfigs =>
    simp only [headersForResponse]
    split
    · rename_i hStatus
      refine ⟨le_rfl, le_rfl, fun _ _ => rfl, fun _ _ _ hc => hc, fun _ => rfl, fun _ _ hReply => .inl hReply,
        fun cache hCache => .inr ⟨trivial, hStatus, ?_⟩⟩
      rw [← Option.some.inj hCache]
      cases contentType <;> rfl
    · exact (Silent.refl s).moves

theorem moves_onData (cfg : Config) (s : Server) (f : Nat) (g : Gres) (chunk : Bytes) :
    Moves s (onData cfg s f g chunk) (Function.update (hearing s) f
      (some (g.statusCode, g.contentType, g.delivered ++ [chunk], g.ended))) answers stores := by
  unfold onData
  simp only
  split
  · exact moves_onFlight s f rfl rfl
  split
  · have hFailed := silent_fail s f .resp_too_large
    have hSame : hearing (fail s f .resp_too_large) = hearing s := funext hFailed.heard
    rw [← hSame]
    exact hFailed.moves.trans (moves_onFlight _ f rfl rfl)
  · exact moves_onFlight s f rfl rfl

theorem onEnd_eq {s : Server} {f : Nat} (hOpen : (s.flights f).completed = false) (g : Gres) (now : Int) :
    onEnd s f g now = finish (headersForResponse (complete s f g) (s.flights f).route
      (if g.statusCode = 0 then 502 else g.statusCode) g.contentType g.rc.flatten now).1 f none
        (gatewayReply (s.flights f).route g.statusCode g.contentType g.rc.flatten) := by
  have hStill : ((complete s f g).flights f).completed = false := complete_field Flight.completed s f g rfl ▸ hOpen
  have hRoute : ((complete s f g).flights f).route = (s.flights f).route := complete_field Flight.route s f g rfl
  change (if ((complete s f g).flights f).completed then complete s f g else _) = _
  rw [hStill, if_neg (by decide)]
  simp only
  change finish (headersForResponse (complete s f g) ((complete s f g).flights f).route _ _ _ now).1 f none
    ⟨_, some (headersForResponse (complete s f g) ((complete s f g).flights f).route _ _ _ now).2, _⟩ = _
  rw [hRoute, headersForResponse_contentType]
  rfl

/-- The end of a response answers those who wait, and a configuration is kept. -/
theorem moves_onEnd (s : Server) (f : Nat) {g : Gres}
    (hKept : (s.flights f).completed = false → g.rc = g.delivered) (now : Int) :
    Moves s (onEnd s f g now) (Function.update (hearing s) f (some (g.statusCode, g.contentType, g.delivered, true)))
      (fun c reply => (s.flights f).completed = false ∧ c ∈ (s.flights f).callers ∧
        reply = gatewayReply (s.flights f).route g.statusCode g.contentType g.delivered.flatten)
      fun cache => (s.flights f).completed = false ∧ (s.flights f).route = .ohttpConfigs ∧ cache.fetchedAt = now ∧
        ⟨200, some cache.contentType, cache.body⟩ =
          gatewayReply (s.flights f).route g.statusCode g.contentType g.delivered.flatten := by
  have hComplete : ∀ {answers stores}, Moves s (complete s f g)
      (Function.update (hearing s) f (some (g.statusCode, g.contentType, g.delivered, true))) answers stores :=
    moves_onFlight s f rfl rfl
  cases hOpen : (s.flights f).completed with
  | true =>
    have hSame : onEnd s f g now = complete s f g := by
      change (if ((complete s f g).flights f).completed then complete s f g else _) = _
      rw [complete_field Flight.completed s f g rfl, hOpen, if_pos rfl]
    rw [hSame]
    exact hComplete
  | false =>
    rw [onEnd_eq hOpen, hKept hOpen]
    let stored := (headersForResponse (complete s f g) (s.flights f).route
      (if g.statusCode = 0 then 502 else g.statusCode) g.contentType g.delivered.flatten now).1
    have hCallers : (stored.flights f).callers = (s.flights f).callers := by
      rw [headersForResponse_flights]
      exact complete_field Flight.callers s f g rfl
    refine hComplete.keeps (Moves.keeps ((moves_headersForResponse (complete s f g) _ _ _ _ now).mono
      (fun _ _ h => .inr h) ?_) ((moves_finish stored f none _).mono ?_ fun _ h => h))
    · rintro _ ⟨hRoute, hStatus, rfl⟩
      refine ⟨rfl, hRoute, rfl, ?_⟩
      rw [gatewayReply, hStatus]
    · rintro c reply ⟨rfl, hc⟩
      exact .inr ⟨rfl, hCallers ▸ hc, rfl⟩

/-! ## Who joins -/

theorem add_joins_only {f c g d : Nat} (h : d ∈ ((add s f c).1.flights g).joined) : d ∈ (s.flights g).joined ∨ d = c := by
  have hJoined : ∀ g, d ∈ ((setFlight s f { s.flights f with
      callers := (s.flights f).callers ++ [c], joined := (s.flights f).joined ++ [c] }).flights g).joined →
      d ∈ (s.flights g).joined ∨ d = c := by
    intro g hd
    rcases eq_or_ne g f with rfl | hgf
    · rw [setFlight_self] at hd
      exact (List.mem_append.mp hd).imp_right List.mem_singleton.mp
    · rw [setFlight_of_ne s _ hgf] at hd
      exact .inl hd
  unfold add at h
  split at h
  · exact .inl h
  · simp only at h
    split at h
    · rw [closed_field stable_joined] at h
      exact hJoined g h
    · exact hJoined g h

theorem proxyGatewayRequest_joins_only {route : Route} {body : Bytes} {c g d : Nat}
    (h : d ∈ ((proxyGatewayRequest s route body c).flights g).joined) : d ∈ (s.flights g).joined ∨ d = c := by
  have hAdded : d ∈ ((add { setFlight s s.flightCount (newFlight route) with flightCount := s.flightCount + 1 }
      s.flightCount c).1.flights g).joined := by
    unfold proxyGatewayRequest at h
    simp only at h
    split at h
    · exact h
    · rwa [onFlight_field Flight.joined] at h
      rfl
  rcases add_joins_only hAdded with hBefore | rfl
  · rcases eq_or_ne g s.flightCount with rfl | hg
    · change d ∈ ((setFlight s s.flightCount (newFlight route)).flights s.flightCount).joined at hBefore
      rw [setFlight_self] at hBefore
      cases hBefore
    · change d ∈ ((setFlight s s.flightCount (newFlight route)).flights g).joined at hBefore
      rw [setFlight_of_ne s _ hg] at hBefore
      exact .inl hBefore
  · exact .inr rfl

/-- Only a request that has just come in joins a flight. -/
theorem next_joins {cfg : Config} {event : Event} (hNext : next cfg s event = some t) {f d : Nat}
    (h : d ∈ (t.flights f).joined) : d ∈ (s.flights f).joined ∨ d = s.callerCount := by
  cases next_step hNext with
  | config destroyed now =>
    have hServed : Served _ _ (serveConfig cfg (arrive s destroyed) s.callerCount now) := serveConfig_served _ _ now
    generalize serveConfig cfg (arrive s destroyed) s.callerCount now = u at h hServed
    cases hServed with
    | replied answer => exact .inl h
    | joined g => exact add_joins_only (s := arrive s destroyed) h
    | started hRefused => exact proxyGatewayRequest_joins_only (s := arrive s destroyed) h
  | forward destroyed body => exact proxyGatewayRequest_joins_only (s := arrive s destroyed) h
  | destroyCaller c => exact .inl h
  | closed g c hc => exact .inl (closed_field stable_joined s g c f ▸ h)
  | gone c => exact .inl h
  | response g statusCode contentType hf hFresh hDigits =>
    rw [onFlight_field Flight.joined] at h
    · exact .inl h
    · rfl
  | data g chunk gres hg hOpen => exact .inl (onData_field stable_joined s g f gres chunk ▸ h)
  | ended g now gres hf hg hOpen => exact .inl (onEnd_field stable_joined s g f gres now ▸ h)
  | gresError g =>
    rw [onFlight_field Flight.joined, fail, finish_field stable_joined] at h
    · exact .inl h
    · rfl
  | timeout g =>
    rw [onFlight_field Flight.joined] at h
    · exact .inl h
    · rfl
  | greqError g =>
    rw [onFlight_field Flight.joined, fail, finish_field stable_joined] at h
    · exact .inl h
    · rfl

/-! ## Runs -/

def Hears (events : List Event) (f : Nat) : Heard → Prop
  | none => chunksOf f events = []
  | some (statusCode, contentType, delivered, _) =>
    .response f statusCode contentType ∈ events ∧ delivered = chunksOf f events

structure Inv (cfg : Config) (events : List Event) (s : Server) : Prop where
  run : (gateway cfg).run (gateway cfg).start events = some s
  unused : ∀ f, s.flightCount ≤ f → hearing s f = none
  heard : ∀ f, Hears events f (hearing s f)
  replies : ∀ c, ∀ reply ∈ (s.callers c).replies, Answered cfg events s c reply
  cache : ∀ cache, s.configCache = some cache → Stored cfg events s cache

theorem Hears.snoc {events : List Event} {f : Nat} {h : Heard} (hHears : Hears events f h) {event : Event}
    (hEvent : chunksOf f [event] = []) : Hears (events ++ [event]) f h := by
  have hChunks : chunksOf f (events ++ [event]) = chunksOf f events := by
    rw [chunksOf_snoc, hEvent, List.append_nil]
  cases h with
  | none => exact hChunks.trans hHears
  | some h => exact ⟨List.mem_append_left _ hHears.1, hHears.2.trans hChunks.symm⟩

variable {cfg : Config} {events : List Event}

/-- A response that has ended. -/
def Settled (h : Heard) : Prop := ∃ statusCode contentType chunks, h = some (statusCode, contentType, chunks, true)

theorem Ended.mem {f : Nat} {time : Int} {reply : Reply} (h : Ended cfg events s f time reply) :
    .ended f time ∈ events := by
  obtain ⟨-, before, after, -, -, rfl, -⟩ := h
  simp

section
variable (hMoves : Moves s t hears answers stores) (hStable : ∀ f, Settled (hearing s f) → hears f = hearing s f)
  (event : Event)
include hMoves hStable

theorem Ended.moves {f : Nat} {time : Int} {reply : Reply} (h : Ended cfg events s f time reply) :
    Ended cfg (events ++ [event]) t f time reply := by
  obtain ⟨hf, before, after, statusCode, contentType, rfl, hResponse, hHeard, hRest⟩ := h
  rw [← hMoves.route f hf] at hRest
  refine ⟨hf.trans_le hMoves.count, before, after ++ [event], statusCode, contentType, by simp, hResponse, ?_, hRest⟩
  exact (hMoves.heard f).trans ((hStable f ⟨_, _, _, hHeard⟩).trans hHeard)

theorem Stored.moves {cache : ConfigCache} (h : Stored cfg events s cache) : Stored cfg (events ++ [event]) t cache := by
  obtain ⟨f, hRoute, hEnded⟩ := h
  exact ⟨f, (hMoves.route f hEnded.1).trans hRoute, hEnded.moves hMoves hStable event⟩

theorem Answered.moves (hJoins : ∀ f d, d ∈ (t.flights f).joined → d ∈ (s.flights f).joined ∨ d = s.callerCount)
    {c : Nat} {reply : Reply} (h : Answered cfg events s c reply) : Answered cfg (events ++ [event]) t c reply := by
  cases h with
  | badGateway => exact .badGateway
  | fetched hJoined hEnded => exact .fetched (hMoves.joined _ hEnded.1 c hJoined) (hEnded.moves hMoves hStable event)
  | cached hEvents hBefore hCaller hKnown hAtOnce hEarlier hRoute hEnded hStatus hFresh =>
    refine .cached (by rw [hEvents, List.append_assoc]; rfl) hBefore hCaller (hKnown.trans_le hMoves.callers)
      (fun f hc => ?_) hEarlier ((hMoves.route _ hEnded.1).trans hRoute) (hEnded.moves hMoves hStable event) hStatus
      hFresh
    rcases hJoins f c hc with hBefore | hNew
    · exact hAtOnce f hBefore
    · exact hKnown.ne hNew

end

theorem Inv.moves {event : Event} (h : Inv cfg events s) (hNext : next cfg s event = some t)
    (hMoves : Moves s t hears answers stores) (hStable : ∀ f, Settled (hearing s f) → hears f = hearing s f)
    (hUnused : ∀ f, t.flightCount ≤ f → hears f = none) (hHears : ∀ f, Hears (events ++ [event]) f (hears f))
    (hAnswers : ∀ c reply, answers c reply → Answered cfg (events ++ [event]) t c reply)
    (hStores : ∀ cache, stores cache → Stored cfg (events ++ [event]) t cache) : Inv cfg (events ++ [event]) t where
  run := System.run_concat h.run hNext
  unused f hf := (hMoves.heard f).trans (hUnused f hf)
  heard f := by
    have hHeard : hearing t f = hears f := hMoves.heard f
    rw [hHeard]
    exact hHears f
  replies c reply hReply := by
    rcases hMoves.replies c reply hReply with hBefore | rfl | hAnswer
    · exact (h.replies c reply hBefore).moves hMoves hStable event (fun f d => next_joins hNext)
    · exact .badGateway
    · exact hAnswers c reply hAnswer
  cache cache hCache := by
    rcases hMoves.cache cache hCache with hBefore | hStored
    · exact (h.cache cache hBefore).moves hMoves hStable event
    · exact hStores cache hStored

theorem Inv.silent {event : Event} (h : Inv cfg events s) (hNext : next cfg s event = some t) (hSilent : Silent s t)
    (hEvent : ∀ f, chunksOf f [event] = []) : Inv cfg (events ++ [event]) t :=
  h.moves hNext hSilent (fun _ _ => rfl) (fun f hf => h.unused f (hSilent.count.trans hf))
    (fun f => (h.heard f).snoc (hEvent f)) (fun _ _ => False.elim) fun _ => False.elim

theorem Inv.flight_lt (h : Inv cfg events s) {f : Nat} {g : Gres} (hg : (s.flights f).gatewayResponse = some g) :
    f < s.flightCount := by
  by_contra hUnknown
  have hNone := h.unused f (not_lt.mp hUnknown)
  rw [hearing, Passthrough.heard, hg] at hNone
  cases hNone

theorem Inv.reachable (h : Inv cfg events s) : (gateway cfg).Reachable s :=
  System.ReachedBy.of_run .start events (fun _ _ _ => trivial) h.run

theorem Inv.config (h : Inv cfg events s) (destroyed : Bool) (now : Int)
    (hNext : next cfg s (.config destroyed now) = some t) : Inv cfg (events ++ [.config destroyed now]) t := by
  obtain rfl : serveConfig cfg (arrive s destroyed) s.callerCount now = t := by
    cases next_step hNext
    rfl
  have hServed : Moves (arrive s destroyed) (serveConfig cfg (arrive s destroyed) s.callerCount now) _ _ fun _ => False :=
    moves_serveConfig (s := arrive s destroyed) (h.unused s.flightCount le_rfl) s.callerCount now
  have hMoves := (silent_arrive s destroyed).moves.trans hServed
  refine h.moves hNext hMoves (fun _ _ => rfl) (fun f hf => h.unused f (hMoves.count.trans hf))
    (fun f => (h.heard f).snoc rfl) ?_ fun _ => False.elim
  rintro c reply ⟨rfl, cache, hCache, hFresh, rfl⟩
  obtain ⟨f, hRoute, hEnded⟩ := (h.cache cache hCache).moves hMoves (fun _ _ => rfl) (.config destroyed now)
  have hEarlier : .ended f cache.fetchedAt ∈ events := by simpa using hEnded.mem
  have hAtOnce : serveConfig cfg (arrive s destroyed) s.callerCount now =
      reply (arrive s destroyed) s.callerCount ⟨200, some cache.contentType, cache.body⟩ := by
    have hStill : (arrive s destroyed).configCache = some cache := hCache
    rw [serveConfig, hStill]
    exact if_pos hFresh
  refine .cached rfl h.run rfl hServed.callers (fun g hc => ?_) hEarlier hRoute hEnded rfl hFresh
  rw [hAtOnce] at hc
  exact lt_irrefl _ ((gateway_invariant h.reachable).callers.known g _ hc)

/-- Something comes in on one flight. -/
theorem Inv.heardOn {event : Event} {f : Nat} {news : Heard} (h : Inv cfg events s) (hNext : next cfg s event = some t)
    (hMoves : Moves s t (Function.update (hearing s) f news) answers stores) (hf : f < s.flightCount)
    (hOpen : ¬Settled (hearing s f)) (hOthers : ∀ g, g ≠ f → chunksOf g [event] = [])
    (hNews : Hears (events ++ [event]) f news)
    (hAnswers : ∀ c reply, answers c reply → Answered cfg (events ++ [event]) t c reply)
    (hStores : ∀ cache, stores cache → Stored cfg (events ++ [event]) t cache) : Inv cfg (events ++ [event]) t := by
  refine h.moves hNext hMoves (fun g hSettled => ?_) (fun g hg => ?_) (fun g => ?_) hAnswers hStores
  · apply Function.update_of_ne
    rintro rfl
    exact hOpen hSettled
  · have hLate := hMoves.count.trans hg
    rw [Function.update_of_ne (hf.trans_le hLate).ne']
    exact h.unused g hLate
  · rcases eq_or_ne g f with rfl | hgf
    · rw [Function.update_self]
      exact hNews
    · rw [Function.update_of_ne hgf]
      exact (h.heard g).snoc (hOthers g hgf)

theorem Inv.response (h : Inv cfg events s) {f statusCode : Nat} {contentType : Option Str}
    (hNext : next cfg s (.response f statusCode contentType) = some t) :
    Inv cfg (events ++ [.response f statusCode contentType]) t := by
  obtain ⟨rfl, hf, hNone⟩ : (onFlight s f fun flight => { flight with
      gatewayResponse := some ⟨statusCode, contentType, [], 0, [], false, flight.completed⟩ }) = t ∧
      f < s.flightCount ∧ (s.flights f).gatewayResponse = none := by
    cases next_step hNext with
    | response _ _ _ hf hFresh hDigits => exact ⟨rfl, hf, hFresh⟩
  have hNothing : Hears events f none := by
    have hHeard := h.heard f
    rwa [hearing, Passthrough.heard, hNone] at hHeard
  have hMoves : Moves s (onFlight s f fun flight =>
      { flight with gatewayResponse := some ⟨statusCode, contentType, [], 0, [], false, flight.completed⟩ }) _
      (fun _ _ => False) fun _ => False := moves_onFlight s f rfl rfl
  have hOpen : ¬Settled (hearing s f) := by
    rintro ⟨statusCode, contentType, chunks, hSettled⟩
    rw [hearing, Passthrough.heard, hNone] at hSettled
    cases hSettled
  refine h.heardOn hNext hMoves hf hOpen (fun _ _ => rfl) ⟨by simp, ?_⟩ (fun _ _ => False.elim) fun _ => False.elim
  exact (Hears.snoc hNothing rfl : Hears _ f none).symm

theorem not_settled {f : Nat} {g : Gres} (hg : (s.flights f).gatewayResponse = some g) (hUnended : g.ended = false) :
    ¬Settled (hearing s f) := by
  rintro ⟨statusCode, contentType, chunks, hSettled⟩
  rw [hearing, heard, hg] at hSettled
  cases hUnended.symm.trans (Prod.mk.inj (Prod.mk.inj (Prod.mk.inj (Option.some.inj hSettled)).2).2).2

theorem chunksOf_data (f : Nat) (chunk : Bytes) : chunksOf f [.data f chunk] = [chunk] := by
  simp [chunksOf]

theorem chunksOf_data_of_ne {f g : Nat} (h : g ≠ f) (chunk : Bytes) : chunksOf g [.data f chunk] = [] := by
  simp [chunksOf, h.symm]

theorem Inv.data (h : Inv cfg events s) {f : Nat} {chunk : Bytes} {g : Gres}
    (hg : (s.flights f).gatewayResponse = some g) (hUnended : g.ended = false)
    (hNext : next cfg s (.data f chunk) = some (onData cfg s f g chunk)) :
    Inv cfg (events ++ [.data f chunk]) (onData cfg s f g chunk) := by
  have hHeard := h.heard f
  rw [hearing, Passthrough.heard, hg] at hHeard
  have hMoves : Moves s _ _ (fun _ _ => False) fun _ => False := moves_onData cfg s f g chunk
  refine h.heardOn hNext hMoves (h.flight_lt hg) (not_settled hg hUnended)
    (fun _ hOther => chunksOf_data_of_ne hOther chunk) ⟨List.mem_append_left _ hHeard.1, ?_⟩ (fun _ _ => False.elim)
    fun _ => False.elim
  rw [chunksOf_snoc, chunksOf_data, hHeard.2]

/-- The response of a flight that is not completed has come in whole when it ends. -/
theorem Inv.ended (h : Inv cfg events s) {f : Nat} {time : Int} {g : Gres}
    (hg : (s.flights f).gatewayResponse = some g) (hUnended : g.ended = false)
    (hNext : next cfg s (.ended f time) = some (onEnd s f g time)) :
    Inv cfg (events ++ [.ended f time]) (onEnd s f g time) := by
  have hHeard := h.heard f
  rw [hearing, Passthrough.heard, hg] at hHeard
  obtain ⟨hResponse, hDelivered⟩ := hHeard
  have hInv := (gateway_invariant h.reachable).callers.flights (next_up hNext) f
  have hKept := fun hOpen => hInv.kept g hg hOpen
  have hMoves := moves_onEnd s f (fun hOpen => (hKept hOpen).all) time
  have hEnded : (s.flights f).completed = false → Ended cfg (events ++ [.ended f time]) (onEnd s f g time) f time
      (gatewayReply (s.flights f).route g.statusCode g.contentType g.delivered.flatten) := by
    intro hOpen
    obtain ⟨hAll, hLength, hBound, -⟩ := hKept hOpen
    refine ⟨(h.flight_lt hg).trans_le hMoves.count, events, [], g.statusCode, g.contentType, rfl, hResponse, ?_, ?_, ?_⟩
    · exact (hMoves.heard f).trans ((Function.update_self ..).trans (by rw [hDelivered]))
    · rw [hMoves.route f (h.flight_lt hg), hDelivered]
    · rw [← hAll]
      exact hLength ▸ hBound
  refine h.heardOn hNext hMoves (h.flight_lt hg) (not_settled hg hUnended) (fun _ _ => rfl)
    ⟨List.mem_append_left _ hResponse, ?_⟩ ?_ ?_
  · rw [chunksOf_snoc, ← hDelivered]
    exact (List.append_nil _).symm
  · rintro c reply ⟨hOpen, hc, rfl⟩
    exact .fetched (hMoves.joined f (h.flight_lt hg) c (hInv.waiting c hc).1) (hEnded hOpen)
  · rintro cache ⟨hOpen, hRoute, rfl, hCache⟩
    refine ⟨f, (hMoves.route f (h.flight_lt hg)).trans hRoute, ?_⟩
    rw [hCache]
    exact hEnded hOpen

theorem Inv.next {event : Event} (h : Inv cfg events s) (hNext : next cfg s event = some t) :
    Inv cfg (events ++ [event]) t := by
  have hStep := next_step hNext
  cases hStep with
  | config destroyed now => exact h.config destroyed now hNext
  | forward destroyed body =>
    have hStarted : Silent (arrive s destroyed) (proxyGatewayRequest (arrive s destroyed) .relay body s.callerCount) :=
      silent_proxyGatewayRequest (s := arrive s destroyed) (h.unused s.flightCount le_rfl) .relay body _
    exact h.silent hNext ((silent_arrive s destroyed).trans hStarted) fun _ => rfl
  | destroyCaller c =>
    refine h.silent hNext ⟨le_rfl, le_rfl, fun _ _ => rfl, fun _ _ _ hc => hc, fun _ => rfl, fun d reply hReply => .inl ?_,
      fun _ hCache => .inl hCache⟩ fun _ => rfl
    rcases eq_or_ne d c with rfl | hdc
    · simpa using hReply
    · simpa [hdc] using hReply
  | closed f c hc => exact h.silent hNext (silent_closed s f c) fun _ => rfl
  | gone c => exact h.silent hNext (.refl s) fun _ => rfl
  | response f statusCode contentType hf hFresh hDigits => exact h.response hNext
  | data f chunk g hg hOpen => exact h.data hg hOpen hNext
  | ended f time g hf hg hOpen => exact h.ended hg hOpen hNext
  | gresError f =>
    exact h.silent hNext ((silent_fail s f .gres_error).trans (silent_destroyGreq _ f)) fun _ => rfl
  | timeout f => exact h.silent hNext (silent_destroyGreq s f) fun _ => rfl
  | greqError f =>
    exact h.silent hNext ((silent_fail s f .gw_error).trans (silent_destroyGres _ f)) fun _ => rfl

theorem inv_empty (cfg : Config) : Inv cfg [] .empty :=
  ⟨rfl, fun _ _ => rfl, fun _ => rfl, fun _ _ hReply => absurd hReply List.not_mem_nil, nofun⟩

theorem passthrough_invariant (h : (gateway cfg).run (gateway cfg).start events = some s) : Inv cfg events s :=
  System.run_invariant (Inv cfg) (inv_empty cfg) (fun _ _ _ _ hInv hNext => hInv.next hNext) h

/-- Whoever waits for a response that can be sent on, and is still there, is given it at its end. -/
theorem onEnd_answers (h : CallersInv cfg s) (hUp : s.crashed = false) {f : Nat} {g : Gres}
    (hg : (s.flights f).gatewayResponse = some g) (hOpen : (s.flights f).completed = false)
    (hStatus : g.statusCode = 0 ∨ 100 ≤ g.statusCode) (time : Int) {c : Nat} (hc : c ∈ (s.flights f).callers)
    (hAlive : (s.callers c).destroyed = false) : ((onEnd s f g time).callers c).replies =
      [gatewayReply (s.flights f).route g.statusCode g.contentType g.delivered.flatten] := by
  have hFlight := h.flights hUp f
  have hKept := hFlight.kept g hg hOpen
  obtain ⟨-, hPristine⟩ := hFlight.waiting c hc
  obtain ⟨hSent, -, hReplies, -⟩ := hPristine
  have hSendable : (gatewayReply (s.flights f).route g.statusCode g.contentType g.delivered.flatten).sendable = true := by
    have hDigits := hKept.threeDigits
    rw [Reply.sendable_iff]
    change 100 ≤ (if g.statusCode = 0 then 502 else g.statusCode) ∧ (if g.statusCode = 0 then 502 else g.statusCode) ≤ 999
    split <;> omega
  rw [onEnd_eq hOpen, hKept.all]
  have hStored := headersForResponse_flights (complete s f g) (s.flights f).route
    (if g.statusCode = 0 then 502 else g.statusCode) g.contentType g.delivered.flatten time
  have hCallers := headersForResponse_callers (complete s f g) (s.flights f).route
    (if g.statusCode = 0 then 502 else g.statusCode) g.contentType g.delivered.flatten time
  have hStill : ((complete s f g).flights f).completed = false := complete_field Flight.completed s f g rfl ▸ hOpen
  have hWaiting : ((complete s f g).flights f).callers = (s.flights f).callers := complete_field Flight.callers s f g rfl
  rw [finish, hStored, hStill, if_neg (by decide)]
  change ((concludeAll _ none _ _ _).1 c).replies = _
  rw [hCallers, hWaiting, concludeAll_apply _ _ hFlight.unique (concludeAll_of_sendable _ _ hSendable _), if_pos hc]
  change ((s.callers c).conclude _ none _).replies = _
  rw [Caller.conclude, Caller.waits, hAlive, hSent, if_pos (by decide)]
  change (s.callers c).replies ++ [_] = _
  rw [hReplies, List.nil_append]

theorem next_data (hUp : s.crashed = false) {f : Nat} {g : Gres} (hf : f < s.flightCount)
    (hg : (s.flights f).gatewayResponse = some g) (hUnended : g.ended = false) (chunk : Bytes) :
    next cfg s (.data f chunk) = some (onData cfg s f g chunk) := by
  simp [next, hUp, hg, hf, hUnended]

theorem next_ended (hUp : s.crashed = false) {f : Nat} {g : Gres} (hf : f < s.flightCount)
    (hg : (s.flights f).gatewayResponse = some g) (hUnended : g.ended = false) (time : Int) :
    next cfg s (.ended f time) = some (onEnd s f g time) := by
  simp [next, hUp, hg, hf, hUnended]

theorem onEnd_others {f : Nat} (hOpen : (s.flights f).completed = false) (g : Gres) (time : Int) {h : Nat}
    (hOther : h ≠ f) : (onEnd s f g time).flights h = s.flights h := by
  rw [onEnd_eq hOpen, (touches_finish _ f _ _).others h hOther, headersForResponse_flights]
  exact setFlight_of_ne s _ hOther

/-- An open fetch that hears nothing but one chunk, and that in time, ends with an answer to all who wait. -/
theorem fetch_completes (h : (gateway cfg).Reachable s) (hUp : s.crashed = false) {f : Nat} (hf : f < s.flightCount)
    (hOpen : (s.flights f).completed = false) (hNone : (s.flights f).gatewayResponse = none) {statusCode : Nat}
    (hStatus : statusCode = 0 ∨ 100 ≤ statusCode ∧ statusCode ≤ 999) (contentType : Option Str) {body : Bytes}
    (hFits : body.length ≤ cfg.maxRespBytes) (time : Int) : ∃ t,
    (gateway cfg).run s [.response f statusCode contentType, .data f body, .ended f time] = some t ∧
    heard (t.flights f) = some (statusCode, contentType, [body], true) ∧ (∀ g, g ≠ f → t.flights g = s.flights g) ∧
    t.crashed = false ∧ ∀ c ∈ (s.flights f).callers, (s.callers c).destroyed = false →
      (t.callers c).replies = [gatewayReply (s.flights f).route statusCode contentType body] := by
  let first : Gres := ⟨statusCode, contentType, [], 0, [], false, (s.flights f).completed⟩
  let begun := onFlight s f fun flight => { flight with
    gatewayResponse := some ⟨statusCode, contentType, [], 0, [], false, flight.completed⟩ }
  let whole : Gres := ⟨statusCode, contentType, [body], 0 + body.length, [body], false, (s.flights f).completed⟩
  let read := onFlight begun f fun flight => { flight with gatewayResponse := some whole }
  have hBegun : begun.flights f = { s.flights f with gatewayResponse := some first } := by
    simp [begun, first, onFlight]
  have hRead : read.flights f = { s.flights f with gatewayResponse := some whole } := by
    simp [read, onFlight, hBegun]
  have hResponse : next cfg s (.response f statusCode contentType) = some begun := by
    simp only [next, hUp, Bool.false_eq_true, if_false]
    exact if_pos ⟨hf, hNone, by omega⟩
  have hWhole : onData cfg begun f first body = read := by
    have hStill : (begun.flights f).completed = false := hBegun ▸ hOpen
    have hSmall : ¬cfg.maxRespBytes < first.rcLen + body.length := by
      simpa [first] using hFits
    simp only [onData, hStill, if_neg hSmall]
    rfl
  have hFirst : (begun.flights f).gatewayResponse = some first := by rw [hBegun]
  have hRest : (read.flights f).gatewayResponse = some whole := by rw [hRead]
  have hData : next cfg begun (.data f body) = some read := by
    rw [next_data (s := begun) hUp hf hFirst rfl, hWhole]
  have hEnded : next cfg read (.ended f time) = some (onEnd read f whole time) :=
    next_ended (s := read) hUp hf hRest rfl time
  have hReachedBegun : (gateway cfg).Reachable begun := h.follow (.response f statusCode contentType) trivial hResponse
  have hReached : (gateway cfg).Reachable read := hReachedBegun.follow (.data f body) trivial hData
  have hStill : (read.flights f).completed = false := by rw [hRead, hOpen]
  have hMoves : Moves read (onEnd read f whole time) _ _ fun _ => _ := moves_onEnd read f (fun _ => rfl) time
  have hCode : whole.statusCode = 0 ∨ 100 ≤ whole.statusCode := hStatus.imp_right And.left
  refine ⟨onEnd read f whole time, ?_, ?_, fun g hg => ?_, ?_, fun c hc hAlive => ?_⟩
  · simp only [System.run, gateway, hResponse, hData, hEnded, Option.bind_some]
  · rw [hMoves.heard f, Function.update_self]
  · have hOthers : read.flights g = s.flights g := (setFlight_of_ne begun _ hg).trans (setFlight_of_ne s _ hg)
    exact (onEnd_others hStill whole time hg).trans hOthers
  · refine (onEnd_crashed_iff (gateway_invariant hReached) hUp hRest time).mpr fun g hg _ _ => ?_
    obtain rfl := Option.some.inj (hRest.symm.trans hg)
    exact hCode
  · have hAnswer := onEnd_answers (gateway_invariant hReached).callers hUp hRest hStill hCode time
      (by rw [hRead]; exact hc) hAlive
    rw [hAnswer, hRead]
    simp [whole]

/-- In every run each answer is the relay's own 502 or a whole response of the gateway, a stored one only while it is
fresh. Whoever still waits when a response has come in gets it, unless its status cannot be sent on: with that the
process ends. -/
theorem answers_are_the_gateways (h : (gateway cfg).run (gateway cfg).start events = some s) :
    (∀ c, ∀ reply ∈ (s.callers c).replies, Answered cfg events s c reply) ∧
    ∀ f time t, next cfg s (.ended f time) = some t → (s.flights f).completed = false → ∃ statusCode contentType,
      .response f statusCode contentType ∈ events ∧
      (statusCode = 0 ∨ 100 ≤ statusCode → ∀ c ∈ (s.flights f).callers, (s.callers c).destroyed = false →
        (t.callers c).replies =
          [gatewayReply (s.flights f).route statusCode contentType (chunksOf f events).flatten]) ∧
      (statusCode ≠ 0 ∧ statusCode < 100 → (∃ c ∈ (s.flights f).callers, (s.callers c).destroyed = false) →
        ∀ event, next cfg t event = none) := by
  have hInv := passthrough_invariant h
  refine ⟨hInv.replies, fun f time t hNext hOpen => ?_⟩
  have hUp := next_up hNext
  cases next_step hNext with
  | ended _ _ g hf hg hUnended =>
    have hFlights := gateway_invariant hInv.reachable
    have hHeard := hInv.heard f
    rw [hearing, heard, hg] at hHeard
    obtain ⟨hResponse, hDelivered⟩ := hHeard
    refine ⟨g.statusCode, g.contentType, hResponse, fun hStatus c hc hAlive => ?_, fun hStatus hLive event => ?_⟩
    · rw [← hDelivered]
      exact onEnd_answers hFlights.callers hUp hg hOpen hStatus time hc hAlive
    · have hCrashed := (onEnd_threw_iff hFlights hUp hg hOpen time).mpr ⟨hStatus, hLive⟩
      exact next_of_crashed hCrashed event

theorem answers_are_the_gateways_shared :
    (∀ c, ∀ reply ∈ (((gateway testConfig).after shared).callers c).replies,
      Answered testConfig shared ((gateway testConfig).after shared) c reply) ∧
    (((gateway testConfig).after shared).callers 2).replies = [⟨200, some octetStream, [1, 2, 3]⟩] :=
  ⟨(answers_are_the_gateways (System.run_after (gateway testConfig) (by decide))).1, by decide⟩

end

end Columbia.Relay.Passthrough
