import Columbia.Relay.AccessToken
import Columbia.Relay.Dispatch
import Columbia.Relay.RateLimited
import Mathlib.Data.Nat.Pairing

/-! # The relay as it is deployed

Any number of relay processes over one redemption store. A process checks the front door, the media type and the rate
limit of a request as it arrives, and starts to verify its token in the same turn. The handler goes on when
`clientAuthorized` has settled. The requests, the limiter, the token calls and the gateway fetches are those of the
modules below this one; here they run together, and what one of them decides is what the next one gets.
-/
namespace Columbia.Relay.Service
open Columbia.Js Columbia.Lib
open Columbia.Relay.AccessToken (Call Action Outcome Platform Shared Token readToken verified verifyAccessToken)
open Columbia.Relay.Dispatch (Client Outbound Process clientIpKey)
open Columbia.Relay.RateLimited (Answer Bucket rateLimited rateLimitedAll answer)
open Columbia.Relay.RelayRequests (Authorization RequestEvent)
set_option autoImplicit false

structure Config where
  dispatch : Dispatch.Config
  RATE_WINDOW_MS : Int
  RATE_MAX_KEYS : Int
  CLIENT_AUTH_MODE : Str
  CLIENT_SECRET : Str
  CLIENT_AUTH_HEADER : Str
  issuerKeyCache : IssuerKeyCache.Config

def Config.rate (config : Config) : RateLimited.Config :=
  ⟨config.dispatch.requests.rateLimitRpm, config.RATE_WINDOW_MS, config.RATE_MAX_KEYS⟩

/-- One process. `verdicts` are the answers of `rateLimited` so far, `admissions` those under which the admitted
requests came in. -/
structure Replica where
  process : Process
  rateBuckets : OrderedMap Str Bucket
  verdicts : List Answer
  admissions : List Answer

/-- `redemption` holds the calls of `verifyAccessToken` of all processes. -/
structure Deployment (R : Redeemer) where
  replicas : Nat → Replica
  redemption : Pool (Shared R) (Call R)

def callOf (p i : Nat) : Nat := Nat.pair p i

/-- `arrive` runs to the first `await` of the handler; the clock is read at its places in order. -/
inductive Event (R : Redeemer)
  | arrive (p : Nat) (client : Client) (now : Nat → Int)
  | verify (p i : Nat) (action : Action R)
  | issuer (event : AccessToken.Event R)
  | settle (p i : Nat)
  | process (p : Nat) (event : Dispatch.Event)

section
variable (platform : Platform) (config : Config)

def presentedBy (client : Client) : Value :=
  match client.header config.CLIENT_AUTH_HEADER with
  | some presented => .str presented
  | none => .undefined

/-- `none` is a promise of `verifyAccessToken`. -/
def clientAuthorized (client : Client) : Option Bool :=
  if config.CLIENT_AUTH_MODE = str "off" then some true
  else if config.CLIENT_AUTH_MODE = str "secret" then
    if config.CLIENT_SECRET = [] then some false
    else some ((client.header config.CLIENT_AUTH_HEADER).any fun presented =>
      timingSafeEqualStr platform.sha256 presented config.CLIENT_SECRET)
  else if config.CLIENT_AUTH_MODE = str "token" then none
  else some false

def settled : Outcome → Authorization
  | .admitted _ _ => .granted
  | .refused => .denied
  | .unavailable => .threw

variable {R : Redeemer}

def authorization (client : Client) (call : Call R) : Option Authorization :=
  match clientAuthorized platform config client with
  | some true => some .granted
  | some false => some .denied
  | none => call.outcome?.map settled

/-- The request comes to the rate limit: the process takes requests, and this one has its front door and its type. -/
def Entered (client : Client) : Prop :=
  frontDoorAllowed platform.sha256 config.dispatch.REQUIRE_FDID (client.header config.dispatch.FDID_HEADER) = true ∧
    mediaType (client.header (str "content-type")) = str "message/ohttp-req"

instance (client : Client) : Decidable (Entered platform config client) := by
  unfold Entered
  infer_instance

/-- The limiter is called for requests that come to it, and its answer is used for those. -/
def Replica.limit (r : Replica) (client : Client) (now : Int) : Replica :=
  if r.process.requests.draining = false ∧ Entered platform config client then
    { r with
      rateBuckets := (rateLimited config.rate r.rateBuckets (clientIpKey config.dispatch client) now).1
      verdicts := r.verdicts ++ [answer config.rate r.rateBuckets (clientIpKey config.dispatch client) now] }
  else r

/-- `clientAuthorized` is called in the turn that admits the request. -/
def startAuthorization (s : Pool (Shared R) (Call R)) (p i : Nat) (client : Client) (now : Nat → Int) :
    Pool (Shared R) (Call R) :=
  match clientAuthorized platform config client with
  | some _ => s
  | none =>
    let (shared, call) := AccessToken.startCall platform config.issuerKeyCache p (presentedBy config client) now s.shared
    ⟨shared, Function.update s.calls (callOf p i) call⟩

def arrive (s : Deployment R) (p : Nat) (client : Client) (now : Nat → Int) : Option (Deployment R) :=
  let r := s.replicas p
  let verdict := answer config.rate r.rateBuckets (clientIpKey config.dispatch client) (now 0)
  let limiter := r.limit platform config client (now 0)
  (Dispatch.arrive platform.sha256 config.dispatch r.process client verdict.limited).map fun process =>
    if process.clients.length = r.process.clients.length then
      { s with replicas := Function.update s.replicas p { limiter with process := process } }
    else
      { replicas := Function.update s.replicas p { limiter with
          process := process
          admissions := r.admissions ++ [verdict] }
        redemption := startAuthorization platform config s.redemption p r.process.clients.length client
          fun n => now (n + 1) }

def Deployment.put (s : Deployment R) (p : Nat) (process : Process) : Deployment R :=
  { s with replicas := Function.update s.replicas p { s.replicas p with process := process } }

/-- The handler goes on after `await clientAuthorized(req)`. -/
def settle (s : Deployment R) (p i : Nat) : Option (Deployment R) := do
  let client ← (s.replicas p).process.clients[i]?
  let outcome ← authorization platform config client (s.redemption.calls (callOf p i))
  let process ← Dispatch.next platform.sha256 config.dispatch (s.replicas p).process
    (.request i (.authSettles outcome))
  some (s.put p process)

/-- The events of a process that nothing else here decides. -/
def Internal : Dispatch.Event → Prop
  | .arrive _ _ => False
  | .request _ (.authSettles _) => False
  | _ => True

instance (event : Dispatch.Event) : Decidable (Internal event) := by
  unfold Internal
  split <;> infer_instance

def Resumes : Action R → Prop
  | .start _ _ _ => False
  | _ => True

instance (action : Action R) : Decidable (Resumes action) := by
  unfold Resumes
  split <;> infer_instance

variable (R) in
def calls : Calls (Shared R) (Call R) (Action R) (AccessToken.Event R) :=
  verifyAccessToken platform config.issuerKeyCache R

def next (s : Deployment R) : Event R → Option (Deployment R)
  | .arrive p client now => arrive platform config s p client now
  | .verify p i action =>
    if (s.replicas p).process.requests.exitCode.isSome ∨ ¬Resumes action then none
    else ((calls platform config R).system.next s.redemption (.act (callOf p i) action)).map fun redemption =>
      { s with redemption := redemption }
  | .issuer event => ((calls platform config R).system.next s.redemption (.env event)).map fun redemption =>
      { s with redemption := redemption }
  | .settle p i => settle platform config s p i
  | .process p event =>
    if Internal event then
      (Dispatch.next platform.sha256 config.dispatch (s.replicas p).process event).map (s.put p)
    else none

variable (R) in
def service : System (Deployment R) (Event R) where
  start := ⟨fun _ => ⟨(Dispatch.relay platform.sha256 config.dispatch).start, .empty, [], []⟩,
    (calls platform config R).system.start⟩
  next := next platform config

end

/-! ## What a step does to one process -/

section
variable {platform : Platform} {config : Config} {s t : Process}

theorem requests_of_arrive {cfg : RelayRequests.Config} {requests : RelayRequests.Server} {ipBucket : Str}
    {limited : Bool} (h : (RelayRequests.arrive cfg requests ipBucket limited).requests ≠ requests.requests) :
    requests.draining = false ∧ limited = false := by
  unfold RelayRequests.arrive at h
  simp only at h
  split at h
  · exact absurd rfl h
  rename_i hServing
  split at h
  · exact absurd rfl h
  rename_i hPassed
  exact ⟨by simpa using hServing, by simpa using hPassed⟩

/-- A request that is admitted has come to the rate limit and was let through. -/
theorem clients_of_arrive {client : Client} {limited : Bool}
    (h : Dispatch.arrive platform.sha256 config.dispatch s client limited = some t) :
    t.history = s.history ∧ (t.clients = s.clients ∨
      t.clients = s.clients ++ [client] ∧ s.requests.draining = false ∧ Entered platform config client ∧
        limited = false) := by
  unfold Dispatch.arrive at h
  split at h
  · cases h
  split at h
  · cases h
    exact ⟨rfl, .inl rfl⟩
  rename_i hFrontDoor
  split at h
  · cases h
    exact ⟨rfl, .inl rfl⟩
  rename_i hMediaType
  obtain ⟨u, hProcess, rfl⟩ := Option.map_eq_some_iff.mp h
  obtain ⟨requests, hNext, rfl⟩ := Option.map_eq_some_iff.mp hProcess
  have hArrive : requests =
      RelayRequests.arrive config.dispatch.requests s.requests (clientIpKey config.dispatch client) limited := by
    cases (RelayRequests.next_step hNext).2 with
    | arrive _ _ => rfl
  refine ⟨rfl, ?_⟩
  by_cases hSame : requests.requests.length = s.requests.requests.length
  · exact .inl (if_pos hSame)
  · have hMore : (RelayRequests.arrive config.dispatch.requests s.requests (clientIpKey config.dispatch client)
        limited).requests ≠ s.requests.requests := fun hEq => hSame (by rw [hArrive, hEq])
    obtain ⟨hServing, hPassed⟩ := requests_of_arrive hMore
    refine .inr ⟨if_neg hSame, hServing, ⟨?_, ?_⟩, hPassed⟩
    · by_contra hLocked
      exact hFrontDoor ⟨by simp [hServing], by simpa using hLocked⟩
    · by_contra hOther
      exact hMediaType ⟨by simp [hServing], hOther⟩

theorem history_of_request {cfg : Dispatch.Config} {i : Nat} {event : RequestEvent}
    (h : Dispatch.onRequest cfg s i event = some t) :
    t.clients = s.clients ∧ t.history = Function.update s.history i (s.history i ++ [event]) := by
  obtain ⟨before, -, h⟩ := Option.bind_eq_some_iff.mp h
  obtain ⟨requests, -, h⟩ := Option.bind_eq_some_iff.mp h
  obtain ⟨after, -, h⟩ := Option.bind_eq_some_iff.mp h
  split at h
  · cases h
    exact ⟨rfl, rfl⟩
  · obtain ⟨gateway, -, rfl⟩ := Option.map_eq_some_iff.mp h
    exact ⟨rfl, rfl⟩

/-- What a process does on its own admits nobody and settles nothing. -/
theorem history_of_internal {cfg : Dispatch.Config} {sha256 : Bytes → Digest} {event : Dispatch.Event}
    (hInternal : Internal event) (h : Dispatch.next sha256 cfg s event = some t) :
    t.clients = s.clients ∧
      ∀ i outcome, .authSettles outcome ∈ t.history i → .authSettles outcome ∈ s.history i := by
  have hProcess : ∀ event, Dispatch.onProcess cfg s event = some t → t.clients = s.clients ∧
      ∀ i outcome, .authSettles outcome ∈ t.history i → .authSettles outcome ∈ s.history i := by
    intro event hNext
    obtain ⟨requests, -, rfl⟩ := Option.map_eq_some_iff.mp hNext
    exact ⟨rfl, fun _ _ hMem => hMem⟩
  cases event with
  | arrive client limited => cases hInternal
  | request i event =>
    obtain ⟨hClients, hHistory⟩ := history_of_request h
    refine ⟨hClients, fun j outcome hMem => ?_⟩
    rw [hHistory] at hMem
    rcases eq_or_ne j i with rfl | hj
    · rw [Function.update_self] at hMem
      rcases List.mem_append.mp hMem with hOld | hNew
      · exact hOld
      · cases List.mem_singleton.mp hNew
        cases hInternal
    · rwa [Function.update_of_ne hj] at hMem
  | gateway event =>
    have hFetch : Dispatch.onGateway cfg s event = some t → t.clients = s.clients ∧
        ∀ i outcome, .authSettles outcome ∈ t.history i → .authSettles outcome ∈ s.history i := by
      intro hNext
      unfold Dispatch.onGateway at hNext
      split at hNext
      · cases hNext
      · obtain ⟨gateway, -, rfl⟩ := Option.map_eq_some_iff.mp hNext
        exact ⟨by simp, by simp⟩
    cases event with
    | forward destroyed body => cases h
    | _ => exact hFetch h
  | beginShutdown => exact hProcess _ h
  | httpClosed => exact hProcess _ h
  | shutdownTimer => exact hProcess _ h

end

/-! ## What a step does to one call -/

section
variable {R : Redeemer} {platform : Platform} {config : Config}

variable (platform) in
/-- What a call has made of the header that it was given. -/
def Presented (presented : Value) : Call R → Prop
  | .idle | .returned .refused | .returned .unavailable => True
  | .awaitingKey _ token _ | .gotKey _ token _ => readToken platform presented = some token
  | .redeeming entry signature _ _ | .returned (.admitted entry signature) =>
    ∃ token, readToken platform presented = some token ∧ verified platform entry.publicKey token = some signature

theorem startCall_presented (cfg : IssuerKeyCache.Config) (p : Nat) (presented : Value) (now : Nat → Int)
    (s : Shared R) : Presented platform presented (AccessToken.startCall platform cfg p presented now s).2 := by
  unfold AccessToken.startCall
  split
  · trivial
  · rename_i token hToken
    split
    · exact hToken
    · exact hToken

theorem act_presented {cfg : IssuerKeyCache.Config} {presented : Value} {i : Nat} {action : Action R} {s t : Shared R}
    {call call' : Call R} (hResumes : Resumes action) (h : Presented platform presented call)
    (hAct : AccessToken.act platform cfg i action s call = some (t, call')) : Presented platform presented call' := by
  unfold AccessToken.act at hAct
  split at hAct
  · cases hResumes
  · obtain ⟨a, -, hEq⟩ := Option.map_eq_some_iff.mp hAct
    cases hEq
    exact h
  · unfold AccessToken.checkCall at hAct
    split at hAct
    · cases hAct
      trivial
    · cases hAct
      trivial
    split at hAct
    · cases hAct
      trivial
    · rename_i hVerified
      obtain ⟨x, -, hEq⟩ := Option.map_eq_some_iff.mp hAct
      cases hEq
      exact ⟨_, h, hVerified⟩
  · obtain ⟨x, -, hEq⟩ := Option.map_eq_some_iff.mp hAct
    cases hEq
    exact h
  · obtain ⟨result, -, hEq⟩ := Option.map_eq_some_iff.mp hAct
    cases hEq
    match result with
    | .verdict true => exact h
    | .verdict false => trivial
    | .unavailable => trivial
  · cases hAct

/-- A call that has returned is over, and one that has not started is not resumed. -/
theorem act_open {cfg : IssuerKeyCache.Config} {i : Nat} {action : Action R} {s t : Shared R} {call call' : Call R}
    (hResumes : Resumes action) (hAct : AccessToken.act platform cfg i action s call = some (t, call')) :
    call ≠ .idle ∧ call.outcome? = none := by
  unfold AccessToken.act at hAct
  split at hAct
  · cases hResumes
  · exact ⟨nofun, rfl⟩
  · exact ⟨nofun, rfl⟩
  · exact ⟨nofun, rfl⟩
  · exact ⟨nofun, rfl⟩
  · cases hAct

theorem callOf_eq {p q i j : Nat} : callOf p i = callOf q j ↔ p = q ∧ i = j := Nat.pair_eq_pair

/-- The calls of process `q` after one of process `p` has moved. -/
theorem update_callOf (calls : Nat → Call R) (p i : Nat) (call : Call R) (q : Nat) :
    (fun j => Function.update calls (callOf p i) call (callOf q j)) =
      if q = p then Function.update (fun j => calls (callOf q j)) i call else fun j => calls (callOf q j) := by
  funext j
  by_cases hq : q = p
  · subst hq
    rw [if_pos rfl]
    rcases eq_or_ne j i with rfl | hj
    · rw [Function.update_self, Function.update_self]
    · rw [Function.update_of_ne hj, Function.update_of_ne fun hEq => hj (callOf_eq.mp hEq).2]
  · rw [if_neg hq, Function.update_of_ne fun hEq => hq (callOf_eq.mp hEq).1]

/-! ## Every run, for one process and its calls -/

variable (platform config) in
/-- The requests of a process, with the calls of `verifyAccessToken` made for them. -/
structure Kept (calls : Nat → Call R) (s : Process) : Prop where
  reachable : (Dispatch.relay platform.sha256 config.dispatch).Reachable s
  served : ∀ i client, s.clients[i]? = some client →
    Entered platform config client ∧ Presented platform (presentedBy config client) (calls i)
  waiting : ∀ i, s.clients.length ≤ i → calls i = .idle
  settled : ∀ i outcome, .authSettles outcome ∈ s.history i →
    ∃ client, s.clients[i]? = some client ∧ authorization platform config client (calls i) = some outcome

theorem Kept.event {calls : Nat → Call R} {s t : Process} (h : Kept platform config calls s) {event : Dispatch.Event}
    (hNext : Dispatch.next platform.sha256 config.dispatch s event = some t) (hClients : t.clients = s.clients)
    (hSettled : ∀ i outcome, .authSettles outcome ∈ t.history i → .authSettles outcome ∈ s.history i ∨
      ∃ client, s.clients[i]? = some client ∧ authorization platform config client (calls i) = some outcome) :
    Kept platform config calls t := by
  refine ⟨.step h.reachable trivial hNext, ?_, ?_, fun i outcome hMem => ?_⟩
  · rw [hClients]
    exact h.served
  · rw [hClients]
    exact h.waiting
  · rw [hClients]
    rcases hSettled i outcome hMem with hOld | hNew
    · exact h.settled i outcome hOld
    · exact hNew

theorem Kept.admitted {calls : Nat → Call R} {s t : Process} (h : Kept platform config calls s) {event : Dispatch.Event}
    (hNext : Dispatch.next platform.sha256 config.dispatch s event = some t) (hHistory : t.history = s.history)
    {client : Client} (hClients : t.clients = s.clients ++ [client]) (hEntered : Entered platform config client)
    {call : Call R} (hPresented : Presented platform (presentedBy config client) call) :
    Kept platform config (Function.update calls s.clients.length call) t := by
  have hOthers : ∀ i, i < s.clients.length → Function.update calls s.clients.length call i = calls i :=
    fun i hi => Function.update_of_ne (by omega) _ _
  refine ⟨.step h.reachable trivial hNext, fun i c hc => ?_, fun i hi => ?_, fun i outcome hMem => ?_⟩
  · rw [hClients, List.getElem?_append] at hc
    split at hc
    · rename_i hOld
      rw [hOthers i hOld]
      exact h.served i c hc
    · rename_i hNew
      obtain ⟨hi, hEq⟩ := List.getElem?_eq_some_iff.mp hc
      simp only [List.length_singleton] at hi
      obtain rfl : i = s.clients.length := by omega
      simp only [Nat.sub_self, List.getElem_cons_zero] at hEq
      subst hEq
      rw [Function.update_self]
      exact ⟨hEntered, hPresented⟩
  · rw [hClients, List.length_append, List.length_singleton] at hi
    rw [Function.update_of_ne (by omega)]
    exact h.waiting i (by omega)
  · rw [hHistory] at hMem
    obtain ⟨c, hc, hOutcome⟩ := h.settled i outcome hMem
    have hOld : i < s.clients.length := (List.getElem?_eq_some_iff.mp hc).1
    refine ⟨c, ?_, ?_⟩
    · rw [hClients, List.getElem?_append_left hOld, hc]
    · rw [hOthers i hOld, hOutcome]

theorem Kept.call {calls : Nat → Call R} {s : Process} (h : Kept platform config calls s) {cfg : IssuerKeyCache.Config}
    {n i : Nat} {action : Action R} {shared shared' : Shared R} {call : Call R} (hResumes : Resumes action)
    (hAct : AccessToken.act platform cfg n action shared (calls i) = some (shared', call)) :
    Kept platform config (Function.update calls i call) s := by
  obtain ⟨hStarted, hOpen⟩ := act_open hResumes hAct
  refine ⟨h.reachable, fun j client hc => ?_, fun j hj => ?_, fun j outcome hMem => ?_⟩
  · obtain ⟨hEntered, hPresented⟩ := h.served j client hc
    refine ⟨hEntered, ?_⟩
    rcases eq_or_ne j i with rfl | hj
    · rw [Function.update_self]
      exact act_presented hResumes hPresented hAct
    · rw [Function.update_of_ne hj]
      exact hPresented
  · have hOther : j ≠ i := fun hEq => hStarted (hEq ▸ h.waiting j hj)
    rw [Function.update_of_ne hOther]
    exact h.waiting j hj
  · obtain ⟨client, hc, hOutcome⟩ := h.settled j outcome hMem
    refine ⟨client, hc, ?_⟩
    rcases eq_or_ne j i with rfl | hj
    · -- what is settled while the call runs does not come from the call
      unfold authorization at hOutcome ⊢
      split at hOutcome
      · exact hOutcome
      · exact hOutcome
      · rw [hOpen] at hOutcome
        cases hOutcome
    · rw [Function.update_of_ne hj]
      exact hOutcome

end

/-! ## Every run, for the limiter of one process -/

section
variable {platform : Platform} {config : Config}

variable (config) in
/-- The table is what the verdicts left, and the admitted requests are among those that they let through. -/
structure Limited (r : Replica) : Prop where
  table : rateLimitedAll config.rate .empty (r.verdicts.map fun a => (a.key, a.now)) = (r.verdicts, r.rateBuckets)
  passed : r.admissions.Sublist (r.verdicts.filter fun a => a.limited = false)
  owned : r.admissions.map Answer.key = r.process.clients.map (clientIpKey config.dispatch)

theorem Limited.process {r : Replica} (h : Limited config r) {process : Process}
    (hClients : process.clients = r.process.clients) : Limited config { r with process := process } :=
  ⟨h.table, h.passed, by rw [hClients, h.owned]⟩

theorem Limited.limit {r : Replica} (h : Limited config r) (client : Client) (now : Int) :
    Limited config (r.limit platform config client now) := by
  unfold Replica.limit
  split
  · refine ⟨?_, ?_, h.owned⟩
    · simp only [List.map_append, List.map_cons, List.map_nil, RateLimited.key_answer, RateLimited.now_answer,
        RateLimited.rateLimitedAll_concat, h.table]
    · rw [List.filter_append]
      exact h.passed.trans (List.sublist_append_left _ _)
  · exact h

/-- The verdict that admits a request is the last one. -/
theorem Limited.admitted {r : Replica} (h : Limited config r) {process : Process} {client : Client} {now : Int}
    (hServing : r.process.requests.draining = false) (hEntered : Entered platform config client)
    (hPassed : (answer config.rate r.rateBuckets (clientIpKey config.dispatch client) now).limited = false)
    (hClients : process.clients = r.process.clients ++ [client]) :
    Limited config { r.limit platform config client now with
      process := process
      admissions := r.admissions ++ [answer config.rate r.rateBuckets (clientIpKey config.dispatch client) now] } := by
  refine ⟨(h.limit client now).table, ?_, ?_⟩
  · rw [Replica.limit, if_pos ⟨hServing, hEntered⟩, List.filter_append]
    refine h.passed.append ?_
    rw [List.filter_cons_of_pos (by simpa using hPassed)]
    exact List.Sublist.refl _
  · rw [hClients, List.map_append, List.map_append, h.owned, List.map_singleton, List.map_singleton,
      RateLimited.key_answer]

end

/-! ## Every run of the deployment -/

section
variable {R : Redeemer} {platform : Platform} {config : Config} {s t : Deployment R}

def Deployment.callsOf (s : Deployment R) (p i : Nat) : Call R := s.redemption.calls (callOf p i)

variable (platform config) in
def Inv (s : Deployment R) : Prop :=
  ∀ p, Kept platform config (s.callsOf p) (s.replicas p).process ∧ Limited config (s.replicas p)

/-- A process moves while all calls stay as they are. -/
theorem Inv.put (h : Inv platform config s) {p : Nat} {r : Replica}
    (hKept : Kept platform config (s.callsOf p) r.process) (hLimited : Limited config r) :
    Inv platform config { s with replicas := Function.update s.replicas p r } := by
  intro q
  rcases eq_or_ne q p with rfl | hq
  · simp only [Function.update_self]
    exact ⟨hKept, hLimited⟩
  · simp only [Function.update_of_ne hq]
    exact h q

/-- A call of one process moves, and that process may move with it. -/
theorem Inv.move (h : Inv platform config s) {p i : Nat} {call : Call R} {r : Replica} (shared : Shared R)
    (hKept : Kept platform config (Function.update (s.callsOf p) i call) r.process) (hLimited : Limited config r) :
    Inv platform config
      ⟨Function.update s.replicas p r, ⟨shared, Function.update s.redemption.calls (callOf p i) call⟩⟩ := by
  intro q
  have hCalls : Deployment.callsOf ⟨Function.update s.replicas p r,
      ⟨shared, Function.update s.redemption.calls (callOf p i) call⟩⟩ q =
        if q = p then Function.update (s.callsOf q) i call else s.callsOf q := update_callOf _ p i call q
  rw [hCalls]
  rcases eq_or_ne q p with rfl | hq
  · simp only [if_pos, Function.update_self]
    exact ⟨hKept, hLimited⟩
  · simp only [if_neg hq, Function.update_of_ne hq]
    exact h q

theorem Inv.arrive (h : Inv platform config s) {p : Nat} {client : Client} {now : Nat → Int}
    (hArrive : Service.arrive platform config s p client now = some t) : Inv platform config t := by
  obtain ⟨hKept, hLimited⟩ := h p
  obtain ⟨process, hProcess, rfl⟩ := Option.map_eq_some_iff.mp hArrive
  have hNext : Dispatch.next platform.sha256 config.dispatch (s.replicas p).process (.arrive client
      (answer config.rate (s.replicas p).rateBuckets (clientIpKey config.dispatch client) (now 0)).limited) =
        some process := hProcess
  have hLimiter : ((s.replicas p).limit platform config client (now 0)).process = (s.replicas p).process := by
    unfold Replica.limit
    split <;> rfl
  obtain ⟨hHistory, hClients⟩ := clients_of_arrive hProcess
  rcases hClients with hSame | ⟨hMore, hServing, hEntered, hPassed⟩
  · rw [if_pos (by rw [hSame])]
    refine h.put (hKept.event hNext hSame fun i outcome hMem => .inl (hHistory ▸ hMem)) ?_
    exact (hLimited.limit client (now 0)).process (hSame.trans (congrArg Process.clients hLimiter.symm))
  · rw [if_neg (by simp [hMore])]
    have hAdmitted := hLimited.admitted hServing hEntered hPassed hMore
    unfold startAuthorization
    split
    · -- no call is made: the call of the new request stays idle
      have hIdle : Kept platform config
          (Function.update (s.callsOf p) (s.replicas p).process.clients.length (.idle : Call R)) process :=
        hKept.admitted hNext hHistory hMore hEntered trivial
      rw [← hKept.waiting _ le_rfl, Function.update_eq_self] at hIdle
      exact h.put hIdle hAdmitted
    · exact h.move _ (hKept.admitted hNext hHistory hMore hEntered (startCall_presented _ _ _ _ _)) hAdmitted

theorem Inv.settle (h : Inv platform config s) {p i : Nat} (hSettle : Service.settle platform config s p i = some t) :
    Inv platform config t := by
  obtain ⟨hKept, hLimited⟩ := h p
  obtain ⟨client, hClient, hSettle⟩ := Option.bind_eq_some_iff.mp hSettle
  obtain ⟨outcome, hOutcome, hSettle⟩ := Option.bind_eq_some_iff.mp hSettle
  obtain ⟨process, hNext, hEq⟩ := Option.bind_eq_some_iff.mp hSettle
  cases hEq
  obtain ⟨hClients, hHistory⟩ := history_of_request hNext
  refine h.put (hKept.event hNext hClients fun j settled hMem => ?_) (hLimited.process hClients)
  rw [hHistory] at hMem
  rcases eq_or_ne j i with rfl | hj
  · rw [Function.update_self] at hMem
    rcases List.mem_append.mp hMem with hOld | hNew
    · exact .inl hOld
    · cases List.mem_singleton.mp hNew
      exact .inr ⟨client, hClient, hOutcome⟩
  · rw [Function.update_of_ne hj] at hMem
    exact .inl hMem

theorem Inv.next (h : Inv platform config s) {event : Event R} (hNext : Service.next platform config s event = some t) :
    Inv platform config t := by
  cases event with
  | arrive p client now => exact h.arrive hNext
  | settle p i => exact h.settle hNext
  | verify p i action =>
    obtain ⟨hKept, hLimited⟩ := h p
    simp only [Service.next] at hNext
    split at hNext
    · cases hNext
    rename_i hRuns
    obtain ⟨redemption, hStep, rfl⟩ := Option.map_eq_some_iff.mp hNext
    obtain ⟨shared, call, hAct, rfl⟩ := Calls.system_next_act hStep
    have hResumes : Resumes action := by
      simp only [not_or, not_not] at hRuns
      exact hRuns.2
    have hMoved := h.move shared (hKept.call hResumes hAct) hLimited
    rwa [Function.update_eq_self] at hMoved
  | issuer event =>
    obtain ⟨redemption, hStep, rfl⟩ := Option.map_eq_some_iff.mp hNext
    obtain ⟨shared, -, rfl⟩ := Calls.system_next_env hStep
    exact h
  | process p event =>
    obtain ⟨hKept, hLimited⟩ := h p
    simp only [Service.next] at hNext
    split at hNext
    · rename_i hInternal
      obtain ⟨process, hStep, rfl⟩ := Option.map_eq_some_iff.mp hNext
      obtain ⟨hClients, hHistory⟩ := history_of_internal hInternal hStep
      exact h.put (hKept.event hStep hClients fun i outcome hMem => .inl (hHistory i outcome hMem))
        (hLimited.process hClients)
    · cases hNext

theorem kept_start : Kept platform config (fun _ => .idle : Nat → Call R)
    (Dispatch.relay platform.sha256 config.dispatch).start := by
  refine ⟨.start, fun i client hc => ?_, fun _ _ => rfl, fun i outcome hMem => ?_⟩
  · cases hc
  · cases hMem

theorem service_invariant (h : (service platform config R).Reachable s) : Inv platform config s :=
  h.invariant (Inv platform config) (fun _ => ⟨kept_start, ⟨rfl, .refl _, rfl⟩⟩) fun _ _ _ hInv hNext =>
    hInv.next hNext

/-! ## Who is forwarded -/

variable (platform config) in
/-- What a client has to show, by mode. In a mode that the source does not know, nothing will do. -/
def Authorized (client : Client) (call : Call R) : Prop :=
  config.CLIENT_AUTH_MODE = str "off" ∨
  (config.CLIENT_AUTH_MODE = str "secret" ∧ config.CLIENT_SECRET ≠ [] ∧ ∃ presented,
    client.header config.CLIENT_AUTH_HEADER = some presented ∧
      timingSafeEqualStr platform.sha256 presented config.CLIENT_SECRET = true) ∨
  (config.CLIENT_AUTH_MODE = str "token" ∧ ∃ token entry signature,
    readToken platform (presentedBy config client) = some token ∧
      verified platform entry.publicKey token = some signature ∧
      call.outcome? = some (.admitted entry signature))

theorem settled_eq_granted {outcome : Outcome} (h : settled outcome = .granted) :
    ∃ entry signature, outcome = .admitted entry signature := by
  cases outcome with
  | admitted entry signature => exact ⟨entry, signature, rfl⟩
  | refused => cases h
  | unavailable => cases h

theorem authorized_of_granted {client : Client} {call : Call R}
    (hPresented : Presented platform (presentedBy config client) call)
    (h : authorization platform config client call = some .granted) : Authorized platform config client call := by
  unfold authorization clientAuthorized at h
  by_cases hOff : config.CLIENT_AUTH_MODE = str "off"
  · exact .inl hOff
  rw [if_neg hOff] at h
  by_cases hSecret : config.CLIENT_AUTH_MODE = str "secret"
  · rw [if_pos hSecret] at h
    by_cases hEmpty : config.CLIENT_SECRET = []
    · rw [if_pos hEmpty] at h
      cases h
    · rw [if_neg hEmpty] at h
      cases hAny : (client.header config.CLIENT_AUTH_HEADER).any fun presented =>
          timingSafeEqualStr platform.sha256 presented config.CLIENT_SECRET with
      | false =>
        rw [hAny] at h
        cases h
      | true => exact .inr (.inl ⟨hSecret, hEmpty, (Option.any_eq_true ..).mp hAny⟩)
  rw [if_neg hSecret] at h
  by_cases hToken : config.CLIENT_AUTH_MODE = str "token"
  · rw [if_pos hToken] at h
    obtain ⟨outcome, hOutcome, hGranted⟩ := Option.map_eq_some_iff.mp h
    obtain ⟨entry, signature, rfl⟩ := settled_eq_granted hGranted
    unfold Call.outcome? at hOutcome
    split at hOutcome
    · cases hOutcome
      obtain ⟨token, hRead, hVerified⟩ := hPresented
      exact .inr (.inr ⟨hToken, token, entry, signature, hRead, hVerified, rfl⟩)
    · cases hOutcome
  · rw [if_neg hToken] at h
    cases h

/-- The client of a request that was sent to the gateway. -/
theorem Kept.forwarded {calls : Nat → Call R} {process : Process} (h : Kept platform config calls process)
    {d : Outbound} (hd : d ∈ process.dispatched) : ∃ client, process.clients[d.request]? = some client ∧
      Entered platform config client ∧ Authorized platform config client (calls d.request) := by
  have hUploaded := ((Dispatch.relay_dispatch_invariant h.reachable).sentFor_eq hd).2.2
  obtain ⟨before, during, after, hEvents, -⟩ := hUploaded
  have hGranted : .authSettles .granted ∈ process.history d.request := by
    rw [hEvents]
    exact List.mem_append_right _ List.mem_cons_self
  obtain ⟨client, hClient, hOutcome⟩ := h.settled _ _ hGranted
  obtain ⟨hEntered, hPresented⟩ := h.served _ _ hClient
  exact ⟨client, hClient, hEntered, authorized_of_granted hPresented hOutcome⟩

/-! ## One token, brought by two clients -/

def testConfig : Config where
  dispatch := Dispatch.testConfig
  RATE_WINDOW_MS := 60000
  RATE_MAX_KEYS := 100000
  CLIENT_AUTH_MODE := str "token"
  CLIENT_SECRET := []
  CLIENT_AUTH_HEADER := str "x-columbia-token"
  issuerKeyCache := AccessToken.testConfig

def tokenText : Str := str "PrivateToken " ++ base64Encode (AccessToken.tokenText AccessToken.fullSignature)

def tokenClient (address : String) : Client where
  remoteAddress := some (str address)
  headers := [(str "content-type", str "message/ohttp-req"), (str "x-columbia-token", tokenText)]

/-- The second client brings the token that the first one has spent. -/
def respent : List (Event AccessToken.testBackend.redeemer) :=
  [.arrive 0 (tokenClient "192.0.2.1") fun _ => 1000, .issuer (.fetched 0 (fun _ => 1001) (some AccessToken.testDocument)),
   .issuer (.cleared 0), .verify 0 0 (.resumeGet fun _ => 1002), .verify 0 0 (.check []), .verify 0 0 .finish,
   .settle 0 0, .process 0 (.request 0 (.data [1, 2])), .process 0 (.request 0 (.data [3])),
   .process 0 (.request 0 .ended), .arrive 0 (tokenClient "198.51.100.7") fun _ => 1003, .verify 0 1 (.check []),
   .verify 0 1 .finish, .settle 0 1, .process 0 (.request 1 (.data [1, 2, 3])), .process 0 (.request 1 .ended)]

def testService := service AccessToken.testPlatform testConfig AccessToken.testBackend.redeemer

def afterRespent := testService.after respent

/-- Whatever the processes, the token calls and the stores do in between: what is sent to the gateway was uploaded by a
client that came through the front door and showed what the mode asks for, each request once. -/
theorem forwarded_clients_authorized (h : (service platform config R).Reachable s) (p : Nat) :
    ((s.replicas p).process.dispatched.map Outbound.request).Nodup ∧
    ∀ d ∈ (s.replicas p).process.dispatched, ∃ client, (s.replicas p).process.clients[d.request]? = some client ∧
      Entered platform config client ∧
      Authorized platform config client (s.redemption.calls (callOf p d.request)) ∧
      d.sent = Dispatch.forwardToGateway config.dispatch d.sent.body := by
  obtain ⟨hKept, -⟩ := service_invariant h p
  have hInv := Dispatch.relay_dispatch_invariant hKept.reachable
  refine ⟨hInv.requests_nodup, fun d hd => ?_⟩
  obtain ⟨client, hClient, hEntered, hAuthorized⟩ := hKept.forwarded hd
  exact ⟨client, hClient, hEntered, hAuthorized, (hInv.sentFor_eq hd).2.1⟩

theorem respent_forwards : (afterRespent.replicas 0).process.dispatched.map Outbound.request = [0] ∧
    (afterRespent.replicas 0).process.requests.requests.map (·.status) = [none, some 401] :=
  ⟨by decide +kernel, by decide +kernel⟩

theorem forwarded_clients_authorized_respent :
    (afterRespent.replicas 0).process.dispatched.length = 1 ∧
    ∀ d ∈ (afterRespent.replicas 0).process.dispatched,
      ∃ client, (afterRespent.replicas 0).process.clients[d.request]? = some client ∧
        Authorized AccessToken.testPlatform testConfig client (afterRespent.redemption.calls (callOf 0 d.request)) := by
  have hLength := congrArg List.length respent_forwards.1
  rw [List.length_map] at hLength
  have hReachable : testService.Reachable afterRespent := System.reachable_after testService respent
  refine ⟨hLength, fun d hd => ?_⟩
  obtain ⟨client, hClient, -, hAuthorized, -⟩ := (forwarded_clients_authorized hReachable 0).2 d hd
  exact ⟨client, hClient, hAuthorized⟩

/-! ## One forwarded request for one token -/

variable (R platform config) (encoding : Nat → Nat → Bytes)

/-- Clients present their signatures in full, and the issuer has one encoding for a key. -/
def Canonical (s : Deployment R) : Event R → Prop
  | .arrive _ client _ => ∀ token, readToken platform (presentedBy config client) = some token →
      AccessToken.FullLength token
  | .issuer event => AccessToken.Canonical platform R encoding s.redemption (.env event)
  | _ => True

variable {platform config R encoding}

variable (platform config) in
/-- The token that a forwarded request was let through for, and its signature under a key of the issuer. -/
structure PaidBy (s : Deployment R) (p : Nat) (d : Outbound) (entry : IssuerKeyCache.Entry) (signature : Bytes) : Prop
    where
  presented : ∃ client token, (s.replicas p).process.clients[d.request]? = some client ∧
    readToken platform (presentedBy config client) = some token ∧
    verified platform entry.publicKey token = some signature
  outcome : (s.redemption.calls (callOf p d.request)).outcome? = some (.admitted entry signature)

theorem Kept.paid (hMode : config.CLIENT_AUTH_MODE = str "token") {p : Nat}
    (h : Kept platform config (s.callsOf p) (s.replicas p).process) {d : Outbound}
    (hd : d ∈ (s.replicas p).process.dispatched) : ∃ entry signature, PaidBy platform config s p d entry signature := by
  obtain ⟨client, hClient, -, hAuthorized⟩ := h.forwarded hd
  rcases hAuthorized with hOff | ⟨hSecret, -⟩ | ⟨-, token, entry, signature, hRead, hVerified, hOutcome⟩
  · rw [hMode] at hOff
    exact absurd hOff (by decide)
  · rw [hMode] at hSecret
    exact absurd hSecret (by decide)
  · exact ⟨entry, signature, ⟨client, token, hClient, hRead, hVerified⟩, hOutcome⟩

def within (config : Config) (ipBucket : Str) (since : Int) (a : Answer) : Bool :=
  a.key = ipBucket ∧ since ≤ a.now ∧ a.now < since + config.RATE_WINDOW_MS

/-- The request of `d` was admitted under this key in the window from `since` on. -/
def admittedWithin (config : Config) (r : Replica) (ipBucket : Str) (since : Int) (d : Outbound) : Bool :=
  r.admissions[d.request]?.any (within config ipBucket since)

theorem countP_range (l : List Answer) (p : Answer → Bool) :
    ((List.range l.length).countP fun i => l[i]?.any p) = l.countP p := by
  induction l using List.reverseRecOn with
  | nil => rfl
  | append_singleton l a ih =>
    have hBefore : ((List.range l.length).countP fun i => (l ++ [a])[i]?.any p) = l.countP p := by
      rw [← ih]
      apply List.countP_congr
      intro i hi
      rw [List.getElem?_append_left (List.mem_range.mp hi)]
    rw [List.length_append, List.length_singleton, List.range_succ, List.countP_append, hBefore, List.countP_append]
    simp

/-- Distinct requests were admitted under distinct verdicts. -/
theorem countP_requests_le (l : List Answer) (p : Answer → Bool) {requests : List Nat} (h : requests.Nodup) :
    (requests.countP fun i => l[i]?.any p) ≤ l.countP p := by
  have hSubset : (requests.filter fun i => l[i]?.any p) ⊆ (List.range l.length).filter fun i => l[i]?.any p := by
    intro i hi
    obtain ⟨-, hAny⟩ := List.mem_filter.mp hi
    obtain ⟨a, ha, -⟩ := (Option.any_eq_true ..).mp hAny
    exact List.mem_filter.mpr ⟨List.mem_range.mpr (List.getElem?_eq_some_iff.mp ha).1, hAny⟩
  calc (requests.countP fun i => l[i]?.any p)
      = (requests.filter fun i => l[i]?.any p).length := List.countP_eq_length_filter
    _ ≤ ((List.range l.length).filter fun i => l[i]?.any p).length :=
        ((h.filter _).subperm hSubset).length_le
    _ = l.countP p := by rw [← List.countP_eq_length_filter, countP_range]

theorem Limited.admissions_le {r : Replica} (h : Limited config r) (p : Answer → Bool) :
    r.admissions.countP p ≤ r.verdicts.countP fun a => a.limited = false ∧ p a = true := by
  calc r.admissions.countP p ≤ (r.verdicts.filter fun a => a.limited = false).countP p := h.passed.countP_le
    _ = r.verdicts.countP fun a => a.limited = false ∧ p a = true := by
        rw [List.countP_filter]
        apply List.countP_congr
        intro a _
        simp [and_comm]

theorem Limited.within_le {r : Replica} (h : Limited config r) (hRpm : 1 ≤ config.rate.rateLimitRpm)
    (hWindow : 1 ≤ config.RATE_WINDOW_MS) (hTimes : (r.verdicts.map Answer.now).IsChain (· ≤ ·)) {ipBucket : Str}
    (hStays : ∀ a ∈ r.verdicts, a.evicted ≠ some ipBucket) (since : Int) :
    r.admissions.countP (within config ipBucket since) ≤ 2 * config.rate.window.limit := by
  have hLog : (rateLimitedAll config.rate .empty (r.verdicts.map fun a => (a.key, a.now))).1 = r.verdicts := by
    rw [h.table]
  have hSorted : ((r.verdicts.map fun a => (a.key, a.now)).map Prod.snd).IsChain (· ≤ ·) := by
    rw [List.map_map]
    exact hTimes
  have hPassed := RateLimited.passed_in_interval hRpm hWindow hSorted (hLog.symm ▸ hStays) since
  rw [hLog] at hPassed
  refine (h.admissions_le _).trans (le_trans (le_of_eq ?_) hPassed)
  apply List.countP_congr
  intro a _
  simp [within, Config.rate, and_left_comm]

/-- In any time as long as a window, a process lets at most twice the limit of a client's requests through to the
gateway, as long as its clock never went back and the client's bucket was not evicted. -/
theorem forwarded_within_rate (hRpm : 1 ≤ config.rate.rateLimitRpm) (hWindow : 1 ≤ config.RATE_WINDOW_MS)
    (h : (service platform config R).Reachable s) (p : Nat)
    (hTimes : ((s.replicas p).verdicts.map Answer.now).IsChain (· ≤ ·)) {ipBucket : Str}
    (hStays : ∀ a ∈ (s.replicas p).verdicts, a.evicted ≠ some ipBucket) (since : Int) :
    (((s.replicas p).process.dispatched.countP (admittedWithin config (s.replicas p) ipBucket since) : Nat) : Int) ≤
      2 * config.rate.rateLimitRpm ∧
    ∀ d ∈ (s.replicas p).process.dispatched, ∃ client a, (s.replicas p).process.clients[d.request]? = some client ∧
      (s.replicas p).admissions[d.request]? = some a ∧ a.key = clientIpKey config.dispatch client := by
  obtain ⟨hKept, hLimited⟩ := service_invariant h p
  have hInv := Dispatch.relay_dispatch_invariant hKept.reachable
  constructor
  · have hCount : (s.replicas p).process.dispatched.countP (admittedWithin config (s.replicas p) ipBucket since) ≤
        2 * config.rate.window.limit := by
      calc _ = ((s.replicas p).process.dispatched.map Outbound.request).countP
            fun i => (s.replicas p).admissions[i]?.any (within config ipBucket since) := by
            rw [List.countP_map]
            rfl
        _ ≤ (s.replicas p).admissions.countP (within config ipBucket since) :=
            countP_requests_le _ _ hInv.requests_nodup
        _ ≤ _ := hLimited.within_le hRpm hWindow hTimes hStays since
    have hLimit : (config.rate.window.limit : Int) = config.rate.rateLimitRpm := Int.toNat_of_nonneg (by omega)
    omega
  · intro d hd
    obtain ⟨client, hClient, -, -⟩ := hKept.forwarded hd
    have hOwned := congrArg (·[d.request]?) hLimited.owned
    simp only [List.getElem?_map, hClient, Option.map_some] at hOwned
    obtain ⟨a, ha, hKey⟩ := Option.map_eq_some_iff.mp hOwned
    exact ⟨client, a, hClient, ha, hKey⟩

theorem forwarded_within_rate_respent :
    (afterRespent.replicas 0).verdicts.map Answer.limited = [false, false] ∧
    (((afterRespent.replicas 0).process.dispatched.countP
      (admittedWithin testConfig (afterRespent.replicas 0) (str "192.0.2.1") 1000) : Nat) : Int) ≤ 2 * 120 := by
  have hReachable : testService.Reachable afterRespent := System.reachable_after testService respent
  have hTimes : ((afterRespent.replicas 0).verdicts.map Answer.now).IsChain (· ≤ ·) := by decide +kernel
  have hStays : ∀ a ∈ (afterRespent.replicas 0).verdicts, a.evicted ≠ some (str "192.0.2.1") := by decide +kernel
  exact ⟨by decide +kernel, (forwarded_within_rate (by decide) (by decide) hReachable 0 hTimes hStays 1000).1⟩

end

end Columbia.Relay.Service
