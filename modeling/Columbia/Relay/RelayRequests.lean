import Columbia.Js.Value
import Columbia.Lib.OrderedMap
import Columbia.Lib.Transition
import Mathlib.Algebra.BigOperators.Ring.Finset

/-! # `POST /relay` requests of one relay process

A state holds the process-wide counters and, for every admitted request, the variables its handler closes
over. Each listener and each continuation of the handler is one step, in any order. The two `destroyed`
flags belong to the sockets and may turn true at any time.
-/
namespace Columbia.Relay.RelayRequests
open Columbia.Js Columbia.Lib
set_option autoImplicit false

structure Config where
  maxInflight : Nat
  rateLimitRpm : Int
  maxBody : Nat

/-- `Math.min(RATE_LIMIT_RPM > 0 ? RATE_LIMIT_RPM : Infinity, gwAgent.maxSockets - 2)` with 128 sockets. -/
def Config.maxClientInflight (cfg : Config) : Int := if 0 < cfg.rateLimitRpm then min cfg.rateLimitRpm 126 else 126

inductive Authorization
  | granted
  | denied
  | threw
  deriving DecidableEq

/-- What the `data`, `end` and `aborted` listeners close over. -/
structure Body where
  chunks : List Bytes
  received : Nat
  aborted : Bool
  ended : Bool
  deriving DecidableEq

/-- `body` is there once the body listeners are registered; `finished` and `closed` record the response's events. -/
structure Request where
  ipBucket : Str
  slotReleased : Bool
  authPending : Bool
  releaseRequested : Bool
  reqDestroyed : Bool
  resDestroyed : Bool
  finished : Bool
  closed : Bool
  status : Option Nat
  body : Option Body
  forwarded : List Bytes
  deriving DecidableEq

/-- A count is `none` where the source would hold `NaN`. -/
structure Server where
  inflight : Int
  clientInflight : OrderedMap Str (Option Int)
  requests : List Request
  releases : List Nat
  refusals : List Nat
  draining : Bool
  httpClosed : Bool
  exitCode : Option Nat

def Server.empty : Server := ⟨0, .empty, [], [], [], false, false, none⟩

def admitted (ipBucket : Str) : Request :=
  ⟨ipBucket, false, true, false, false, false, false, false, none, none, []⟩

def finishDrain (s : Server) : Server :=
  if s.draining ∧ s.httpClosed ∧ s.inflight = 0 then { s with exitCode := some 0 } else s

def beginShutdown (s : Server) : Server := if s.draining then s else { s with draining := true }

def giveBack (clientInflight : OrderedMap Str (Option Int)) (ipBucket : Str) : OrderedMap Str (Option Int) :=
  let remaining := (clientInflight.get? ipBucket).join.map (· - 1)
  if remaining = some 0 then clientInflight.delete ipBucket else clientInflight.set ipBucket remaining

/-- `releaseSlot` of request `i`, whose variables are `r` when it is called. -/
def releaseSlot (s : Server) (i : Nat) (r : Request) : Server :=
  if r.authPending then { s with requests := s.requests.set i { r with releaseRequested := true } }
  else if r.slotReleased then { s with requests := s.requests.set i r }
  else finishDrain { s with
    inflight := s.inflight - 1
    clientInflight := giveBack s.clientInflight r.ipBucket
    requests := s.requests.set i { r with slotReleased := true }
    releases := s.releases ++ [i] }

def keep (s : Server) (i : Nat) (r : Request) : Server := { s with requests := s.requests.set i r }

/-- The handler up to `await clientAuthorized`; `limited` is the verdict of `rateLimited`. -/
def arrive (cfg : Config) (s : Server) (ipBucket : Str) (limited : Bool) : Server :=
  let clientRequests := (s.clientInflight.get? ipBucket).join.getD 0
  if s.draining then { s with refusals := s.refusals ++ [503] }
  else if limited then { s with refusals := s.refusals ++ [429] }
  else if (cfg.maxInflight : Int) ≤ s.inflight ∨ cfg.maxClientInflight ≤ clientRequests then
    { s with refusals := s.refusals ++ [429] }
  else { s with
    inflight := s.inflight + 1
    clientInflight := s.clientInflight.set ipBucket (some (clientRequests + 1))
    requests := s.requests ++ [admitted ipBucket] }

/-- The variables of a request once its authorization has settled, before anything is released. -/
def settledRequest (r : Request) (outcome : Authorization) : Request :=
  { r with
    authPending := false
    status :=
      match outcome with
      | .granted => r.status
      | .denied => if r.resDestroyed then r.status else some 401
      | .threw => if r.resDestroyed then r.status else some 503
    body := if outcome = .granted ∧ ¬(r.reqDestroyed ∨ r.resDestroyed) then some ⟨[], 0, false, false⟩ else r.body }

/-- The handler from the settled authorization on. Only the `finally` block can release the slot here: the
early return of a destroyed request releases a second time, which does nothing. -/
def authSettles (s : Server) (i : Nat) (r : Request) (outcome : Authorization) : Server :=
  if r.releaseRequested ∨ r.reqDestroyed ∨ r.resDestroyed then releaseSlot s i (settledRequest r outcome)
  else keep s i (settledRequest r outcome)

def onData (cfg : Config) (s : Server) (i : Nat) (r : Request) (body : Body) (chunk : Bytes) : Server :=
  if body.aborted then s
  else if cfg.maxBody < body.received + chunk.length then
    releaseSlot s i { r with
      body := some { body with received := body.received + chunk.length, aborted := true }
      status := some 413
      reqDestroyed := true }
  else keep s i { r with
    body := some { body with chunks := body.chunks ++ [chunk], received := body.received + chunk.length } }

def onEnd (s : Server) (i : Nat) (r : Request) (body : Body) : Server :=
  let ended := { r with body := some { body with ended := true } }
  if body.aborted ∨ r.resDestroyed then keep s i ended
  else keep s i { ended with forwarded := r.forwarded ++ [body.chunks.flatten] }

inductive RequestEvent
  | authSettles (outcome : Authorization)
  | data (chunk : Bytes)
  | ended
  | aborted
  | finish
  | close
  | destroyRequest
  | destroyResponse

/-- Events that have no listener yet do nothing; a promise settles once and a stream ends once. -/
def onRequest (cfg : Config) (s : Server) (i : Nat) (r : Request) : RequestEvent → Server
  | .authSettles outcome => if r.authPending then authSettles s i r outcome else s
  | .data chunk =>
    match r.body with
    | some body => if body.ended then s else onData cfg s i r body chunk
    | none => s
  | .ended =>
    match r.body with
    | some body => if body.ended then s else onEnd s i r body
    | none => s
  | .aborted =>
    match r.body with
    | some body => releaseSlot s i { r with body := some { body with aborted := true } }
    | none => s
  | .finish => releaseSlot s i { r with finished := true }
  | .close => releaseSlot s i { r with closed := true }
  | .destroyRequest => keep s i { r with reqDestroyed := true }
  | .destroyResponse => keep s i { r with resDestroyed := true }

inductive Event
  | arrive (ipBucket : Str) (limited : Bool)
  | request (i : Nat) (event : RequestEvent)
  | beginShutdown
  | httpClosed
  | shutdownTimer

/-- Nothing happens after the process has exited. -/
def next (cfg : Config) (s : Server) (event : Event) : Option Server :=
  if s.exitCode.isSome then none
  else
    match event with
    | .arrive ipBucket limited => some (arrive cfg s ipBucket limited)
    | .request i event => (s.requests[i]?).map fun r => onRequest cfg s i r event
    | .beginShutdown => some (beginShutdown s)
    | .httpClosed => if s.draining then some (finishDrain { s with httpClosed := true }) else none
    | .shutdownTimer => if s.draining then some { s with exitCode := some 1 } else none

def relay (cfg : Config) : System Server Event := ⟨.empty, next cfg⟩

/-- What an event does in a process that has not exited. -/
inductive Step (cfg : Config) (s : Server) : Event → Server → Prop
  | arrive (ipBucket : Str) (limited : Bool) : Step cfg s (.arrive ipBucket limited) (arrive cfg s ipBucket limited)
  | request (i : Nat) (event : RequestEvent) (r : Request) (hr : s.requests[i]? = some r) :
    Step cfg s (.request i event) (onRequest cfg s i r event)
  | beginShutdown : Step cfg s .beginShutdown (beginShutdown s)
  | httpClosed : Step cfg s .httpClosed (finishDrain { s with httpClosed := true })
  | shutdownTimer : Step cfg s .shutdownTimer { s with exitCode := some 1 }

theorem next_step {cfg : Config} {s t : Server} {event : Event} (hNext : next cfg s event = some t) :
    s.exitCode = none ∧ Step cfg s event t := by
  unfold next at hNext
  split at hNext
  · cases hNext
  rename_i hRunning
  refine ⟨by simpa using hRunning, ?_⟩
  cases event with
  | arrive ipBucket limited =>
    cases hNext
    exact .arrive ipBucket limited
  | request i event =>
    obtain ⟨r, hr, rfl⟩ := Option.map_eq_some_iff.mp hNext
    exact .request i event r hr
  | beginShutdown =>
    cases hNext
    exact .beginShutdown
  | httpClosed =>
    simp only at hNext
    split at hNext <;> cases hNext
    exact .httpClosed
  | shutdownTimer =>
    simp only at hNext
    split at hNext <;> cases hNext
    exact .shutdownTimer

/-! ## Capacity accounting -/

def outstanding (r : Request) : Bool := !r.slotReleased

def clientCount (requests : List Request) (ipBucket : Str) : Nat :=
  requests.countP fun r => outstanding r && r.ipBucket = ipBucket

structure RequestInv (releases : List Nat) (i : Nat) (r : Request) : Prop where
  logged : r.slotReleased = true ↔ i ∈ releases
  settled : r.slotReleased = true → r.authPending = false
  listening : r.body.isSome → r.authPending = false

/-- An answered request has its slot released, or waits for its authorization to do so. -/
def Answered (r : Request) : Prop :=
  r.finished = true ∨ r.closed = true → r.slotReleased = true ∨ r.authPending = true ∧ r.releaseRequested = true

structure Inv (cfg : Config) (s : Server) : Prop where
  total : s.inflight = (s.requests.countP outstanding : Nat)
  clients : ∀ ip, s.clientInflight.get? ip =
    if clientCount s.requests ip = 0 then none else some (some (clientCount s.requests ip : Int))
  capacity : s.requests.countP outstanding ≤ cfg.maxInflight
  clientCapacity : ∀ ip, (clientCount s.requests ip : Int) ≤ cfg.maxClientInflight
  requests : ∀ i r, s.requests[i]? = some r → RequestInv s.releases i r ∧ Answered r
  unique : s.releases.Nodup
  known : ∀ i ∈ s.releases, i < s.requests.length
  exited : s.exitCode = some 0 → s.inflight = 0

theorem countP_set_of_getElem? {α : Type} {p : α → Bool} {l : List α} {i : Nat} {a b : α} (h : l[i]? = some a) :
    (l.set i b).countP p + (if p a then 1 else 0) = l.countP p + if p b then 1 else 0 := by
  obtain ⟨hi, rfl⟩ := List.getElem?_eq_some_iff.mp h
  have hPos : p l[i] = true → 0 < l.countP p := fun hp => List.countP_pos_iff.mpr ⟨_, List.getElem_mem hi, hp⟩
  rw [List.countP_set hi]
  split
  · have := hPos ‹_›
    omega
  · omega

theorem countP_set_same {α : Type} {p : α → Bool} {l : List α} {i : Nat} {a b : α} (h : l[i]? = some a)
    (hp : p b = p a) : (l.set i b).countP p = l.countP p := by
  have hCount := countP_set_of_getElem? (p := p) (b := b) h
  rw [hp] at hCount
  omega

theorem countP_set_drop {α : Type} {p : α → Bool} {l : List α} {i : Nat} {a b : α} (h : l[i]? = some a)
    (ha : p a = true) (hb : p b = false) : (l.set i b).countP p + 1 = l.countP p := by
  have hCount := countP_set_of_getElem? (p := p) (b := b) h
  rw [ha, hb] at hCount
  simpa using hCount

theorem requests_set {cfg : Config} {s : Server} {i : Nat} {r : Request} {releases : List Nat} (h : Inv cfg s)
    (hReleases : ∀ j q, j ≠ i → RequestInv s.releases j q → RequestInv releases j q)
    (hInv : RequestInv releases i r) (hAnswered : Answered r) :
    ∀ j q, (s.requests.set i r)[j]? = some q → RequestInv releases j q ∧ Answered q := by
  intro j q hq
  rw [List.getElem?_set] at hq
  split at hq
  · split at hq <;> cases hq
    subst ‹i = j›
    exact ⟨hInv, hAnswered⟩
  · rename_i hij
    exact ⟨hReleases j q (Ne.symm hij) (h.requests j q hq).1, (h.requests j q hq).2⟩

theorem Inv.keep {cfg : Config} {s : Server} {i : Nat} {r r' : Request} (h : Inv cfg s) (hr : s.requests[i]? = some r)
    (hIp : r'.ipBucket = r.ipBucket) (hSlot : r'.slotReleased = r.slotReleased)
    (hInv : RequestInv s.releases i r') (hAnswered : Answered r') : Inv cfg (keep s i r') := by
  have hTotal : (s.requests.set i r').countP outstanding = s.requests.countP outstanding :=
    countP_set_same hr (by rw [outstanding, hSlot, outstanding])
  have hClient : ∀ ip, clientCount (s.requests.set i r') ip = clientCount s.requests ip := fun ip =>
    countP_set_same hr (by rw [outstanding, hSlot, hIp, outstanding])
  refine ⟨?_, fun ip => ?_, ?_, fun ip => ?_, ?_, h.unique, ?_, h.exited⟩
  · rw [RelayRequests.keep, hTotal]
    exact h.total
  · rw [RelayRequests.keep, hClient]
    exact h.clients ip
  · rw [RelayRequests.keep, hTotal]
    exact h.capacity
  · rw [RelayRequests.keep, hClient]
    exact h.clientCapacity ip
  · exact requests_set h (fun _ _ _ hq => hq) hInv hAnswered
  · simpa [RelayRequests.keep] using h.known

theorem giveBack_get? {clientInflight : OrderedMap Str (Option Int)} {ip : Str} {n : Nat}
    (h : clientInflight.get? ip = some (some ((n + 1 : Nat) : Int))) (j : Str) :
    (giveBack clientInflight ip).get? j =
      if j = ip then if n = 0 then none else some (some (n : Int)) else clientInflight.get? j := by
  have hRemaining : (clientInflight.get? ip).join.map (· - 1) = some (n : Int) := by
    rw [h]
    simp
  simp only [giveBack, hRemaining]
  by_cases hn : n = 0
  · simp [hn, OrderedMap.get?_delete]
  · rw [if_neg (by simpa using hn), OrderedMap.get?_set, if_neg hn]

theorem Inv.finishDrain {cfg : Config} {s : Server} (h : Inv cfg s) : Inv cfg (finishDrain s) := by
  unfold RelayRequests.finishDrain
  split
  · exact ⟨h.total, h.clients, h.capacity, h.clientCapacity, h.requests, h.unique, h.known,
      fun _ => by simp only; omega⟩
  · exact h

theorem clientCount_released {requests : List Request} {i : Nat} {r r' : Request} (hr : requests[i]? = some r)
    (hIp : r'.ipBucket = r.ipBucket) (hOut : outstanding r = true) (ip : Str) :
    clientCount (requests.set i { r' with slotReleased := true }) ip + (if ip = r'.ipBucket then 1 else 0) =
      clientCount requests ip := by
  split
  · rename_i hip
    exact countP_set_drop hr (by simp [hOut, hip, hIp]) rfl
  · rename_i hip
    refine countP_set_same hr ?_
    simp [hIp ▸ Ne.symm hip, outstanding]

/-- The slot of an outstanding request that is not pending is given back. -/
theorem Inv.release {cfg : Config} {s : Server} {i : Nat} {r r' : Request} (h : Inv cfg s)
    (hRunning : s.exitCode = none) (hr : s.requests[i]? = some r) (hIp : r'.ipBucket = r.ipBucket)
    (hOut : outstanding r = true) (hNew : i ∉ s.releases) (hSettled : r'.authPending = false)
    (hInv : RequestInv s.releases i r') :
    Inv cfg { s with
      inflight := s.inflight - 1
      clientInflight := giveBack s.clientInflight r'.ipBucket
      requests := s.requests.set i { r' with slotReleased := true }
      releases := s.releases ++ [i] } := by
  have hi : i < s.requests.length := (List.getElem?_eq_some_iff.mp hr).1
  have hTotal : (s.requests.set i { r' with slotReleased := true }).countP outstanding + 1 =
      s.requests.countP outstanding := countP_set_drop hr hOut rfl
  have hClient := clientCount_released hr hIp hOut
  constructor
  · have := h.total
    simp only
    omega
  · intro ip
    have hOwn := hClient r'.ipBucket
    have hAt := hClient ip
    rw [if_pos rfl] at hOwn
    rw [giveBack_get? (n := clientCount (s.requests.set i { r' with slotReleased := true }) r'.ipBucket)]
    · split
      · rename_i hip
        rw [hip]
      · rename_i hip
        rw [if_neg hip] at hAt
        rw [h.clients ip, ← hAt]
        rfl
    · rw [h.clients r'.ipBucket, if_neg (by omega), hOwn]
  · have := h.capacity
    simp only
    omega
  · intro ip
    have := h.clientCapacity ip
    have := hClient ip
    simp only
    omega
  · refine requests_set h (fun j q hj hq => ?_) ?_ fun _ => .inl rfl
    · refine ⟨hq.logged.trans ?_, hq.settled, hq.listening⟩
      simp [hj]
    · exact ⟨⟨fun _ => List.mem_append_right _ List.mem_cons_self, fun _ => rfl⟩,
        fun _ => hSettled, hInv.listening⟩
  · rw [List.nodup_append]
    refine ⟨h.unique, List.nodup_singleton i, fun a ha b hb hab => hNew ?_⟩
    rw [← List.mem_singleton.mp hb, ← hab]
    exact ha
  · intro j hj
    rw [List.length_set]
    rcases List.mem_append.mp hj with hj | hj
    · exact h.known j hj
    · rw [List.mem_singleton.mp hj]
      exact hi
  · intro hExited
    cases hRunning.symm.trans hExited

theorem Inv.releaseSlot {cfg : Config} {s : Server} {i : Nat} {r r' : Request} (h : Inv cfg s)
    (hRunning : s.exitCode = none) (hr : s.requests[i]? = some r) (hIp : r'.ipBucket = r.ipBucket)
    (hSlot : r'.slotReleased = r.slotReleased) (hInv : RequestInv s.releases i r') :
    Inv cfg (releaseSlot s i r') := by
  unfold RelayRequests.releaseSlot
  split
  · rename_i hPending
    exact h.keep hr hIp hSlot ⟨hInv.logged, hInv.settled, hInv.listening⟩ fun _ => .inr ⟨hPending, rfl⟩
  rename_i hSettled
  split
  · rename_i hReleased
    exact h.keep hr hIp hSlot hInv fun _ => .inl hReleased
  rename_i hOwned
  refine Inv.finishDrain (h.release hRunning hr hIp ?_ (fun hi => hOwned (hInv.logged.mpr hi)) (by simpa using hSettled)
    hInv)
  simpa [outstanding, ← hSlot] using hOwned

theorem clientCount_admitted (requests : List Request) (ip j : Str) :
    clientCount (requests ++ [admitted ip]) j = clientCount requests j + if j = ip then 1 else 0 := by
  rw [clientCount, List.countP_append, List.countP_singleton]
  by_cases hj : j = ip
  · simp [clientCount, outstanding, admitted, hj]
  · simp [clientCount, admitted, hj, Ne.symm hj]

theorem Inv.clientRequests {cfg : Config} {s : Server} (h : Inv cfg s) (ip : Str) :
    (s.clientInflight.get? ip).join.getD 0 = (clientCount s.requests ip : Int) := by
  rw [h.clients ip]
  split
  · rename_i hZero
    simp [hZero]
  · rfl

/-- A slot is free, for the process and for the client. -/
theorem Inv.admit {cfg : Config} {s : Server} (h : Inv cfg s) (hRunning : s.exitCode = none) {ip : Str}
    (hFree : s.inflight < cfg.maxInflight) (hClientFree : (clientCount s.requests ip : Int) < cfg.maxClientInflight) :
    Inv cfg { s with
      inflight := s.inflight + 1
      clientInflight := s.clientInflight.set ip (some (clientCount s.requests ip + 1))
      requests := s.requests ++ [admitted ip] } := by
  have hTotal : (s.requests ++ [admitted ip]).countP outstanding = s.requests.countP outstanding + 1 := by
    rw [List.countP_append]
    rfl
  have hBelow := h.total
  refine ⟨?_, fun j => ?_, ?_, fun j => ?_, fun i r hr => ?_, h.unique, fun i hi => ?_, ?_⟩
  · simp only [hTotal]
    omega
  · simp only [OrderedMap.get?_set, clientCount_admitted]
    split
    · rename_i hj
      simp [hj]
    · simpa using h.clients j
  · simp only [hTotal]
    omega
  · have hOld := h.clientCapacity j
    simp only [clientCount_admitted]
    split
    · rename_i hj
      subst hj
      omega
    · simpa using hOld
  · rw [List.getElem?_append] at hr
    split at hr
    · exact h.requests i r hr
    · rename_i hi
      have hAdmitted := List.mem_singleton.mp (List.mem_of_getElem? hr)
      subst hAdmitted
      refine ⟨?_, ?_⟩
      · constructor
        · exact iff_of_false Bool.false_ne_true fun hMem => hi (h.known i hMem)
        · intro hReleased
          cases hReleased
        · intro hBody
          cases hBody
      · rintro (hFinished | hClosed)
        · cases hFinished
        · cases hClosed
  · rw [List.length_append]
    have := h.known i hi
    omega
  · intro hExited
    cases hRunning.symm.trans hExited

theorem Inv.arrive {cfg : Config} {s : Server} (h : Inv cfg s) (hRunning : s.exitCode = none) (ip : Str)
    (limited : Bool) : Inv cfg (arrive cfg s ip limited) := by
  have hRefused : ∀ refusals, Inv cfg { s with refusals := refusals } := fun _ =>
    ⟨h.total, h.clients, h.capacity, h.clientCapacity, h.requests, h.unique, h.known, h.exited⟩
  unfold RelayRequests.arrive
  simp only [h.clientRequests]
  split
  · exact hRefused _
  split
  · exact hRefused _
  split
  · exact hRefused _
  · rename_i hFree
    exact h.admit hRunning (by omega) (by omega)

theorem Inv.onRequest {cfg : Config} {s : Server} {i : Nat} {r : Request} (h : Inv cfg s)
    (hRunning : s.exitCode = none) (hr : s.requests[i]? = some r) (event : RequestEvent) :
    Inv cfg (onRequest cfg s i r event) := by
  obtain ⟨⟨hLogged, hSettled, hListening⟩, hAnswered⟩ := h.requests i r hr
  have hKept : ∀ r' : Request, r'.slotReleased = r.slotReleased → r'.authPending = r.authPending →
      (r'.body.isSome → r'.authPending = false) → RequestInv s.releases i r' := by
    intro r' hSlot hPending hBody
    exact ⟨hSlot ▸ hLogged, hSlot ▸ hPending ▸ hSettled, hBody⟩
  cases event with
  | authSettles outcome =>
    simp only [RelayRequests.onRequest]
    split
    · rename_i hPending
      have hInv : RequestInv s.releases i (settledRequest r outcome) := ⟨hLogged, fun _ => rfl, fun _ => rfl⟩
      unfold authSettles
      split
      · exact h.releaseSlot hRunning hr rfl rfl hInv
      · rename_i hQuiet
        refine h.keep hr rfl rfl hInv fun hDone => ?_
        rcases hAnswered hDone with hReleased | ⟨-, hRequested⟩
        · exact .inl hReleased
        · exact absurd (.inl hRequested) hQuiet
    · exact h
  | data chunk =>
    simp only [RelayRequests.onRequest]
    split
    · rename_i body hBody
      have hOpen := hListening (by rw [hBody]; rfl)
      split
      · exact h
      · unfold onData
        split
        · exact h
        split
        · exact h.releaseSlot hRunning hr rfl rfl (hKept _ rfl rfl fun _ => hOpen)
        · exact h.keep hr rfl rfl (hKept _ rfl rfl fun _ => hOpen) hAnswered
    · exact h
  | ended =>
    simp only [RelayRequests.onRequest]
    split
    · rename_i body hBody
      have hOpen := hListening (by rw [hBody]; rfl)
      split
      · exact h
      · unfold onEnd
        split
        · exact h.keep hr rfl rfl (hKept _ rfl rfl fun _ => hOpen) hAnswered
        · exact h.keep hr rfl rfl (hKept _ rfl rfl fun _ => hOpen) hAnswered
    · exact h
  | aborted =>
    simp only [RelayRequests.onRequest]
    split
    · rename_i body hBody
      have hOpen := hListening (by rw [hBody]; rfl)
      exact h.releaseSlot hRunning hr rfl rfl (hKept _ rfl rfl fun _ => hOpen)
    · exact h
  | finish => exact h.releaseSlot hRunning hr rfl rfl (hKept _ rfl rfl hListening)
  | close => exact h.releaseSlot hRunning hr rfl rfl (hKept _ rfl rfl hListening)
  | destroyRequest => exact h.keep hr rfl rfl (hKept _ rfl rfl hListening) hAnswered
  | destroyResponse => exact h.keep hr rfl rfl (hKept _ rfl rfl hListening) hAnswered

theorem Inv.next {cfg : Config} {s t : Server} {event : Event} (h : Inv cfg s) (hNext : next cfg s event = some t) :
    Inv cfg t := by
  obtain ⟨hRunning, hStep⟩ := next_step hNext
  have hFlags : ∀ draining httpClosed, Inv cfg { s with draining := draining, httpClosed := httpClosed } := fun _ _ =>
    ⟨h.total, h.clients, h.capacity, h.clientCapacity, h.requests, h.unique, h.known, h.exited⟩
  cases hStep with
  | arrive ip limited => exact h.arrive hRunning ip limited
  | request i event r hr => exact h.onRequest hRunning hr event
  | beginShutdown =>
    unfold beginShutdown
    split
    · exact h
    · exact hFlags _ _
  | httpClosed => exact (hFlags _ _).finishDrain
  | shutdownTimer => exact ⟨h.total, h.clients, h.capacity, h.clientCapacity, h.requests, h.unique, h.known, nofun⟩

theorem inv_empty (cfg : Config) : Inv cfg .empty := by
  have hCap : 0 ≤ cfg.maxClientInflight := by
    unfold Config.maxClientInflight
    split <;> omega
  refine ⟨rfl, fun _ => rfl, Nat.zero_le _, fun _ => hCap, fun i r hr => ?_, List.nodup_nil, nofun, fun _ => rfl⟩
  simp [Server.empty] at hr

theorem relay_invariant {cfg : Config} {s : Server} (h : (relay cfg).Reachable s) : Inv cfg s :=
  System.Reachable.invariant (Inv cfg) (inv_empty cfg) (fun _ _ _ hInv hNext => hInv.next hNext) h

theorem clientCount_eq (requests : List Request) (ip : Str) :
    clientCount requests ip = (requests.filter outstanding).countP fun r => r.ipBucket = ip := by
  rw [List.countP_filter, clientCount]
  congr 1
  funext r
  exact Bool.and_comm _ _

theorem Inv.entry {cfg : Config} {s : Server} (h : Inv cfg s) {e : Str × Option Int}
    (he : e ∈ s.clientInflight.entries) :
    e.2 = some (clientCount s.requests e.1 : Int) ∧ 1 ≤ clientCount s.requests e.1 := by
  have hGet : s.clientInflight.get? e.1 = some e.2 := OrderedMap.get?_eq_some_iff.mpr he
  rw [h.clients e.1] at hGet
  split at hGet
  · cases hGet
  · exact ⟨(Option.some.inj hGet).symm, by omega⟩

/-- Every outstanding request is counted by exactly one client's entry. -/
theorem Inv.sum_clients {cfg : Config} {s : Server} (h : Inv cfg s) :
    (s.clientInflight.entries.map fun e => e.2.getD 0).sum = s.inflight := by
  have hValues : s.clientInflight.entries.map (fun e => e.2.getD 0) =
      (s.clientInflight.keys.map fun ip => clientCount s.requests ip).map Nat.cast := by
    rw [OrderedMap.keys, List.map_map, List.map_map]
    refine List.map_congr_left fun e he => ?_
    obtain ⟨hCount, -⟩ := h.entry he
    rw [hCount]
    rfl
  have hAll : (s.requests.filter outstanding).countP (fun r => r.ipBucket ∈ s.clientInflight.keys) =
      s.requests.countP outstanding := by
    rw [List.countP_eq_length_filter (l := s.requests), List.countP_eq_length]
    intro r hr
    have hPos : 0 < clientCount s.requests r.ipBucket := by
      rw [clientCount_eq]
      exact List.countP_pos_iff.mpr ⟨r, hr, by simp⟩
    by_contra hMissing
    have hNone := OrderedMap.get?_eq_none_iff.mpr (by simpa using hMissing)
    rw [h.clients, if_neg hPos.ne'] at hNone
    cases hNone
  rw [hValues, ← Nat.cast_list_sum, h.total, ← hAll]
  simp only [clientCount_eq]
  have hKeys : s.clientInflight.keys.Nodup := s.clientInflight.nodup
  rw [OrderedMap.sum_countP_keys _ _ hKeys]
  exact congrArg Nat.cast (List.countP_congr fun r _ => by simp)

/-- Capacity accounting in every reachable state of the relay. -/
theorem relay_capacity_accounting {cfg : Config} {s : Server} (h : (relay cfg).Reachable s) :
    s.inflight = (s.requests.countP fun r => !r.slotReleased : Nat) ∧
    s.inflight = (s.clientInflight.entries.map fun e => e.2.getD 0).sum ∧
    (∀ e ∈ s.clientInflight.entries, ∃ n, e.2 = some n ∧ 1 ≤ n ∧ n ≤ cfg.maxClientInflight) ∧
    s.inflight ≤ cfg.maxInflight ∧
    (s.releases.Nodup ∧ ∀ i r, s.requests[i]? = some r →
      (r.slotReleased = true ↔ i ∈ s.releases) ∧
      (i ∈ s.releases → r.authPending = false) ∧
      (r.authPending = false → r.finished = true ∨ r.closed = true → r.slotReleased = true)) ∧
    (s.exitCode = some 0 → ∀ r ∈ s.requests, r.slotReleased = true) := by
  have hInv := relay_invariant h
  have hTotal := hInv.total
  have hCapacity := hInv.capacity
  refine ⟨hTotal, hInv.sum_clients.symm, fun e he => ?_, by omega, ⟨hInv.unique, fun i r hr => ?_⟩, fun hExit => ?_⟩
  · obtain ⟨hCount, hPos⟩ := hInv.entry he
    exact ⟨_, hCount, by omega, hInv.clientCapacity e.1⟩
  · obtain ⟨⟨hLogged, hSettled, -⟩, hAnswered⟩ := hInv.requests i r hr
    refine ⟨hLogged, fun hi => hSettled (hLogged.mpr hi), fun hPending hDone => ?_⟩
    rcases hAnswered hDone with hReleased | ⟨hStill, -⟩
    · exact hReleased
    · rw [hPending] at hStill
      cases hStill
  · intro r hr
    have hNone : s.requests.countP outstanding = 0 := by
      have := hInv.exited hExit
      omega
    have hOut := List.countP_eq_zero.mp hNone r hr
    simpa [outstanding] using hOut

def testConfig : Config := ⟨1, 0, 65536⟩

/-- A client disconnects while its authorization is pending, during shutdown; the slot outlives the socket. -/
def disconnect : List Event :=
  [.arrive (str "a") false, .arrive (str "b") false, .request 0 .destroyResponse, .request 0 .close, .beginShutdown,
   .httpClosed, .request 0 (.authSettles .granted)]

theorem relay_capacity_accounting_disconnect :
    ((relay testConfig).after disconnect).refusals = [429] ∧
    ((relay testConfig).after disconnect).exitCode = some 0 ∧
    ∀ r ∈ ((relay testConfig).after disconnect).requests, r.slotReleased = true := by
  have hRefused : ((relay testConfig).after disconnect).refusals = [429] := by decide +kernel
  have hExit : ((relay testConfig).after disconnect).exitCode = some 0 := by decide +kernel
  exact ⟨hRefused, hExit, (relay_capacity_accounting (System.reachable_after _ disconnect)).2.2.2.2.2 hExit⟩

end Columbia.Relay.RelayRequests
