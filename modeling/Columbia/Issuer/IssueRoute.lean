import Columbia.Issuer.Authorisation
import Columbia.Js.Http

/-! # The route POST /issue

A request goes through the drain flag, the Front Door lock, the content type and the size of its body before
`handleIssue` runs. What its own steps do to the device rows depends on the answer it gets: nothing on a rejection, one
charge of the attested device on a 200 or a failed signature.
-/
namespace Columbia.Issuer.IssueRoute
open Columbia.Js Columbia.Lib StateStore Ledger
open Columbia.Issuer.Issue (Platform Config Request Response Grant SigningKey readRequest keysLoaded afterValidation
  attestFailed reservationFailed grant)
open Columbia.Issuer.AppAttest (Candidate)
set_option autoImplicit false

/-- `MAX_BODY` is `none` when the setting is not a number. -/
structure Http where
  REQUIRE_FDID : Str
  MAX_BODY : Option Int

structure Shared where
  store : Replicas.Shared
  draining : Bool

inductive Call
  | idle
  | receiving (chunks : List Bytes) (received : Nat)
  | turnedAway (response : Response)
  | handling (call : Issue.Call)

inductive Action
  | request (fdid contentType : Option Str)
  | data (chunk : Bytes)
  | ended (now : Nat → Int)
  | handle (action : Issue.Action)

inductive Env
  | beginShutdown

section
variable (platform : Platform) (config : Config) (http : Http)

def draining503 : Response := ⟨503, none, some 2⟩

def received (draining : Bool) (fdid contentType : Option Str) : Call :=
  if draining then .turnedAway draining503
  else if frontDoorAllowed platform.sha256 http.REQUIRE_FDID fdid = false then .turnedAway (.plain 403)
  else if mediaType contentType ≠ str "application/json" then .turnedAway (.plain 415)
  else .receiving [] 0

def tooLarge (received : Nat) : Bool := http.MAX_BODY.any fun (maxBody : Int) => maxBody < (received : Int)

def handled (s : Shared) : Option (Replicas.Shared × Issue.Call) → Option (Shared × Call)
  | some (store, call) => some ({ s with store := store }, .handling call)
  | none => none

def act (i : Nat) : Action → Shared → Call → Option (Shared × Call)
  | .request fdid contentType, s, .idle => some (s, received platform http s.draining fdid contentType)
  | .data chunk, s, .receiving chunks n =>
    some (s, if tooLarge http (n + chunk.length) then .turnedAway (.plain 413)
      else .receiving (chunks ++ [chunk]) (n + chunk.length))
  | .ended now, s, .receiving chunks _ =>
    if s.draining then some (s, .turnedAway draining503)
    else handled s (Issue.act platform config i (.start chunks.flatten now) s.store .idle)
  | .data _, s, .turnedAway response | .ended _, s, .turnedAway response => some (s, .turnedAway response)
  | .handle action, s, .handling call => handled s (Issue.act platform config i action s.store call)
  | _, _, _ => none

def server : Calls Shared Call Action Env where
  start := ⟨⟨.empty, []⟩, false⟩
  idle := .idle
  act := act platform config http
  env := fun | .beginShutdown, s => some { s with draining := true }

end

def status? : Call → Option Nat
  | .turnedAway response | .handling (.refused response _) => some response.status
  | .handling (.issued _ _) => some 200
  | _ => none

section
variable {platform : Platform} {config : Config} {http : Http}

/-! ## The handler's part of a run -/

def issueOf : Call → Issue.Call
  | .handling call => call
  | _ => .idle

theorem handled_eq_some {s t : Shared} {call : Call} {result : Option (Replicas.Shared × Issue.Call)}
    (h : handled s result = some (t, call)) :
    ∃ store issue, result = some (store, issue) ∧ t = { s with store := store } ∧ call = .handling issue := by
  unfold handled at h
  split at h
  · cases h
    exact ⟨_, _, rfl, rfl, rfl⟩
  · cases h

theorem act_issue {i : Nat} {action : Action} {s t : Shared} {call call' : Call}
    (h : act platform config http i action s call = some (t, call')) :
    (t.store = s.store ∧ issueOf call' = issueOf call) ∨
      ∃ action', Issue.act platform config i action' s.store (issueOf call) = some (t.store, issueOf call') := by
  unfold act at h
  split at h
  · cases h
    left
    refine ⟨rfl, ?_⟩
    unfold received
    split_ifs <;> rfl
  · cases h
    left
    refine ⟨rfl, ?_⟩
    split <;> rfl
  · split at h
    · cases h
      exact .inl ⟨rfl, rfl⟩
    · obtain ⟨store, issue, hAct, rfl, rfl⟩ := handled_eq_some h
      exact .inr ⟨_, hAct⟩
  · cases h
    exact .inl ⟨rfl, rfl⟩
  · cases h
    exact .inl ⟨rfl, rfl⟩
  · obtain ⟨store, issue, hAct, rfl, rfl⟩ := handled_eq_some h
    exact .inr ⟨_, hAct⟩
  · cases h

theorem issues_reachable {p : Pool Shared Call} (h : (server platform config http).system.Reachable p) :
    (Issue.handleIssue platform config).system.Reachable ⟨p.shared.store, fun i => issueOf (p.calls i)⟩ := by
  refine Calls.reachable_project Shared.store issueOf rfl rfl (fun _ _ _ _ _ _ hAct => act_issue hAct) ?_ h
  intro event s t hEnv
  cases hEnv
  exact .inl rfl

theorem replicas_invariant {p : Pool Shared Call} (h : (server platform config http).system.Reachable p) (i : Nat) :
    Replicas.CallInv platform.hmac config.state i p.shared.store (Issue.reserveOf (issueOf (p.calls i))) :=
  (Replicas.replicas_invariant (Issue.reservations_reachable (issues_reachable h))).2 i

/-! ## What a request does to the rows -/

def Quiet (steps : List (Calls.OwnStep Shared Call)) : Prop :=
  ∀ x ∈ steps, x.after.1.store.backend = x.before.1.store.backend

def count (row : Option DeviceRecord) (e : Int) : Int := (row.bind fun row => row.quota.get? e).getD 0

/-- A row before and after a charge for the request. Epochs that fall out of the record are not in `kept`. -/
structure Charge (req : Request) (candidate : Candidate) (old : Option DeviceRecord) (row : DeviceRecord) : Prop where
  publicKeyPem : row.publicKeyPem = (old.map (·.publicKeyPem)).getD candidate.publicKeyPem
  signCount : row.signCount = max ((old.map fun row => row.signCount).getD 0) (candidate.signCount : Int)
  quota : count (some row) req.epochId = count old req.epochId + req.blinded.length
  kept : ∀ e, e ≠ req.epochId → e = row.latestEpoch ∨ e = row.latestEpoch - 1 → count (some row) e = count old e

variable (platform config) in
/-- Only the row of the attested device changes. -/
structure Charged (req : Request) (candidate : Candidate) (b b' : MemoryBackend) : Prop where
  others : ∀ key, key ≠ keyFor platform.hmac config.state.salt candidate.keyId → b'.get key = b.get key
  device : ∃ etag row, b'.get (keyFor platform.hmac config.state.salt candidate.keyId) = some (etag, row) ∧
    Charge req candidate ((b.get (keyFor platform.hmac config.state.salt candidate.keyId)).map (·.2)) row

variable (platform config) in
/-- One of the steps charges the device for the request, the others leave the rows alone. -/
def ChargedOnce (req : Request) (candidate : Candidate) (steps : List (Calls.OwnStep Shared Call)) : Prop :=
  ∃ before x after, steps = before ++ x :: after ∧ Quiet (before ++ after) ∧
    (∃ keys reserve, x.before.2 = .handling (.reserving req keys candidate reserve)) ∧
    Charged platform config req candidate x.before.1.store.backend x.after.1.store.backend

theorem Quiet.snoc {steps : List (Calls.OwnStep Shared Call)} {x : Calls.OwnStep Shared Call} (h : Quiet steps)
    (hx : x.after.1.store.backend = x.before.1.store.backend) : Quiet (steps ++ [x]) := by
  intro y hy
  rcases List.mem_append.mp hy with hy | hy
  · exact h y hy
  · rwa [List.mem_singleton.mp hy]

theorem ChargedOnce.snoc {req : Request} {candidate : Candidate} {steps : List (Calls.OwnStep Shared Call)}
    {x : Calls.OwnStep Shared Call} (h : ChargedOnce platform config req candidate steps)
    (hx : x.after.1.store.backend = x.before.1.store.backend) :
    ChargedOnce platform config req candidate (steps ++ [x]) := by
  obtain ⟨before, y, after, rfl, hQuiet, hCall, hCharged⟩ := h
  refine ⟨before, y, after ++ [x], by simp, ?_, hCall, hCharged⟩
  rw [← List.append_assoc]
  exact hQuiet.snoc hx

theorem charge_charged {req : Request} {candidate : Candidate} {r : Reservation} {quota : Int} {commitID : Str}
    {old : Option DeviceRecord} (hArgs : validated (req.reserveArgs candidate) = some r) (hAdmits : Admits quota r old) :
    Charge req candidate old (charged r commitID old) := by
  obtain ⟨⟨-, -, hPem, hCount⟩, hEpoch, hLength⟩ := Issue.validated_reserveArgs hArgs
  constructor
  · cases old with
    | none => exact hPem
    | some row => exact (hAdmits.sameKey row rfl).symm
  · rw [max_comm, ← hCount]
    rfl
  · have hQuota := charged_quota r commitID old r.epoch
    rw [if_pos rfl, hLength] at hQuota
    rw [← hEpoch]
    exact hQuota
  · intro e he hLatest
    have hQuota := charged_quota r commitID old e
    rw [if_neg (hEpoch ▸ he)] at hQuota
    exact hQuota.trans (if_pos hLatest)

theorem put_charged {req : Request} {candidate : Candidate} {r : Reservation} {quota : Int} {commitID : Str}
    {maxKeys : Nat} {b b' : MemoryBackend} {prior : Option (Nat × DeviceRecord)} {etag : Option Nat}
    {value : DeviceRecord} (hArgs : validated (req.reserveArgs candidate) = some r)
    (hCurrent : Current b (Replicas.rowKey platform.hmac config.state r) prior)
    (hDecide : decideReservation quota r commitID prior = .put etag value)
    (hPut : b.put maxKeys (Replicas.rowKey platform.hmac config.state r) etag value = some (true, b')) :
    Charged platform config req candidate b b' := by
  have hKey : Replicas.rowKey platform.hmac config.state r = keyFor platform.hmac config.state.salt candidate.keyId := by
    rw [Replicas.rowKey, (Issue.validated_reserveArgs hArgs).1.1]
  rw [hKey] at hCurrent hPut
  obtain ⟨hEtag, rfl, hAdmits⟩ := decideReservation_eq_put hDecide
  rcases put_eq_some hPut with ⟨hWon, -⟩ | ⟨-, hSame, rfl⟩
  · cases hWon
  · have hPrior := hCurrent.eq_of_etag (hSame.trans hEtag)
    refine ⟨fun key hOther => ?_, b.revision + 1, charged r commitID (prior.map (·.2)), ?_, ?_⟩
    · rw [get_set, if_neg hOther]
    · rw [get_set, if_pos rfl]
    · rw [hPrior]
      exact charge_charged hArgs hAdmits

def rejections : List Nat := [400, 401, 403, 413, 415, 429, 503]

def Reserves (req : Request) (candidate : Candidate) (reserve : Replicas.Call) : Prop :=
  ∀ r commitID phase, reserve = .running r commitID phase → validated (req.reserveArgs candidate) = some r

def Paid (reserve : Replicas.Call) : Prop := ∃ r commitID, reserve = .running r commitID (.returned .ok)

variable (platform config) in
def Refused (response : Response) (steps : List (Calls.OwnStep Shared Call)) : Prop :=
  (response.status ∈ rejections ∧ Quiet steps) ∨
    (response.status = 500 ∧ ∃ req candidate, ChargedOnce platform config req candidate steps)

variable (platform config) in
/-- The answer a request got, or how far it is, against the steps it made. -/
def History : Call → List (Calls.OwnStep Shared Call) → Prop
  | .handling (.reserving req _ candidate reserve), steps => Reserves req candidate reserve ∧
      (Paid reserve → ChargedOnce platform config req candidate steps) ∧ (¬Paid reserve → Quiet steps)
  | .handling (.issued g _), steps => ChargedOnce platform config g.request g.candidate steps
  | .handling (.refused response _), steps | .turnedAway response, steps => Refused platform config response steps
  | _, steps => Quiet steps

theorem readRequest_status {now : Nat → Int} {body : Bytes} {response : Response}
    (h : readRequest platform config now body = .error response) : response.status ∈ rejections := by
  simp only [readRequest, bind_eq_error, orThrow_eq_error, require_eq_error, Response.plain] at h
  obtain ⟨-, rfl⟩ | ⟨parsed, -, ⟨-, rfl⟩ | ⟨keyId, -, ⟨-, rfl⟩ | ⟨blinded, -, ⟨-, rfl⟩ | ⟨e, -, ⟨-, rfl⟩ |
    ⟨-, -, h⟩⟩⟩⟩⟩ := h
  · simp [rejections]
  · simp [rejections]
  · simp [rejections]
  · simp [rejections]
  · simp [rejections]
  · cases h

theorem attestFailed_status (reason : String) : (attestFailed reason).status ∈ rejections := by
  unfold attestFailed
  split <;> simp [rejections]

theorem reservationFailed_status (now : Int) (req : Request) (reason : Reason) :
    (reservationFailed config now req reason).status ∈ rejections := by
  cases reason <;> simp [reservationFailed, rejections]

theorem history_afterValidation {req : Request} {keys : SigningKey} {steps : List (Calls.OwnStep Shared Call)}
    (h : Quiet steps) (result : AppAttest.Result) :
    History platform config (.handling (afterValidation req keys result)) steps := by
  cases result with
  | ok candidate => exact h
  | rejected reason error => exact .inl ⟨attestFailed_status reason, h⟩

theorem history_keysLoaded {now : Nat → Int} {fuel : Nat} {req : Request} {call : Issue.Call}
    {steps : List (Calls.OwnStep Shared Call)} (h : Quiet steps)
    (hLoaded : keysLoaded platform config now fuel req = some call) :
    History platform config (.handling call) steps := by
  unfold keysLoaded at hLoaded
  split at hLoaded
  · cases hLoaded
    exact .inl ⟨by simp [Response.plain, rejections], h⟩
  · obtain ⟨validation, -, rfl⟩ := Option.map_eq_some_iff.mp hLoaded
    cases validation with
    | returned result => exact history_afterValidation h result
    | lookingUp storeKeyId clientDataHash => exact h

theorem history_respond {now : Int} {req : Request} {keys : SigningKey} {candidate : Candidate}
    {reserve : Replicas.Call} {call : Issue.Call} {steps : List (Calls.OwnStep Shared Call)}
    (hPaid : Paid reserve → ChargedOnce platform config req candidate steps) (hFree : ¬Paid reserve → Quiet steps)
    (h : Issue.respond platform config now req keys candidate reserve = some call) :
    History platform config (.handling call) steps := by
  unfold Issue.respond at h
  split at h
  · cases h
    exact .inl ⟨by simp [rejections], hFree (by simp [Paid])⟩
  · cases h
    exact .inl ⟨by simp [rejections], hFree (by simp [Paid])⟩
  · cases h
    exact .inl ⟨reservationFailed_status now req _, hFree (by simp [Paid])⟩
  · rename_i r commitID
    have hCharged := hPaid ⟨r, commitID, rfl⟩
    split at h
    · rename_i g hGrant
      cases h
      obtain ⟨hReq, hCandidate, -⟩ := Issue.grant_eq_some hGrant
      rw [History, hReq, hCandidate]
      exact hCharged
    · cases h
      exact .inr ⟨rfl, req, candidate, hCharged⟩
  · cases h

theorem reserves_start {i : Nat} {s t : Replicas.Shared} {req : Request} {candidate : Candidate} {commitID : Str}
    {reserve : Replicas.Call} (h : Replicas.act platform.hmac config.state config.maxKeys i
      (.start (req.reserveArgs candidate) commitID) s .idle = some (t, reserve)) :
    t = s ∧ Reserves req candidate reserve ∧ ¬Paid reserve := by
  simp only [Replicas.act] at h
  split at h
  · cases h
    refine ⟨rfl, ?_, by simp [Paid]⟩
    intro r commitID' phase hRunning
    cases hRunning
  · rename_i r hArgs
    cases h
    refine ⟨rfl, ?_, by simp [Paid]⟩
    intro r' commitID' phase hRunning
    cases hRunning
    exact hArgs

theorem not_paid_afterGet (r : Reservation) (commitID : Str) (attempt : Nat) (prior : Option (Nat × DeviceRecord)) :
    ¬Paid (.running r commitID (afterGet config.state.quota r commitID attempt prior)) := by
  rintro ⟨r', commitID', hRunning⟩
  unfold afterGet at hRunning
  split at hRunning
  · rename_i hDecide
    cases hRunning
    exact decideReservation_ne_ok _ _ _ _ hDecide
  · cases hRunning

/-- A step of the reservation leaves the rows alone, or it is the charge. -/
theorem resume_charges {i : Nat} {s t : Replicas.Shared} {req : Request} {candidate : Candidate}
    {reserve reserve' : Replicas.Call} (hInv : Replicas.CallInv platform.hmac config.state i s reserve)
    (hReserves : Reserves req candidate reserve)
    (h : Replicas.act platform.hmac config.state config.maxKeys i .resume s reserve = some (t, reserve')) :
    ¬Paid reserve ∧ Reserves req candidate reserve' ∧ ((¬Paid reserve' ∧ t.backend = s.backend) ∨
      (Paid reserve' ∧ Charged platform config req candidate s.backend t.backend)) := by
  have hKeep : ∀ r commitID phase phase', reserve = .running r commitID phase →
      Reserves req candidate (.running r commitID phase') := by
    rintro r commitID phase phase' hRunning r' commitID' phase'' hRunning'
    cases hRunning'
    exact hReserves r commitID phase hRunning
  rcases Replicas.act_cases h with ⟨-, rfl, -⟩ | ⟨r, commitID, attempt, rfl, rfl, rfl⟩ |
      ⟨r, commitID, attempt, etag, value, rfl, ⟨rfl, rfl⟩ | ⟨b, hPut, rfl, rfl⟩ | ⟨b, hPut, rfl, rfl⟩⟩
  · cases h
  · exact ⟨by simp [Paid], hKeep _ _ _ _ rfl, .inl ⟨not_paid_afterGet _ _ _ _, rfl⟩⟩
  · exact ⟨by simp [Paid], hKeep _ _ _ _ rfl, .inl ⟨by simp [Paid], rfl⟩⟩
  · obtain ⟨prior, hCurrent, hDecide⟩ := hInv.decided _ _ _ _ _ rfl
    refine ⟨by simp [Paid], hKeep _ _ _ _ rfl, .inr ⟨⟨r, commitID, rfl⟩, ?_⟩⟩
    exact put_charged (hReserves _ _ _ rfl) hCurrent hDecide hPut
  · refine ⟨by simp [Paid], hKeep _ _ _ _ rfl, .inl ⟨?_, ?_⟩⟩
    · rcases Replicas.nextAttempt_cases attempt with ⟨n, hNext⟩ | hNext
      · simp [Paid, hNext]
      · simp [Paid, hNext]
    · rcases put_eq_some hPut with ⟨-, rfl⟩ | ⟨hWon, -⟩
      · rfl
      · cases hWon

/-- One step of the handler. -/
theorem handle_history {i : Nat} {action : Issue.Action} {s : Shared} {t : Replicas.Shared} {call call' : Issue.Call}
    {steps : List (Calls.OwnStep Shared Call)}
    (hInv : Replicas.CallInv platform.hmac config.state i s.store (Issue.reserveOf call))
    (hHistory : History platform config (.handling call) steps)
    (h : Issue.act platform config i action s.store call = some (t, call')) :
    History platform config (.handling call')
      (steps ++ [⟨(s, .handling call), ({ s with store := t }, .handling call')⟩]) := by
  cases Issue.act_step h with
  | start hRead => exact Quiet.snoc hHistory rfl
  | unread hRead => exact .inl ⟨readRequest_status hRead, Quiet.snoc hHistory rfl⟩
  | keysLoaded hLoaded => exact history_keysLoaded (Quiet.snoc hHistory rfl) hLoaded
  | lookup => exact history_afterValidation (Quiet.snoc hHistory rfl) _
  | reserve hAct =>
    obtain ⟨rfl, hReserves, hFree⟩ := reserves_start hAct
    exact ⟨hReserves, fun hPaid => absurd hPaid hFree, fun _ => Quiet.snoc hHistory rfl⟩
  | resume hAct =>
    obtain ⟨hReserves, -, hQuiet⟩ := hHistory
    obtain ⟨hFree, hReserves', ⟨hFree', hSame⟩ | ⟨hPaid', hCharged⟩⟩ := resume_charges hInv hReserves hAct
    · exact ⟨hReserves', fun hPaid => absurd hPaid hFree', fun _ => (hQuiet hFree).snoc hSame⟩
    · refine ⟨hReserves', fun _ => ?_, fun hUnpaid => absurd hPaid' hUnpaid⟩
      exact ⟨steps, _, [], rfl, by simpa using hQuiet hFree, ⟨_, _, rfl⟩, hCharged⟩
  | respond hRespond =>
    obtain ⟨-, hPaid, hFree⟩ := hHistory
    exact history_respond (fun h => (hPaid h).snoc rfl) (fun h => (hFree h).snoc rfl) hRespond

theorem Refused.snoc {response : Response} {steps : List (Calls.OwnStep Shared Call)} {x : Calls.OwnStep Shared Call}
    (h : Refused platform config response steps) (hx : x.after.1.store.backend = x.before.1.store.backend) :
    Refused platform config response (steps ++ [x]) := by
  rcases h with ⟨hStatus, hQuiet⟩ | ⟨hStatus, req, candidate, hCharged⟩
  · exact .inl ⟨hStatus, hQuiet.snoc hx⟩
  · exact .inr ⟨hStatus, req, candidate, hCharged.snoc hx⟩

theorem act_history {i : Nat} {action : Action} {s t : Shared} {call call' : Call}
    {steps : List (Calls.OwnStep Shared Call)}
    (hInv : Replicas.CallInv platform.hmac config.state i s.store (Issue.reserveOf (issueOf call)))
    (hHistory : History platform config call steps) (h : act platform config http i action s call = some (t, call')) :
    History platform config call' (steps ++ [⟨(s, call), (t, call')⟩]) := by
  unfold act at h
  split at h
  · cases h
    unfold received
    split_ifs
    · exact .inl ⟨by simp [draining503, rejections], Quiet.snoc hHistory rfl⟩
    · exact .inl ⟨by simp [Response.plain, rejections], Quiet.snoc hHistory rfl⟩
    · exact .inl ⟨by simp [Response.plain, rejections], Quiet.snoc hHistory rfl⟩
    · exact Quiet.snoc hHistory rfl
  · cases h
    split
    · exact .inl ⟨by simp [Response.plain, rejections], Quiet.snoc hHistory rfl⟩
    · exact Quiet.snoc hHistory rfl
  · split at h
    · cases h
      exact .inl ⟨by simp [draining503, rejections], Quiet.snoc hHistory rfl⟩
    · obtain ⟨store, issue, hAct, rfl, rfl⟩ := handled_eq_some h
      cases Issue.act_step hAct with
      | start hRead => exact Quiet.snoc hHistory rfl
      | unread hRead => exact .inl ⟨readRequest_status hRead, Quiet.snoc hHistory rfl⟩
  · cases h
    exact Refused.snoc hHistory rfl
  · cases h
    exact Refused.snoc hHistory rfl
  · obtain ⟨store, issue, hAct, rfl, rfl⟩ := handled_eq_some h
    exact handle_history hInv hHistory hAct
  · cases h

theorem server_history {p : Pool Shared Call} {i : Nat} {steps : List (Calls.OwnStep Shared Call)}
    (h : (server platform config http).ReachedWith i p steps) : History platform config (p.calls i) steps := by
  have hIdle : History platform config (server platform config http).idle [] := fun _ hx => absurd hx List.not_mem_nil
  refine h.history (History platform config) hIdle fun p steps action t call hReached hHistory hAct => ?_
  exact act_history (replicas_invariant hReached i) hHistory hAct

theorem History.answered {call : Call} {steps : List (Calls.OwnStep Shared Call)} {status : Nat}
    (h : History platform config call steps) (hStatus : status? call = some status) :
    (status ∈ rejections ∧ Quiet steps) ∨ ((status = 200 ∨ status = 500) ∧
      ∃ req candidate, ChargedOnce platform config req candidate steps ∧
        ∀ g reserve, call = .handling (.issued g reserve) → g.request = req ∧ g.candidate = candidate) := by
  unfold status? at hStatus
  split at hStatus
  · cases hStatus
    rcases h with hQuiet | ⟨hStatus, req, candidate, hCharged⟩
    · exact .inl hQuiet
    · refine .inr ⟨.inr hStatus, req, candidate, hCharged, fun g reserve hCall => ?_⟩
      cases hCall
  · cases hStatus
    rcases h with hQuiet | ⟨hStatus, req, candidate, hCharged⟩
    · exact .inl hQuiet
    · refine .inr ⟨.inr hStatus, req, candidate, hCharged, fun g reserve hCall => ?_⟩
      cases hCall
  · rename_i g reserve
    cases hStatus
    refine .inr ⟨.inl rfl, g.request, g.candidate, h, ?_⟩
    intro g' reserve' hCall
    cases hCall
    exact ⟨rfl, rfl⟩
  · cases hStatus

/-- A rejected request changes no row. One that is answered with signatures, or whose signing failed, charges its
device once, for what it asked, and changes nothing else. -/
theorem issue_charges_or_leaves_rows {p : Pool Shared Call} {i : Nat} {steps : List (Calls.OwnStep Shared Call)}
    (h : (server platform config http).ReachedWith i p steps) :
    (∀ status ∈ [400, 401, 403, 413, 415, 429, 503], status? (p.calls i) = some status → Quiet steps) ∧
    ∀ status ∈ [200, 500], status? (p.calls i) = some status →
      ∃ req candidate, ChargedOnce platform config req candidate steps ∧
        ∀ g reserve, p.calls i = .handling (.issued g reserve) → g.request = req ∧ g.candidate = candidate := by
  have hHistory := server_history h
  constructor
  · intro status hMem hStatus
    rcases hHistory.answered hStatus with ⟨-, hQuiet⟩ | ⟨rfl | rfl, -⟩
    · exact hQuiet
    · exact absurd hMem (by decide)
    · exact absurd hMem (by decide)
  · intro status hMem hStatus
    rcases hHistory.answered hStatus with ⟨hRejected, -⟩ | ⟨-, hCharged⟩
    · rcases List.mem_pair.mp hMem with rfl | rfl
      · exact absurd hRejected (by decide)
      · exact absurd hRejected (by decide)
    · exact hCharged

end

/-! ## One request registers a device, another is no JSON -/

def testServer := server Issue.testIssuer Issue.testIssuerConfig ⟨[], some 262144⟩

def answered := testServer.system.after
  [.act 0 (.request none (some (str "application/json; charset=utf-8"))), .act 1 (.request none (some (str "text/plain"))),
   .act 0 (.data [0]), .act 0 (.ended fun _ => 5), .act 0 (.handle (.keysLoaded (fun _ => 5) 2147483648)),
   .act 0 (.handle (.reserve (str "a"))), .act 0 (.handle .resume), .act 0 (.handle .resume),
   .act 0 (.handle (.respond 5))]

theorem issue_charges_or_leaves_rows_answered :
    (∃ steps, testServer.ReachedWith 0 answered steps ∧
      ∃ req candidate, ChargedOnce Issue.testIssuer Issue.testIssuerConfig req candidate steps) ∧
    ∃ steps, testServer.ReachedWith 1 answered steps ∧ Quiet steps := by
  have hReached : testServer.system.Reachable answered := System.reachable_after _ _
  obtain ⟨hIssued, hRejected⟩ : status? (answered.calls 0) = some 200 ∧ status? (answered.calls 1) = some 415 := by
    decide +kernel
  constructor
  · obtain ⟨steps, hSteps⟩ := Calls.exists_reachedWith 0 hReached
    obtain ⟨req, candidate, hCharged, -⟩ :=
      (issue_charges_or_leaves_rows hSteps).2 200 List.mem_cons_self hIssued
    exact ⟨steps, hSteps, req, candidate, hCharged⟩
  · obtain ⟨steps, hSteps⟩ := Calls.exists_reachedWith 1 hReached
    exact ⟨steps, hSteps, (issue_charges_or_leaves_rows hSteps).1 415 (by decide) hRejected⟩

end Columbia.Issuer.IssueRoute
