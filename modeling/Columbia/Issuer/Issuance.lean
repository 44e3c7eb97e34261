import Columbia.Issuer.Authorisation
import Columbia.Issuer.AzureLedger

/-! # How much a device is issued

`handleIssue` over any store whose ledger is known: the memory backend, or the Azure table with its faults and late
writes. What a request is charged for is what it asks to be signed, in the epoch the handler read; the key is that of
this epoch or of the one before.
-/
namespace Columbia.Issuer.Issuance
open Columbia.Js Columbia.Lib StateStore Ledger
open Columbia.Issuer.Issue (Platform Config Request Response Grant SigningKey readRequest keysLoaded afterValidation
  reservationFailed grant loadedKeys boundEpoch)
open Columbia.Issuer.AppAttest (Candidate validateAssertion)
set_option autoImplicit false

/-! ## Stores -/

/-- A store with its `reserve` calls in flight. `log` lists the charges that went through, `row` is a device's row. -/
structure DeviceStore (hmac : Bytes → Str → Digest) (state : IssuerState) where
  Shared : Type
  Local : Type
  Action : Type
  Env : Type
  calls : Calls Shared Local Action Env
  reserve : Nat → ReserveArgs → Str → Action
  outcome? : Local → Option Outcome
  reservation? : Local → Option Reservation
  row : Shared → Str → Option DeviceRecord
  log : Pool Shared Local → List Commit
  reserve_starts : ∀ {i n args commitID s t l}, calls.act i (reserve n args commitID) s calls.idle = some (t, l) →
    l ≠ calls.idle ∧ reservation? l = validated args
  act_keeps : ∀ {i action s t l l'}, l ≠ calls.idle → calls.act i action s l = some (t, l') →
    l' ≠ calls.idle ∧ reservation? l' = reservation? l
  ok_reserved : ∀ {l}, outcome? l = some .ok → reservation? l ≠ none
  log_nodup : ∀ {p}, calls.system.Reachable p → ((log p).map (·.call)).Nodup
  mem_log : ∀ {p i r}, calls.system.Reachable p → outcome? (p.calls i) = some .ok →
    reservation? (p.calls i) = some r → ⟨i, keyFor hmac state.salt r.keyId, r⟩ ∈ log p
  log_agrees : ∀ {p}, calls.system.Reachable p → ∀ keyId,
    RowAgrees (row p.shared (keyFor hmac state.salt keyId)) (commitsOf (keyFor hmac state.salt keyId) (log p))
  log_lawful : ∀ {p}, calls.system.Reachable p → ∀ keyId,
    Lawful state.quota (commitsOf (keyFor hmac state.salt keyId) (log p))

namespace DeviceStore
variable (hmac : Bytes → Str → Digest) (state : IssuerState)

def memoryOutcome? : Replicas.Call → Option Outcome
  | .refused => some .unavailable
  | .running _ _ (.returned outcome) => some outcome
  | _ => none

def memoryReservation? : Replicas.Call → Option Reservation
  | .running r _ _ => some r
  | _ => none

def memory (maxKeys : Nat) : DeviceStore hmac state where
  Shared := Replicas.Shared
  Local := Replicas.Call
  Action := Replicas.Action
  Env := Empty
  calls := Replicas.replicas hmac state maxKeys
  reserve _ := Replicas.Action.start
  outcome? := memoryOutcome?
  reservation? := memoryReservation?
  row s key := (s.backend.get key).map (·.2)
  log p := p.shared.log
  reserve_starts {i n args commitID s t l} h := by
    change Replicas.act hmac state maxKeys i (.start args commitID) s .idle = some (t, l) at h
    simp only [Replicas.act] at h
    split at h
    · rename_i hArgs
      cases h
      exact ⟨nofun, hArgs.symm⟩
    · rename_i r hArgs
      cases h
      exact ⟨nofun, hArgs.symm⟩
  act_keeps {i action s t l l'} hStarted h := by
    change Replicas.act hmac state maxKeys i action s l = some (t, l') at h
    rcases Replicas.act_cases h with ⟨-, hIdle, -⟩ | ⟨r, commitID, attempt, -, rfl, rfl⟩ |
        ⟨r, commitID, attempt, etag, value, rfl, ⟨-, rfl⟩ | ⟨b, -, -, rfl⟩ | ⟨b, -, -, rfl⟩⟩
    · exact absurd hIdle hStarted
    · exact ⟨nofun, rfl⟩
    · exact ⟨nofun, rfl⟩
    · exact ⟨nofun, rfl⟩
    · exact ⟨nofun, rfl⟩
  ok_reserved {l} hOk := by
    cases l with
    | idle => cases hOk
    | refused => cases hOk
    | running r commitID phase => nofun
  log_nodup := Replicas.log_calls_nodup
  mem_log {p i r} h hOk hReservation := by
    refine (Replicas.mem_log_iff h _).mpr ⟨?_, rfl⟩
    change memoryOutcome? (p.calls i) = some .ok at hOk
    change memoryReservation? (p.calls i) = some r at hReservation
    unfold memoryOutcome? at hOk
    split at hOk
    · cases hOk
    · rename_i r' commitID outcome hCall
      cases hOk
      rw [hCall] at hReservation
      cases hReservation
      exact ⟨commitID, hCall⟩
    · cases hOk
  log_agrees h keyId := (Replicas.replicas_invariant h).1.agrees _
  log_lawful h keyId := (Replicas.replicas_invariant h).1.lawful _

def azureOutcome? : AzureDevices.Call → Option Outcome
  | .refused => some .unavailable
  | .running _ (.returned outcome) => some outcome
  | _ => none

def azureReservation? (call : AzureDevices.Call) : Option Reservation :=
  (AzureDevices.requestOf call).map (·.reservation)

theorem keyFor_ne_configKey (salt : Bytes) (keyId : Str) : keyFor hmac salt keyId ≠ AzureDevices.configKey := by
  intro h
  have hLength := congrArg List.length h
  rw [keyFor, hex_digest_length] at hLength
  exact absurd hLength (by decide)

/-- Replicas of one configuration over one table. -/
def azure (sha256 : Bytes → Digest) (stringify : DeviceRecord → Str) : DeviceStore hmac state where
  Shared := AzureDevices.Shared
  Local := AzureDevices.Call
  Action := AzureDevices.Action
  Env := RemoteTable.Event
  calls := AzureDevices.issuers sha256 hmac stringify fun _ => state
  reserve := AzureDevices.Action.start
  outcome? := azureOutcome?
  reservation? := azureReservation?
  row s key := (s.table.rows key).bind fun p => p.2.device?
  log := AzureDevices.azureLog
  reserve_starts {i n args commitID s t l} h := by
    change AzureDevices.act sha256 hmac stringify (fun _ => state) i (.start n args commitID) s .idle = some (t, l) at h
    simp only [AzureDevices.act] at h
    split at h
    · rename_i hArgs
      cases h
      exact ⟨nofun, hArgs.symm⟩
    · rename_i r hArgs
      split at h
      · cases h
      · cases h
        exact ⟨nofun, hArgs.symm⟩
  act_keeps {i action s t l l'} hStarted h := by
    change AzureDevices.act sha256 hmac stringify (fun _ => state) i action s l = some (t, l') at h
    unfold AzureDevices.act at h
    split at h
    · exact absurd rfl hStarted
    · obtain ⟨⟨t', phase⟩, -, hEq⟩ := Option.map_eq_some_iff.mp h
      cases hEq
      exact ⟨nofun, rfl⟩
    · cases h
  ok_reserved {l} hOk := by
    cases l with
    | idle => cases hOk
    | refused => cases hOk
    | running q phase => nofun
  log_nodup := AzureDevices.azureLog_calls_nodup
  mem_log {p i r} h hOk hReservation := by
    change azureOutcome? (p.calls i) = some .ok at hOk
    unfold azureOutcome? at hOk
    split at hOk
    · cases hOk
    · rename_i q outcome hCall
      cases hOk
      have hMem := AzureDevices.mem_azureLog h hCall
      rw [azureReservation?, hCall] at hReservation
      cases hReservation
      exact hMem
    · cases hOk
  log_agrees h keyId :=
    (AzureDevices.chain_ledger (fun _ => rfl) (keyFor_ne_configKey hmac _ _) (AzureDevices.issuers_history h _)
      (AzureDevices.issuers_charged h)).1
  log_lawful h keyId := AzureDevices.azureLog_lawful (fun _ => rfl) h (keyFor_ne_configKey hmac _ _)

end DeviceStore
/-! ## The handler over a store -/

section
variable (platform : Platform) (config : Config) (D : DeviceStore platform.hmac config.state)

/-- Up to the reservation a request is as in `Issue`. -/
inductive Call
  | front (call : Issue.Call)
  | reserving (req : Request) (keys : SigningKey) (candidate : Candidate) (reserve : D.Local)
  | issued (g : Grant) (reserve : D.Local)
  | refused (response : Response) (reserve : D.Local)

/-- `lookup` carries what the store's read returned, `none` when it threw. -/
inductive Action
  | start (body : Bytes) (now : Nat → Int)
  | keysLoaded (now : Nat → Int) (fuel : Nat)
  | lookup (record : Option (Option (Str × Int)))
  | reserve (replica : Nat) (commitID : Str)
  | resume (action : D.Action)
  | respond (now : Int)

def received : Except Response Request → Issue.Call
  | .ok req => .awaitingKeys req
  | .error response => .refused response .idle

def settled (now : Int) (req : Request) (keys : SigningKey) (candidate : Candidate) : Outcome → Except Response Grant
  | .unavailable => .error ⟨503, some "state_unavailable", some 2⟩
  | .rejected reason => .error (reservationFailed config now req reason)
  | .ok =>
    match grant platform req keys candidate with
    | some g => .ok g
    | none => .error (.plain 500)

variable {D} in
def answered (reserve : D.Local) : Except Response Grant → Call platform config D
  | .ok g => .issued g reserve
  | .error response => .refused response reserve

def act (i : Nat) : Action platform config D → D.Shared → Call platform config D →
    Option (D.Shared × Call platform config D)
  | .start body now, s, .front .idle => some (s, .front (received (readRequest platform config now body)))
  | .keysLoaded now fuel, s, .front (.awaitingKeys req) =>
    (keysLoaded platform config now fuel req).map fun call => (s, .front call)
  | .lookup record, s, .front (.lookingUp req keys storeKeyId clientDataHash) =>
    some (s, .front (afterValidation req keys (validateAssertion platform.toPlatform config.appAttest req.assertion
      storeKeyId clientDataHash record)))
  | .reserve replica commitID, s, .front (.attested req keys candidate) =>
    (D.calls.act i (D.reserve replica (req.reserveArgs candidate) commitID) s D.calls.idle).map fun x =>
      (x.1, .reserving req keys candidate x.2)
  | .resume action, s, .reserving req keys candidate reserve =>
    (D.calls.act i action s reserve).map fun x => (x.1, .reserving req keys candidate x.2)
  | .respond now, s, .reserving req keys candidate reserve =>
    (D.outcome? reserve).map fun outcome =>
      (s, answered platform config reserve (settled platform config now req keys candidate outcome))
  | _, _, _ => none

def handleIssue : Calls D.Shared (Call platform config D) (Action platform config D) D.Env where
  start := D.calls.start
  idle := .front .idle
  act := act platform config D
  env := D.calls.env

variable {platform config D}

/-- The steps that `act` takes. -/
inductive Step (i : Nat) (s : D.Shared) : Action platform config D → Call platform config D → D.Shared →
    Call platform config D → Prop
  | start {body : Bytes} {now : Nat → Int} :
    Step i s (.start body now) (.front .idle) s (.front (received (readRequest platform config now body)))
  | keysLoaded {now : Nat → Int} {fuel : Nat} {req : Request} {front : Issue.Call}
    (hLoaded : keysLoaded platform config now fuel req = some front) :
    Step i s (.keysLoaded now fuel) (.front (.awaitingKeys req)) s (.front front)
  | lookup {record : Option (Option (Str × Int))} {req : Request} {keys : SigningKey} {storeKeyId : Str}
    {clientDataHash : Bytes} :
    Step i s (.lookup record) (.front (.lookingUp req keys storeKeyId clientDataHash)) s
      (.front (afterValidation req keys (validateAssertion platform.toPlatform config.appAttest req.assertion
        storeKeyId clientDataHash record)))
  | reserve {replica : Nat} {commitID : Str} {req : Request} {keys : SigningKey} {candidate : Candidate} {t : D.Shared}
    {reserve : D.Local}
    (hAct : D.calls.act i (D.reserve replica (req.reserveArgs candidate) commitID) s D.calls.idle = some (t, reserve)) :
    Step i s (.reserve replica commitID) (.front (.attested req keys candidate)) t (.reserving req keys candidate reserve)
  | resume {action : D.Action} {req : Request} {keys : SigningKey} {candidate : Candidate} {t : D.Shared}
    {reserve reserve' : D.Local} (hAct : D.calls.act i action s reserve = some (t, reserve')) :
    Step i s (.resume action) (.reserving req keys candidate reserve) t (.reserving req keys candidate reserve')
  | respond {now : Int} {req : Request} {keys : SigningKey} {candidate : Candidate} {reserve : D.Local}
    {outcome : Outcome} (hOutcome : D.outcome? reserve = some outcome) :
    Step i s (.respond now) (.reserving req keys candidate reserve) s
      (answered platform config reserve (settled platform config now req keys candidate outcome))

theorem act_step {i : Nat} {action : Action platform config D} {s t : D.Shared} {call call' : Call platform config D}
    (h : act platform config D i action s call = some (t, call')) : Step i s action call t call' := by
  unfold act at h
  split at h
  · cases h
    exact .start
  · obtain ⟨front, hLoaded, hEq⟩ := Option.map_eq_some_iff.mp h
    cases hEq
    exact .keysLoaded hLoaded
  · cases h
    exact .lookup
  · obtain ⟨⟨t', reserve⟩, hAct, hEq⟩ := Option.map_eq_some_iff.mp h
    cases hEq
    exact .reserve hAct
  · obtain ⟨⟨t', reserve⟩, hAct, hEq⟩ := Option.map_eq_some_iff.mp h
    cases hEq
    exact .resume hAct
  · obtain ⟨outcome, hOutcome, hEq⟩ := Option.map_eq_some_iff.mp h
    cases hEq
    exact .respond hOutcome
  · cases h

/-! ## The reservations of a run -/

def reserveOf : Call platform config D → D.Local
  | .front _ => D.calls.idle
  | .reserving _ _ _ reserve | .issued _ reserve | .refused _ reserve => reserve

def reservations (p : Pool D.Shared (Call platform config D)) : Pool D.Shared D.Local :=
  ⟨p.shared, fun i => reserveOf (p.calls i)⟩

theorem reserveOf_answered (reserve : D.Local) (result : Except Response Grant) :
    reserveOf (answered platform config reserve result) = reserve := by
  cases result <;> rfl

theorem act_reserve {i : Nat} {action : Action platform config D} {s t : D.Shared} {call call' : Call platform config D}
    (h : act platform config D i action s call = some (t, call')) :
    (t = s ∧ reserveOf call' = reserveOf call) ∨
      ∃ action', D.calls.act i action' s (reserveOf call) = some (t, reserveOf call') := by
  cases act_step h with
  | start => exact .inl ⟨rfl, rfl⟩
  | keysLoaded hLoaded => exact .inl ⟨rfl, rfl⟩
  | lookup => exact .inl ⟨rfl, rfl⟩
  | reserve hAct => exact .inr ⟨_, hAct⟩
  | resume hAct => exact .inr ⟨_, hAct⟩
  | respond hOutcome => exact .inl ⟨rfl, reserveOf_answered _ _⟩

theorem reservations_reachable {p : Pool D.Shared (Call platform config D)}
    (h : (handleIssue platform config D).system.Reachable p) : D.calls.system.Reachable (reservations p) := by
  exact Calls.reachable_project id reserveOf rfl rfl (fun _ _ _ _ _ _ hAct => act_reserve hAct)
    (fun event _ _ hEnv => .inr ⟨event, hEnv⟩) h

/-! ## What a request carries along -/

/-- The epoch of the signing key is the one the handler read, or the one before. -/
def Epochs (req : Request) : Prop := req.signingEpochId = req.epochId ∨ req.signingEpochId = req.epochId - 1

def KeyOf (config : Config) (req : Request) (keys : SigningKey) : Prop :=
  ∃ now, loadedKeys config now req.signingEpochId = some keys

def FrontInv (config : Config) : Issue.Call → Prop
  | .awaitingKeys req => Epochs req
  | .lookingUp req keys _ _ | .attested req keys _ => Epochs req ∧ KeyOf config req keys
  | _ => True

def CallInv : Call platform config D → Prop
  | .front call => FrontInv config call
  | .reserving req keys candidate reserve => (Epochs req ∧ KeyOf config req keys) ∧ reserve ≠ D.calls.idle ∧
      D.reservation? reserve = validated (req.reserveArgs candidate)
  | .issued g reserve => (Epochs g.request ∧ KeyOf config g.request g.keys) ∧
      D.reservation? reserve = validated (g.request.reserveArgs g.candidate) ∧ D.outcome? reserve = some .ok ∧
      g.epoch = g.request.signingEpochId ∧ g.keyId = g.keys.keyId ∧ g.blindSigs.length = g.request.blinded.length
  | .refused _ _ => True

theorem boundEpoch_epochs {clientDataHash : Value} {blinded : List Str} {epochId e : Int}
    (h : boundEpoch platform clientDataHash blinded epochId = some e) : e = epochId ∨ e = epochId - 1 := by
  unfold boundEpoch at h
  split at h
  · split at h
    · cases h
    · exact List.mem_pair.mp (List.mem_of_find?_eq_some h)
  · cases h

theorem readRequest_epochs {now : Nat → Int} {body : Bytes} {req : Request}
    (h : readRequest platform config now body = .ok req) : Epochs req := by
  simp only [readRequest, bind_eq_ok, orThrow_eq_ok, require_eq_ok, exists_const, Except.ok.injEq] at h
  obtain ⟨parsed, -, keyId, -, blinded, -, e, hBound, -, rfl⟩ := h
  split at hBound
  · exact boundEpoch_epochs hBound
  · exact .inl (Option.some.inj hBound).symm

theorem frontInv_afterValidation {req : Request} {keys : SigningKey} (h : Epochs req ∧ KeyOf config req keys)
    (result : AppAttest.Result) : FrontInv config (afterValidation req keys result) := by
  cases result with
  | ok candidate => exact h
  | rejected reason error => trivial

theorem frontInv_keysLoaded {now : Nat → Int} {fuel : Nat} {req : Request} {call : Issue.Call} (hEpochs : Epochs req)
    (h : keysLoaded platform config now fuel req = some call) : FrontInv config call := by
  unfold keysLoaded at h
  split at h
  · cases h
    trivial
  · rename_i keys hKeys
    obtain ⟨validation, -, rfl⟩ := Option.map_eq_some_iff.mp h
    cases validation with
    | returned result => exact frontInv_afterValidation ⟨hEpochs, _, hKeys⟩ result
    | lookingUp storeKeyId clientDataHash => exact ⟨hEpochs, _, hKeys⟩

theorem grant_length {req : Request} {keys : SigningKey} {candidate : Candidate} {g : Grant}
    (h : grant platform req keys candidate = some g) : g.request = req ∧ g.keys = keys ∧ g.candidate = candidate ∧
      g.epoch = req.signingEpochId ∧ g.keyId = keys.keyId ∧ g.blindSigs.length = req.blinded.length := by
  obtain ⟨sigs, hSigs, rfl⟩ := Option.map_eq_some_iff.mp h
  refine ⟨rfl, rfl, rfl, rfl, rfl, ?_⟩
  have hLength := (mapM_eq_some.mp hSigs).length_eq
  rw [Issue.Request.messages, List.length_map] at hLength
  rw [List.length_map, hLength]

theorem settled_eq_ok {now : Int} {req : Request} {keys : SigningKey} {candidate : Candidate} {outcome : Outcome}
    {g : Grant} (h : settled platform config now req keys candidate outcome = .ok g) :
    outcome = .ok ∧ grant platform req keys candidate = some g := by
  unfold settled at h
  split at h
  · cases h
  · cases h
  · split at h
    · rename_i hGrant
      cases h
      exact ⟨rfl, hGrant⟩
    · cases h

theorem act_inv {i : Nat} {action : Action platform config D} {s t : D.Shared} {call call' : Call platform config D}
    (hCall : CallInv call) (h : act platform config D i action s call = some (t, call')) : CallInv call' := by
  cases act_step h with
  | @start body now =>
    cases hRead : readRequest platform config now body with
    | ok req => exact readRequest_epochs hRead
    | error response => trivial
  | keysLoaded hLoaded => exact frontInv_keysLoaded hCall hLoaded
  | lookup => exact frontInv_afterValidation hCall _
  | reserve hAct => exact ⟨hCall, D.reserve_starts hAct⟩
  | resume hAct =>
    obtain ⟨hFront, hStarted, hReservation⟩ := hCall
    obtain ⟨hStarted', hKept⟩ := D.act_keeps hStarted hAct
    exact ⟨hFront, hStarted', hKept.trans hReservation⟩
  | @respond now req keys candidate reserve outcome hOutcome =>
    obtain ⟨hFront, -, hReservation⟩ := hCall
    cases hSettled : settled platform config now req keys candidate outcome with
    | error response => trivial
    | ok g =>
      obtain ⟨rfl, hGrant⟩ := settled_eq_ok hSettled
      obtain ⟨hReq, hKeys, hCandidate, hEpoch, hKeyId, hLength⟩ := grant_length hGrant
      refine ⟨?_, ?_, hOutcome, ?_, ?_, ?_⟩
      · rw [hReq, hKeys]
        exact hFront
      · rw [hReq, hCandidate]
        exact hReservation
      · rw [hReq]
        exact hEpoch
      · rw [hKeys]
        exact hKeyId
      · rw [hReq]
        exact hLength

theorem handleIssue_calls {p : Pool D.Shared (Call platform config D)}
    (h : (handleIssue platform config D).system.Reachable p) : ∀ i, CallInv (p.calls i) := by
  have hIdle : ∀ i : Nat, CallInv (handleIssue platform config D).idle := fun _ => trivial
  refine (Calls.invariant (fun _ => True) (fun _ _ call => CallInv call) trivial hIdle
    (fun p i action t call _ _ hInv hAct => ?_) (fun _ _ _ _ _ _ _ _ _ _ hInv _ => hInv)
    (fun _ _ _ _ _ _ => ⟨trivial, fun _ hInv => hInv⟩) h).2
  exact ⟨trivial, act_inv hInv hAct⟩

/-! ## What was issued was charged -/

def Issued (p : Pool D.Shared (Call platform config D)) (i : Nat) (g : Grant) : Prop :=
  ∃ reserve, p.calls i = .issued g reserve

/-- The charge behind a 200 response: by this call, on the attested device's row, for this many signatures. -/
structure Charge (key : Str) (log : List Commit) (i : Nat) (g : Grant) (r : Reservation) : Prop where
  committed : log.filter (·.call = i) = [⟨i, key, r⟩]
  count : r.count = g.blindSigs.length
  epoch : r.epoch = g.request.epochId

theorem issued_charge {p : Pool D.Shared (Call platform config D)}
    (h : (handleIssue platform config D).system.Reachable p) {i : Nat} {g : Grant} (hIssued : Issued p i g) :
    ∃ r, Charge (keyFor platform.hmac config.state.salt g.candidate.keyId) (D.log (reservations p)) i g r := by
  obtain ⟨reserve, hCall⟩ := hIssued
  have hInv := handleIssue_calls h i
  rw [hCall] at hInv
  obtain ⟨-, hReservation, hOk, -, -, hLength⟩ := hInv
  obtain ⟨r, hr⟩ := Option.ne_none_iff_exists'.mp (D.ok_reserved hOk)
  obtain ⟨⟨hKeyId, -⟩, hEpoch, hCount⟩ := Issue.validated_reserveArgs (hReservation.symm.trans hr)
  have hLocal : (reservations p).calls i = reserve := congrArg reserveOf hCall
  have hMem : (⟨i, keyFor platform.hmac config.state.salt r.keyId, r⟩ : Commit) ∈ D.log (reservations p) :=
    D.mem_log (reservations_reachable h) (hLocal ▸ hOk) (hLocal ▸ hr)
  refine ⟨r, ?_, by rw [hCount, hLength], hEpoch⟩
  rw [← hKeyId]
  exact filter_call_eq (D.log_nodup (reservations_reachable h)) hMem

/-- The calls charged in one epoch: their signatures fit into its quota. -/
theorem sum_issued_le_quota (hQuota : 0 < config.state.quota) {p : Pool D.Shared (Call platform config D)}
    (h : (handleIssue platform config D).system.Reachable p) (device : Str) (e : Int) (calls : Finset Nat)
    (g : Nat → Grant)
    (hCalls : ∀ i ∈ calls, Issued p i (g i) ∧ (g i).candidate.keyId = device ∧ (g i).request.epochId = e) :
    ∑ i ∈ calls, ((g i).blindSigs.length : Int) ≤ config.state.quota := by
  have hNonempty : Nonempty Reservation :=
    ⟨⟨[], .attestation, [], 0, 0, 1, by decide, by decide, by decide, by decide⟩⟩
  have hCharged : ∀ i ∈ calls, ∃ r, Charge (keyFor platform.hmac config.state.salt device) (D.log (reservations p)) i
      (g i) r := by
    intro i hi
    obtain ⟨hIssued, hDevice, -⟩ := hCalls i hi
    rw [← hDevice]
    exact issued_charge h hIssued
  choose! res hRes using hCharged
  calc
    ∑ i ∈ calls, ((g i).blindSigs.length : Int) = ∑ i ∈ calls, (res i).count :=
      Finset.sum_congr rfl fun i hi => (hRes i hi).count.symm
    _ ≤ spent e (commitsOf (keyFor platform.hmac config.state.salt device) (D.log (reservations p))) := by
      refine sum_count_le_spent (D.log_nodup (reservations_reachable h)) _ e calls res fun i hi => ⟨?_, ?_⟩
      · have hMem : (⟨i, keyFor platform.hmac config.state.salt device, res i⟩ : Commit) ∈
            (D.log (reservations p)).filter (·.call = i) := by
          rw [(hRes i hi).committed]
          exact List.mem_cons_self
        exact (List.mem_filter.mp hMem).1
      · rw [(hRes i hi).epoch, (hCalls i hi).2.2]
    _ ≤ config.state.quota := (D.log_lawful (reservations_reachable h) device).within hQuota e

theorem issued_key {p : Pool D.Shared (Call platform config D)} (h : (handleIssue platform config D).system.Reachable p)
    {i : Nat} {g : Grant} (hIssued : Issued p i g) : (g.keyId = g.keys.keyId ∧ KeyOf config g.request g.keys) ∧
      g.epoch = g.request.signingEpochId ∧ Epochs g.request := by
  obtain ⟨reserve, hCall⟩ := hIssued
  have hInv := handleIssue_calls h i
  rw [hCall] at hInv
  obtain ⟨⟨hEpochs, hKey⟩, -, -, hEpoch, hKeyId, -⟩ := hInv
  exact ⟨⟨hKeyId, hKey⟩, hEpoch, hEpochs⟩

/-- Two quotas for the signatures of one epoch: those charged in it, and those charged in the next. -/
theorem sum_issued_le_two_quotas (hQuota : 0 < config.state.quota) {p : Pool D.Shared (Call platform config D)}
    (h : (handleIssue platform config D).system.Reachable p) (device : Str) (e : Int) (calls : Finset Nat)
    (g : Nat → Grant) (hCalls : ∀ i ∈ calls, Issued p i (g i) ∧ (g i).candidate.keyId = device ∧ (g i).epoch = e) :
    ∑ i ∈ calls, ((g i).blindSigs.length : Int) ≤ 2 * config.state.quota := by
  have hEpochs : ∀ i ∈ calls, (g i).request.epochId ≠ e → (g i).request.epochId = e + 1 := by
    intro i hi hOther
    obtain ⟨hIssued, -, hEpoch⟩ := hCalls i hi
    obtain ⟨-, hLabel, hSame | hBefore⟩ := issued_key h hIssued
    · omega
    · omega
  have hNow := sum_issued_le_quota hQuota h device e (calls.filter fun i => (g i).request.epochId = e) g
    fun i hi => ⟨(hCalls i (Finset.mem_filter.mp hi).1).1, (hCalls i (Finset.mem_filter.mp hi).1).2.1,
      (Finset.mem_filter.mp hi).2⟩
  have hNext := sum_issued_le_quota hQuota h device (e + 1) (calls.filter fun i => ¬(g i).request.epochId = e) g
    fun i hi => ⟨(hCalls i (Finset.mem_filter.mp hi).1).1, (hCalls i (Finset.mem_filter.mp hi).1).2.1,
      hEpochs i (Finset.mem_filter.mp hi).1 (Finset.mem_filter.mp hi).2⟩
  calc
    ∑ i ∈ calls, ((g i).blindSigs.length : Int) = _ :=
      (Finset.sum_filter_add_sum_filter_not calls (fun i => (g i).request.epochId = e) _).symm
    _ ≤ config.state.quota + config.state.quota := add_le_add hNow hNext
    _ = 2 * config.state.quota := by omega

end

/-- The store that the server is started with. -/
inductive Backend
  | memory (maxKeys : Nat)
  | azure (sha256 : Bytes → Digest) (stringify : DeviceRecord → Str)

def Backend.store (hmac : Bytes → Str → Digest) (state : IssuerState) : Backend → DeviceStore hmac state
  | .memory maxKeys => .memory hmac state maxKeys
  | .azure sha256 stringify => .azure hmac state sha256 stringify

/-- Every response with `k` signatures is backed by a charge of `k` by the same request, in the epoch it read; and no
device gets more than two quotas of signatures for one epoch. -/
theorem issuance_bound {platform : Platform} {config : Config} {backend : Backend} (hQuota : 0 < config.state.quota)
    {p : Pool (backend.store platform.hmac config.state).Shared
      (Call platform config (backend.store platform.hmac config.state))}
    (h : (handleIssue platform config (backend.store platform.hmac config.state)).system.Reachable p) :
    (∀ i g, Issued p i g → (g.keyId = g.keys.keyId ∧ ∃ now, loadedKeys config now g.epoch = some g.keys) ∧
      ∃ r, Charge (keyFor platform.hmac config.state.salt g.candidate.keyId)
        ((backend.store platform.hmac config.state).log (reservations p)) i g r) ∧
    (∀ device, RowAgrees
      ((backend.store platform.hmac config.state).row p.shared (keyFor platform.hmac config.state.salt device))
      (commitsOf (keyFor platform.hmac config.state.salt device)
        ((backend.store platform.hmac config.state).log (reservations p)))) ∧
    ∀ device e (calls : Finset Nat) (g : Nat → Grant),
      (∀ i ∈ calls, Issued p i (g i) ∧ (g i).candidate.keyId = device ∧ (g i).epoch = e) →
      ∑ i ∈ calls, ((g i).blindSigs.length : Int) ≤ 2 * config.state.quota := by
  refine ⟨fun i g hIssued => ⟨?_, issued_charge h hIssued⟩, fun device => ?_, sum_issued_le_two_quotas hQuota h⟩
  · obtain ⟨⟨hKeyId, hKey⟩, hEpoch, -⟩ := issued_key h hIssued
    rw [hEpoch]
    exact ⟨hKeyId, hKey⟩
  · exact (backend.store platform.hmac config.state).log_agrees (reservations_reachable h) device

/-! ## A registration over the Azure table, its write applied but not acknowledged -/

def testBackend : Backend := .azure (fun _ => AzureDevices.testDigest) AzureDevices.testStringify

def testHandler := handleIssue Issue.testIssuer Issue.testIssuerConfig
  (testBackend.store Issue.testIssuer.hmac Issue.testIssuerConfig.state)

def resumed (fault : Fault) : Calls.Label (Action Issue.testIssuer Issue.testIssuerConfig
    (testBackend.store Issue.testIssuer.hmac Issue.testIssuerConfig.state)) RemoteTable.Event :=
  .act 0 (.resume (AzureDevices.Action.resume fault))

def registered := testHandler.system.after
  ([.act 0 (.start [0] fun _ => 5), .act 0 (.keysLoaded (fun _ => 5) 2147483648), .act 0 (.reserve 0 (str "a"))] ++
    List.replicate 6 (resumed .none) ++ [resumed (.lost AzureDevices.timeout), resumed .none, .act 0 (.respond 5)])

def Call.signatures? : Call Issue.testIssuer Issue.testIssuerConfig
    (testBackend.store Issue.testIssuer.hmac Issue.testIssuerConfig.state) → Option Nat
  | .issued g _ => some g.blindSigs.length
  | _ => none

theorem issuance_bound_registered : (registered.calls 0).signatures? = some 1 ∧ ∃ g, Issued registered 0 g ∧
    ∃ r, Charge (keyFor Issue.testIssuer.hmac Issue.testIssuerConfig.state.salt g.candidate.keyId)
      ((testBackend.store Issue.testIssuer.hmac Issue.testIssuerConfig.state).log (reservations registered)) 0 g r := by
  have hIssued : (registered.calls 0).signatures? = some 1 := by decide +kernel
  have hReached : testHandler.system.Reachable registered := System.reachable_after _ _
  have hCharged := (issuance_bound (by decide) hReached).1
  refine ⟨hIssued, ?_⟩
  cases hCall : registered.calls 0 with
  | issued g reserve => exact ⟨g, ⟨reserve, hCall⟩, (hCharged 0 g ⟨reserve, hCall⟩).2⟩
  | _ => simp [hCall, Call.signatures?] at hIssued

end Columbia.Issuer.Issuance
