import Columbia.Issuer.EpochKeys
import Columbia.Issuer.Issuance

/-! # When a key signs

Runs of `handleIssue` with the clock. Time passes while a request awaits: each of its steps ends an await, which took
`elapsed` milliseconds, and runs at one time. The epoch of a key is checked when `keysForEpoch` resolves, and the key is
then held over the lookup and the reservation. A request keeps the time of that check and how long the two took.
-/
namespace Columbia.Issuer.Overlap
open Columbia.Js Columbia.Lib StateStore
open Columbia.Issuer.Issue (Platform Config Request Grant SigningKey currentEpoch isLive loadedKeys keysLoaded)
open Columbia.Issuer.Issuance (DeviceStore Backend)
set_option autoImplicit false

section
variable (platform : Platform) (config : Config) (D : DeviceStore platform.hmac config.state)

structure Shared where
  store : D.Shared
  clock : Int

/-- The request awaits since `since`. Its key was checked at `keyedAt`. -/
structure Call where
  call : Issuance.Call platform config D
  since : Int
  keyedAt : Int
  attestTook : Nat
  reserveTook : Nat
  signedAt : Option Int

inductive Move
  | start (body : Bytes)
  | keysLoaded (fuel : Nat)
  | lookup (record : Option (Option (Str × Int)))
  | reserve (replica : Nat) (commitID : Str)
  | resume (action : D.Action)
  | respond

def Move.action (t : Int) : Move platform config D → Issuance.Action platform config D
  | .start body => .start body fun _ => t
  | .keysLoaded fuel => .keysLoaded (fun _ => t) fuel
  | .lookup record => .lookup record
  | .reserve replica commitID => .reserve replica commitID
  | .resume action => .resume action
  | .respond => .respond t

def noted (move : Move platform config D) (elapsed : Nat) (call : Call platform config D)
    (next : Issuance.Call platform config D) : Call platform config D :=
  let t := call.since + elapsed
  match move with
  | .start _ => { call with call := next, since := t }
  | .keysLoaded _ => ⟨next, t, t, 0, 0, none⟩
  | .lookup _ | .reserve _ _ => { call with call := next, since := t, attestTook := call.attestTook + elapsed }
  | .resume _ => { call with call := next, since := t, reserveTook := call.reserveTook + elapsed }
  | .respond => { call with call := next, since := t, reserveTook := call.reserveTook + elapsed, signedAt := some t }

def act (i : Nat) (action : Move platform config D × Nat) (s : Shared platform config D)
    (call : Call platform config D) : Option (Shared platform config D × Call platform config D) :=
  if s.clock ≤ call.since + action.2 then
    match Issuance.act platform config D i (action.1.action platform config D (call.since + action.2)) s.store
      call.call with
    | some (store, next) =>
      some (⟨store, call.since + action.2⟩, noted platform config D action.1 action.2 call next)
    | none => none
  else none

def handleIssue (start : Int) :
    Calls (Shared platform config D) (Call platform config D) (Move platform config D × Nat) D.Env where
  start := ⟨D.calls.start, start⟩
  idle := ⟨.front .idle, start, start, 0, 0, none⟩
  act := act platform config D
  env event s := (D.calls.env event s.store).map fun store => { s with store := store }

end

/-! ## What the check at the lookup says later -/

section
variable {platform : Platform} {config : Config} {D : DeviceStore platform.hmac config.state}

def CurrentOrPrevious (config : Config) (t e : Int) : Prop := e = currentEpoch config t ∨ e = currentEpoch config t - 1

theorem currentEpoch_mono (hSeconds : 1 ≤ config.EPOCH_SECONDS) {t u : Int} (h : t ≤ u) :
    currentEpoch config t ≤ currentEpoch config u := by
  rw [EpochKeys.currentEpoch_eq hSeconds, EpochKeys.currentEpoch_eq hSeconds]
  exact Int.ediv_le_ediv (by omega) (Int.ediv_le_ediv (by omega) h)

theorem currentEpoch_lt_iff (hSeconds : 1 ≤ config.EPOCH_SECONDS) (t e : Int) :
    currentEpoch config t < e ↔ t < e * config.EPOCH_SECONDS * 1000 := by
  rw [EpochKeys.currentEpoch_eq hSeconds, Int.ediv_lt_iff_lt_mul (by omega), Int.ediv_lt_iff_lt_mul (by omega)]

/-- Once a key was live, it stays so up to the end of the epoch after its own, and no longer. -/
theorem currentOrPrevious_iff (hSeconds : 1 ≤ config.EPOCH_SECONDS) {t u e : Int} (hLive : isLive config t e = true)
    (hLater : t ≤ u) : CurrentOrPrevious config u e ↔ u < (e + 2) * config.EPOCH_SECONDS * 1000 := by
  simp only [isLive, decide_eq_true_eq] at hLive
  have hMono := currentEpoch_mono hSeconds hLater
  rw [← currentEpoch_lt_iff hSeconds, CurrentOrPrevious]
  omega

/-- With epochs that count backwards no time is left at the check. -/
theorem overlap_over_of_neg (hSeconds : config.EPOCH_SECONDS < 0) {t e : Int} (hLive : isLive config t e = true) :
    (e + 2) * config.EPOCH_SECONDS * 1000 ≤ t := by
  simp only [isLive, decide_eq_true_eq] at hLive
  have hEpoch : t / 1000 / config.EPOCH_SECONDS ≤ e + 2 := by
    have hCurrent : currentEpoch config t = t / 1000 / config.EPOCH_SECONDS - _ := Int.fdiv_eq_ediv
    split at hCurrent <;> omega
  have hEnd : (e + 2) * config.EPOCH_SECONDS ≤ t / 1000 / config.EPOCH_SECONDS * config.EPOCH_SECONDS :=
    Int.mul_le_mul_of_nonpos_right hEpoch hSeconds.le
  have hBefore := Int.ediv_mul_le (t / 1000) hSeconds.ne
  omega

/-- What is left of the overlap window of the key of epoch `e` at `t`. -/
def overlapLeft (config : Config) (t e : Int) : Int := (e + 2) * config.EPOCH_SECONDS * 1000 - t

theorem currentOrPrevious_of_elapsed {t u e : Int} (hLive : isLive config t e = true) (hLater : t ≤ u)
    (hElapsed : u - t < overlapLeft config t e) : CurrentOrPrevious config u e := by
  have hBefore : u < (e + 2) * config.EPOCH_SECONDS * 1000 := by
    unfold overlapLeft at hElapsed
    omega
  rcases lt_trichotomy config.EPOCH_SECONDS 0 with hNeg | hZero | hPos
  · have hOver := overlap_over_of_neg hNeg hLive
    omega
  · simp [isLive, hZero] at hLive
  · exact (currentOrPrevious_iff hPos hLive hLater).mpr hBefore

/-! ## The check before the lookup and the reservation -/

/-- The key's epoch was live when it was checked, and the awaits since then took the time until now. -/
structure Keyed (clock : Int) (call : Call platform config D) (req : Request) : Prop where
  began : call.since ≤ clock
  took : call.since = call.keyedAt + (call.attestTook + call.reserveTook)
  live : isLive config call.keyedAt req.signingEpochId = true

def CallInv (clock : Int) (call : Call platform config D) : Prop :=
  match call.call with
  | .front (.lookingUp req _ _ _) | .front (.attested req _ _) | .reserving req _ _ _ => Keyed clock call req
  | _ => True

theorem CallInv.later {clock clock' : Int} {call : Call platform config D} (h : CallInv clock call)
    (hLater : clock ≤ clock') : CallInv clock' call := by
  unfold CallInv at h ⊢
  split at h
  · exact ⟨h.began.trans hLater, h.took, h.live⟩
  · exact ⟨h.began.trans hLater, h.took, h.live⟩
  · exact ⟨h.began.trans hLater, h.took, h.live⟩
  · trivial

theorem loadedKeys_live {now e : Int} {keys : SigningKey} (h : loadedKeys config now e = some keys) :
    isLive config now e = true := by
  unfold loadedKeys at h
  split at h
  · assumption
  · cases h

theorem callInv_afterValidation {clock : Int} {call : Call platform config D} {req : Request} {keys : SigningKey}
    (h : Keyed clock call req) (result : AppAttest.Result)
    (hCall : call.call = .front (Issue.afterValidation req keys result)) : CallInv clock call := by
  cases result with
  | ok candidate =>
    rw [CallInv, hCall]
    exact h
  | rejected reason error =>
    rw [CallInv, hCall]
    trivial

theorem callInv_keysLoaded {t : Int} {fuel : Nat} {req : Request} {front : Issue.Call}
    (h : keysLoaded platform config (fun _ => t) fuel req = some front) :
    CallInv (D := D) t ⟨.front front, t, t, 0, 0, none⟩ := by
  unfold keysLoaded at h
  split at h
  · cases h
    trivial
  · rename_i keys hKeys
    have hKeyed : Keyed (D := D) t ⟨.front front, t, t, 0, 0, none⟩ req := ⟨le_rfl, by simp, loadedKeys_live hKeys⟩
    obtain ⟨validation, -, rfl⟩ := Option.map_eq_some_iff.mp h
    cases validation with
    | returned result => exact callInv_afterValidation hKeyed result rfl
    | lookingUp storeKeyId clientDataHash => exact hKeyed

theorem act_step {i : Nat} {move : Move platform config D} {elapsed : Nat} {s t : Shared platform config D}
    {call call' : Call platform config D} (h : act platform config D i (move, elapsed) s call = some (t, call')) :
    s.clock ≤ call.since + elapsed ∧ ∃ store next, t = ⟨store, call.since + elapsed⟩ ∧
      call' = noted platform config D move elapsed call next ∧
      Issuance.Step i s.store (move.action platform config D (call.since + elapsed)) call.call store next := by
  unfold act at h
  split at h
  · rename_i hClock
    split at h
    · rename_i store next hAct
      cases h
      exact ⟨hClock, store, next, rfl, rfl, Issuance.act_step hAct⟩
    · cases h
  · cases h

theorem act_inv {i : Nat} {action : Move platform config D × Nat} {s t : Shared platform config D}
    {call call' : Call platform config D} (hCall : CallInv s.clock call)
    (h : act platform config D i action s call = some (t, call')) : CallInv t.clock call' ∧ s.clock ≤ t.clock := by
  obtain ⟨move, elapsed⟩ := action
  obtain ⟨hClock, store, next, rfl, rfl, hStep⟩ := act_step h
  refine ⟨?_, hClock⟩
  obtain ⟨call, since, keyedAt, attestTook, reserveTook, signedAt⟩ := call
  cases move with
  | start body =>
    cases hStep
    cases Issue.readRequest platform config (fun _ => since + elapsed) body with
    | ok req => trivial
    | error response => trivial
  | keysLoaded fuel =>
    cases hStep with
    | keysLoaded hLoaded => exact callInv_keysLoaded hLoaded
  | lookup record =>
    cases hStep
    refine callInv_afterValidation ⟨le_rfl, ?_, hCall.live⟩ _ rfl
    have hTook : since = keyedAt + (attestTook + reserveTook) := hCall.took
    simp only [noted]
    omega
  | reserve replica commitID =>
    cases hStep
    refine ⟨le_rfl, ?_, hCall.live⟩
    have hTook : since = keyedAt + (attestTook + reserveTook) := hCall.took
    simp only [noted]
    omega
  | resume action =>
    cases hStep
    refine ⟨le_rfl, ?_, hCall.live⟩
    have hTook : since = keyedAt + (attestTook + reserveTook) := hCall.took
    simp only [noted]
    omega
  | respond =>
    cases hStep with
    | @respond now req keys candidate reserve outcome hOutcome =>
      cases Issuance.settled platform config (since + elapsed) req keys candidate outcome with
      | ok g => trivial
      | error response => trivial

theorem handleIssue_keyed {start : Int} {p : Pool (Shared platform config D) (Call platform config D)}
    (h : (handleIssue platform config D start).system.Reachable p) : ∀ i, CallInv p.shared.clock (p.calls i) := by
  have hIdle : ∀ i : Nat, CallInv start (handleIssue platform config D start).idle := fun _ => trivial
  refine (Calls.invariant (fun _ => True) (fun _ s call => CallInv s.clock call) trivial
    hIdle (fun p i action t call _ _ hInv hAct => ⟨trivial, (act_inv hInv hAct).1⟩)
    (fun p i j action t call _ _ _ hInv hOther hAct => hOther.later (act_inv hInv hAct).2) ?_ h).2
  intro p event t _ _ hEnv
  obtain ⟨store, -, rfl⟩ := Option.map_eq_some_iff.mp hEnv
  exact ⟨trivial, fun _ hInv => hInv⟩

/-! ## The signatures of a response -/

/-- The request was answered at `t`, with the signatures of `g`. -/
def Call.Signed (call : Call platform config D) (g : Grant) (t : Int) : Prop :=
  (∃ reserve, call.call = .issued g reserve) ∧ call.signedAt = some t

/-- The signatures were made in the epoch of their key or in the next. -/
def InOverlap (config : Config) (g : Grant) (t : Int) : Prop := CurrentOrPrevious config t g.epoch

/-- The lookup and the reservation took less time than was left of the overlap window when the key was checked. -/
def InTime (p : Pool (Shared platform config D) (Call platform config D)) :
    Calls.Label (Move platform config D × Nat) D.Env → Prop
  | .act i (.respond, elapsed) =>
    match (p.calls i).call with
    | .reserving req _ _ _ => ((p.calls i).attestTook + ((p.calls i).reserveTook + elapsed) : Int) <
        overlapLeft config (p.calls i).keyedAt req.signingEpochId
    | _ => True
  | _ => True

/-- Only a `respond` step signs, under the key that the request held. -/
theorem act_signed {i : Nat} {move : Move platform config D} {elapsed : Nat} {s t : Shared platform config D}
    {call call' : Call platform config D} (h : act platform config D i (move, elapsed) s call = some (t, call'))
    {g : Grant} {reserve : D.Local} (hIssued : call'.call = .issued g reserve) :
    (move = .respond ∧ call'.signedAt = some (call.since + elapsed)) ∧
      ∃ keys candidate reserve', call.call = .reserving g.request keys candidate reserve' ∧
        g.epoch = g.request.signingEpochId := by
  obtain ⟨hClock, store, next, -, rfl, hStep⟩ := act_step h
  obtain ⟨call, since, keyedAt, attestTook, reserveTook, signedAt⟩ := call
  cases move with
  | respond =>
    refine ⟨⟨rfl, rfl⟩, ?_⟩
    cases hStep with
    | @respond now req keys candidate reserve' outcome hOutcome =>
      change Issuance.answered platform config reserve'
        (Issuance.settled platform config (since + elapsed) req keys candidate outcome) = .issued g reserve at hIssued
      cases hSettled : Issuance.settled platform config (since + elapsed) req keys candidate outcome with
      | error response =>
        rw [hSettled] at hIssued
        cases hIssued
      | ok g' =>
        rw [hSettled] at hIssued
        cases hIssued
        obtain ⟨-, hGrant⟩ := Issuance.settled_eq_ok hSettled
        obtain ⟨hReq, -, -, hEpoch, -, -⟩ := Issuance.grant_length hGrant
        exact ⟨keys, candidate, reserve, hReq ▸ rfl, hReq ▸ hEpoch⟩
  | start body =>
    cases hStep
    cases hIssued
  | keysLoaded fuel =>
    cases hStep
    cases hIssued
  | lookup record =>
    cases hStep
    cases hIssued
  | reserve replica commitID =>
    cases hStep
    cases hIssued
  | resume action =>
    cases hStep
    cases hIssued

section
variable {start : Int} {p : Pool (Shared platform config D) (Call platform config D)}

/-- The signatures are made at the end of the two awaits that followed the check. -/
theorem respond_keyed (h : (handleIssue platform config D start).system.Reachable p) {i : Nat}
    {move : Move platform config D} {elapsed : Nat} {t : Shared platform config D} {call : Call platform config D}
    (hAct : act platform config D i (move, elapsed) p.shared (p.calls i) = some (t, call)) {g : Grant}
    {reserve : D.Local} (hIssued : call.call = .issued g reserve) :
    ∃ took : Nat, call.signedAt = some ((p.calls i).keyedAt + took) ∧
      isLive config (p.calls i).keyedAt g.epoch = true ∧
      (InTime p (.act i (move, elapsed)) ↔ took < overlapLeft config (p.calls i).keyedAt g.epoch) := by
  obtain ⟨⟨rfl, hSignedAt⟩, keys, candidate, reserve', hCall, hEpoch⟩ := act_signed hAct hIssued
  have hKeyed := handleIssue_keyed h i
  rw [CallInv, hCall] at hKeyed
  refine ⟨(p.calls i).attestTook + ((p.calls i).reserveTook + elapsed), ?_, hEpoch ▸ hKeyed.live, ?_⟩
  · have hTook := hKeyed.took
    rw [hSignedAt]
    congr 1
    push_cast
    omega
  · rw [hEpoch, InTime, hCall]
    push_cast
    rfl

theorem respond_in_overlap (h : (handleIssue platform config D start).system.Reachable p) {i : Nat}
    {move : Move platform config D} {elapsed : Nat} {s : Shared platform config D} {call : Call platform config D}
    (hAct : act platform config D i (move, elapsed) p.shared (p.calls i) = some (s, call)) {g : Grant} {t : Int}
    (hSigned : call.Signed g t) (hInTime : InTime p (.act i (move, elapsed))) : InOverlap config g t := by
  obtain ⟨⟨reserve, hIssued⟩, hSignedAt⟩ := hSigned
  obtain ⟨took, hEnd, hLive, hElapsed⟩ := respond_keyed h hAct hIssued
  cases hSignedAt.symm.trans hEnd
  have hLeft := hElapsed.mp hInTime
  exact currentOrPrevious_of_elapsed hLive (by omega) (by omega)

theorem runs_in_overlap (h : (handleIssue platform config D start).system.ReachedBy InTime p) {i : Nat} {g : Grant}
    {t : Int} (hSigned : (p.calls i).Signed g t) : InOverlap config g t := by
  induction h with
  | start =>
    obtain ⟨⟨reserve, hIssued⟩, -⟩ := hSigned
    cases hIssued
  | @step p q label hReached hInTime hNext ih =>
    cases label with
    | act j action =>
      obtain ⟨shared, call, hAct, rfl⟩ := Calls.system_next_act hNext
      by_cases hij : i = j
      · subst hij
        exact respond_in_overlap hReached.reachable hAct (by simpa using hSigned) hInTime
      · apply ih
        simpa [Function.update_of_ne hij] using hSigned
    | env event =>
      obtain ⟨shared, -, rfl⟩ := Calls.system_next_env hNext
      exact ih hSigned

end
end

/-- In every run whose requests are all answered in time, every signature is made in the epoch of its key or in the
next; and a request that is not answered in time makes its signatures later. -/
theorem signed_in_overlap_iff_in_time (platform : Platform) (config : Config) (backend : Backend) (start : Int) :
    let D := backend.store platform.hmac config.state
    (∀ p, (handleIssue platform config D start).system.ReachedBy InTime p →
      ∀ i g t, (p.calls i).Signed g t → InOverlap config g t) ∧
    (1 ≤ config.EPOCH_SECONDS → ∀ p, (handleIssue platform config D start).system.Reachable p →
      ∀ i elapsed q g t, (handleIssue platform config D start).system.next p (.act i (.respond, elapsed)) = some q →
        (q.calls i).Signed g t → (InOverlap config g t ↔ InTime p (.act i (.respond, elapsed)))) := by
  intro D
  refine ⟨fun p h i g t => runs_in_overlap h, ?_⟩
  intro hSeconds p h i elapsed q g t hNext hSigned
  obtain ⟨shared, call, hAct, rfl⟩ := Calls.system_next_act hNext
  obtain ⟨⟨reserve, hIssued⟩, hSignedAt⟩ : call.Signed g t := by simpa using hSigned
  obtain ⟨took, hEnd, hLive, hElapsed⟩ := respond_keyed h hAct hIssued
  cases hSignedAt.symm.trans hEnd
  rw [hElapsed, InOverlap, currentOrPrevious_iff hSeconds hLive (by omega), overlapLeft]
  omega

/-! ## A reservation that outlasts the key's epoch -/

def testKeys : Config :=
  { Issue.testIssuerConfig with imported := some (.manifest [(0, ⟨str "key", str "spki"⟩)]) }

def testStore : DeviceStore Issue.testIssuer.hmac testKeys.state := (Backend.memory 10).store _ _

def testHandler := handleIssue Issue.testIssuer testKeys testStore 0

def after (elapsed i : Nat) (move : Move Issue.testIssuer testKeys testStore) :
    Calls.Label (Move Issue.testIssuer testKeys testStore × Nat) testStore.Env := .act i (move, elapsed)

/-- A device registers in epoch 0. -/
def registering : List (Calls.Label (Move Issue.testIssuer testKeys testStore × Nat) testStore.Env) :=
  [after 5 0 (.start [0]), after 0 0 (.keysLoaded 2147483648), after 0 0 (.reserve 0 (str "a")),
   after 0 0 (.resume Replicas.Action.resume), after 0 0 (.resume Replicas.Action.resume)]

def registered := testHandler.system.after (registering ++ [after 0 0 .respond])

/-- One second before epoch 2 the device asks for a signature with the key of epoch 0. The write of its row takes that
second. -/
def crossed := testHandler.system.after (registering ++ [after 0 0 .respond] ++
  [after 172799000 1 (.start [1]), after 0 1 (.keysLoaded 2147483648),
   after 0 1 (.lookup (some (some (AppAttest.testCandidate.publicKeyPem, 0)))), after 0 1 (.reserve 0 (str "b")),
   after 0 1 (.resume Replicas.Action.resume), after 1000 1 (.resume Replicas.Action.resume), after 0 1 .respond])

def Call.signed? (call : Call Issue.testIssuer testKeys testStore) : Option (Int × Int) :=
  match call.call, call.signedAt with
  | .issued g _, some t => some (g.epoch, t)
  | _, _ => none

def Call.held? (call : Call Issue.testIssuer testKeys testStore) : Option (Int × Int × Int) :=
  match call.call with
  | .reserving req _ _ _ => some (call.keyedAt, req.signingEpochId, call.attestTook + call.reserveTook)
  | _ => none

theorem Call.signed_of_signed? {call : Call Issue.testIssuer testKeys testStore} {e t : Int}
    (hSigned : call.signed? = some (e, t)) : ∃ g, call.Signed g t ∧ g.epoch = e := by
  unfold Call.signed? at hSigned
  split at hSigned
  · rename_i g reserve t' hCall hSignedAt
    cases hSigned
    exact ⟨g, ⟨⟨reserve, hCall⟩, hSignedAt⟩, rfl⟩
  · cases hSigned

theorem registering_in_time : testHandler.system.ReachedBy InTime (testHandler.system.after registering) := by
  apply System.reachedBy_after
  intro label hLabel p
  simp only [registering, List.mem_cons, List.not_mem_nil, or_false] at hLabel
  rcases hLabel with rfl | rfl | rfl | rfl | rfl <;> trivial

theorem respond_in_time {labels : List (Calls.Label (Move Issue.testIssuer testKeys testStore × Nat) testStore.Env)}
    {i elapsed : Nat} {t e took : Int} (h : testHandler.system.ReachedBy InTime (testHandler.system.after labels))
    (hHeld : ((testHandler.system.after labels).calls i).held? = some (t, e, took))
    (hTime : took + elapsed < overlapLeft testKeys t e) :
    testHandler.system.ReachedBy InTime (testHandler.system.after (labels ++ [after elapsed i .respond])) := by
  apply System.reachedBy_after_concat _ h
  unfold Call.held? at hHeld
  split at hHeld
  · rename_i req keys candidate reserve hCall
    cases hHeld
    simp only [InTime, after, hCall]
    omega
  · cases hHeld

theorem registered_in_time : testHandler.system.ReachedBy InTime registered := by
  have hHeld : ((testHandler.system.after registering).calls 0).held? = some (5, 0, 0) := by decide +kernel
  exact respond_in_time registering_in_time hHeld (by decide)

theorem signed_in_overlap_iff_in_time_registered :
    ∃ g, (registered.calls 0).Signed g 5 ∧ g.epoch = 0 ∧ InOverlap testKeys g 5 := by
  have hAnswer : (registered.calls 0).signed? = some (0, 5) := by decide +kernel
  obtain ⟨g, hSigned, hEpoch⟩ := Call.signed_of_signed? hAnswer
  have hOverlap := (signed_in_overlap_iff_in_time Issue.testIssuer testKeys (.memory 10) 0).1 registered
    registered_in_time 0 g 5 hSigned
  exact ⟨g, hSigned, hEpoch, hOverlap⟩

theorem signed_after_overlap : ¬∀ p, testHandler.system.Reachable p →
    ∀ i g t, (p.calls i).Signed g t → InOverlap testKeys g t := by
  intro hClaim
  have hAnswer : (crossed.calls 1).signed? = some (0, 172800000) := by decide +kernel
  obtain ⟨g, hSigned, hEpoch⟩ := Call.signed_of_signed? hAnswer
  have hOverlap := hClaim crossed (System.reachable_after _ _) 1 g 172800000 hSigned
  have hCurrent : currentEpoch testKeys 172800000 = 2 := rfl
  rw [InOverlap, hEpoch, CurrentOrPrevious, hCurrent] at hOverlap
  omega

end Columbia.Issuer.Overlap
