import Columbia.Issuer.Ledger
import Columbia.Lib.Transition

/-! # Issuer replicas over one memory backend

Any number of `reserve` calls run at once; each backend `get` and each `put` is one atomic step. Replicas
of one configuration differ in nothing `reserve` reads here (`operationTimeoutMs` only feeds the deadline,
which the memory backend ignores), so a call is identified by its number alone.
The log lists the calls in the order in which their writes went through.
-/
namespace Columbia.Issuer.Replicas
open Columbia.Js Columbia.Lib StateStore Ledger
set_option autoImplicit false

structure Shared where
  backend : MemoryBackend
  log : List Commit

inductive Call
  | idle
  | refused
  | running (r : Reservation) (commitID : Str) (phase : Phase Nat)

inductive Action
  | start (args : ReserveArgs) (commitID : Str)
  | resume

section
variable (hmac : Bytes → Str → Digest) (cfg : IssuerState) (maxKeys : Nat)

def rowKey (r : Reservation) : Str := keyFor hmac cfg.salt r.keyId

def act (i : Nat) : Action → Shared → Call → Option (Shared × Call)
  | .start args commitID, s, .idle =>
    match validated args with
    | none => some (s, .refused)
    | some r => some (s, .running r commitID (.getting 0))
  | .resume, s, .running r commitID (.getting attempt) =>
    some (s, .running r commitID (afterGet cfg.quota r commitID attempt (s.backend.get (rowKey hmac cfg r))))
  | .resume, s, .running r commitID (.putting attempt etag value) =>
    match s.backend.put maxKeys (rowKey hmac cfg r) etag value with
    | none => some (s, .running r commitID (.returned .unavailable))
    | some (true, b) => some (⟨b, s.log ++ [⟨i, rowKey hmac cfg r, r⟩]⟩, .running r commitID (.returned .ok))
    | some (false, b) => some ({ s with backend := b }, .running r commitID (nextAttempt attempt))
  | _, _, _ => none

def replicas : Calls Shared Call Action Empty where
  start := ⟨.empty, []⟩
  idle := .idle
  act := act hmac cfg maxKeys
  env := nofun

def committed (i : Nat) : Call → List Commit
  | .running r _ (.returned .ok) => [⟨i, rowKey hmac cfg r, r⟩]
  | _ => []

structure CallInv (i : Nat) (s : Shared) (call : Call) : Prop where
  logged : s.log.filter (·.call = i) = committed hmac cfg i call
  decided : ∀ r commitID attempt etag value, call = .running r commitID (.putting attempt etag value) →
    ∃ prior, Current s.backend (rowKey hmac cfg r) prior ∧
      decideReservation cfg.quota r commitID prior = .put etag value

variable {hmac cfg maxKeys}

/-- Every step of a call: it starts, reads, or writes. -/
theorem act_cases {i : Nat} {action : Action} {s s' : Shared} {call call' : Call}
    (h : act hmac cfg maxKeys i action s call = some (s', call')) :
    (s' = s ∧ call = .idle ∧ (call' = .refused ∨ ∃ r commitID, call' = .running r commitID (.getting 0))) ∨
    (∃ r commitID attempt, s' = s ∧ call = .running r commitID (.getting attempt) ∧
      call' = .running r commitID (afterGet cfg.quota r commitID attempt (s.backend.get (rowKey hmac cfg r)))) ∨
    (∃ r commitID attempt etag value, call = .running r commitID (.putting attempt etag value) ∧
      ((s' = s ∧ call' = .running r commitID (.returned .unavailable)) ∨
      (∃ b, s.backend.put maxKeys (rowKey hmac cfg r) etag value = some (true, b) ∧
        s' = ⟨b, s.log ++ [⟨i, rowKey hmac cfg r, r⟩]⟩ ∧ call' = .running r commitID (.returned .ok)) ∨
      (∃ b, s.backend.put maxKeys (rowKey hmac cfg r) etag value = some (false, b) ∧
        s' = { s with backend := b } ∧ call' = .running r commitID (nextAttempt attempt)))) := by
  unfold act at h
  split at h
  · split at h <;> cases h
    · exact .inl ⟨rfl, rfl, .inl rfl⟩
    · exact .inl ⟨rfl, rfl, .inr ⟨_, _, rfl⟩⟩
  · cases h
    exact .inr (.inl ⟨_, _, _, rfl, rfl, rfl⟩)
  · refine .inr (.inr ⟨_, _, _, _, _, rfl, ?_⟩)
    split at h <;> cases h
    · exact .inl ⟨rfl, rfl⟩
    · exact .inr (.inl ⟨_, ‹_›, rfl, rfl⟩)
    · exact .inr (.inr ⟨_, ‹_›, rfl, rfl⟩)
  · cases h

theorem committed_afterGet (i : Nat) (r : Reservation) (commitID : Str) (attempt : Nat)
    (prior : Option (Nat × DeviceRecord)) :
    committed hmac cfg i (.running r commitID (afterGet cfg.quota r commitID attempt prior)) = [] := by
  unfold afterGet
  cases hDecide : decideReservation cfg.quota r commitID prior with
  | put etag value => rfl
  | done outcome =>
    cases outcome with
    | ok => exact absurd hDecide (decideReservation_ne_ok _ _ _ _)
    | rejected reason => rfl
    | unavailable => rfl

theorem afterGet_eq_putting {quota : Int} {r : Reservation} {commitID : Str} {attempt n : Nat}
    {prior : Option (Nat × DeviceRecord)} {etag : Option Nat} {value : DeviceRecord}
    (h : afterGet quota r commitID attempt prior = .putting n etag value) :
    decideReservation quota r commitID prior = .put etag value := by
  unfold afterGet at h
  split at h
  · cases h
  · cases h
    assumption

theorem nextAttempt_cases (attempt : Nat) :
    (∃ n, (nextAttempt attempt : Phase Nat) = .getting n) ∨
      (nextAttempt attempt : Phase Nat) = .returned .unavailable := by
  unfold nextAttempt
  split
  · exact .inl ⟨_, rfl⟩
  · exact .inr rfl

theorem callInv_of_not_putting {i : Nat} {s : Shared} {call : Call}
    (hLogged : s.log.filter (·.call = i) = committed hmac cfg i call)
    (hPhase : ∀ r commitID attempt etag value, call ≠ .running r commitID (.putting attempt etag value)) :
    CallInv hmac cfg i s call :=
  ⟨hLogged, fun _ _ _ _ _ hCall => absurd hCall (hPhase _ _ _ _ _)⟩

theorem callInv_idle (i : Nat) : CallInv hmac cfg i ⟨.empty, []⟩ .idle :=
  callInv_of_not_putting rfl nofun

theorem own_step {i : Nat} {action : Action} {s s' : Shared} {call call' : Call}
    (hLedger : LedgerInv cfg.quota s.backend s.log) (hCall : CallInv hmac cfg i s call)
    (h : act hmac cfg maxKeys i action s call = some (s', call')) :
    LedgerInv cfg.quota s'.backend s'.log ∧ CallInv hmac cfg i s' call' := by
  have hLogged := hCall.logged
  rcases act_cases h with ⟨rfl, rfl, rfl | ⟨r, commitID, rfl⟩⟩ | ⟨r, commitID, attempt, rfl, rfl, rfl⟩ |
      ⟨r, commitID, attempt, etag, value, rfl, ⟨rfl, rfl⟩ | ⟨b, hPut, rfl, rfl⟩ | ⟨b, hPut, rfl, rfl⟩⟩
  · exact ⟨hLedger, callInv_of_not_putting hLogged nofun⟩
  · exact ⟨hLedger, callInv_of_not_putting hLogged nofun⟩
  · refine ⟨hLedger, by rw [committed_afterGet]; exact hLogged, ?_⟩
    intro _ _ _ etag value hPhase
    injection hPhase with hr hc hPhase
    subst hr hc
    exact ⟨_, hLedger.current _, afterGet_eq_putting hPhase⟩
  · exact ⟨hLedger, callInv_of_not_putting hLogged nofun⟩
  · obtain ⟨prior, hCurrent, hDecide⟩ := hCall.decided _ _ _ _ _ rfl
    refine ⟨hLedger.put hCurrent hDecide hPut, callInv_of_not_putting ?_ nofun⟩
    have hNone : s.log.filter (·.call = i) = [] := hLogged
    simp [committed, List.filter_append, hNone]
  · obtain ⟨-, rfl⟩ | ⟨hWon, -⟩ := put_eq_some hPut
    · rcases nextAttempt_cases attempt with ⟨n, hNext⟩ | hNext <;> rw [hNext] <;>
        exact ⟨hLedger, callInv_of_not_putting hLogged nofun⟩
    · cases hWon

theorem other_step {i j : Nat} {action : Action} {s s' : Shared} {call call' other : Call} (hij : j ≠ i)
    (hOther : CallInv hmac cfg j s other) (h : act hmac cfg maxKeys i action s call = some (s', call')) :
    CallInv hmac cfg j s' other := by
  have hKept : ∀ etag value won b r, s.backend.put maxKeys (rowKey hmac cfg r) etag value = some (won, b) →
      ∀ log, log.filter (·.call = j) = committed hmac cfg j other → CallInv hmac cfg j ⟨b, log⟩ other := by
    intro etag value won b r hPut log hLog
    refine ⟨hLog, fun r' commitID attempt etag' value' hPhase => ?_⟩
    obtain ⟨prior, hCurrent, hDecide⟩ := hOther.decided _ _ _ _ _ hPhase
    exact ⟨prior, hCurrent.put hPut, hDecide⟩
  rcases act_cases h with ⟨rfl, -, -⟩ | ⟨r, commitID, attempt, rfl, -, -⟩ |
      ⟨r, commitID, attempt, etag, value, -, ⟨rfl, -⟩ | ⟨b, hPut, rfl, -⟩ | ⟨b, hPut, rfl, -⟩⟩
  · exact hOther
  · exact hOther
  · exact hOther
  · refine hKept _ _ _ _ _ hPut _ ?_
    rw [List.filter_append, hOther.logged]
    simp [Ne.symm hij]
  · exact hKept _ _ _ _ _ hPut _ hOther.logged

theorem replicas_invariant {p : Pool Shared Call} (h : (replicas hmac cfg maxKeys).system.Reachable p) :
    LedgerInv cfg.quota p.shared.backend p.shared.log ∧ ∀ i, CallInv hmac cfg i p.shared (p.calls i) :=
  Calls.invariant (fun s => LedgerInv cfg.quota s.backend s.log) (CallInv hmac cfg) (ledgerInv_empty _)
    (fun i => callInv_idle i) (fun _ _ _ _ _ _ hG hL hAct => own_step hG hL hAct)
    (fun _ _ _ _ _ _ _ hij _ _ hL hAct => other_step hij hL hAct)
    (fun _ event => nomatch event) h

def ReturnedOk (p : Pool Shared Call) (i : Nat) (r : Reservation) : Prop :=
  ∃ commitID, p.calls i = .running r commitID (.returned .ok)

theorem mem_log_iff {p : Pool Shared Call} (h : (replicas hmac cfg maxKeys).system.Reachable p)
    (c : Commit) : c ∈ p.shared.log ↔ ReturnedOk p c.call c.reservation ∧ c.key = rowKey hmac cfg c.reservation := by
  have hLogged := ((replicas_invariant h).2 c.call).logged
  have hMem : c ∈ p.shared.log ↔ c ∈ p.shared.log.filter (·.call = c.call) := by simp [List.mem_filter]
  rw [hMem, hLogged, ReturnedOk]
  constructor
  · intro hc
    unfold committed at hc
    split at hc
    · rename_i r commitID hPhase
      obtain hc := List.mem_singleton.mp hc
      rw [hc]
      exact ⟨⟨commitID, by rw [← hPhase, hc]⟩, rfl⟩
    · cases hc
  · rintro ⟨⟨commitID, hPhase⟩, hKey⟩
    obtain ⟨call, key, r⟩ := c
    simp only at hPhase hKey
    simp [hPhase, committed, hKey]

theorem log_calls_nodup {p : Pool Shared Call} (h : (replicas hmac cfg maxKeys).system.Reachable p) :
    (p.shared.log.map (·.call)).Nodup := by
  refine List.nodup_iff_count_le_one.mpr fun i => ?_
  have hLogged := ((replicas_invariant h).2 i).logged
  have hCount : (p.shared.log.map (·.call)).count i = (p.shared.log.filter (·.call = i)).length := by
    rw [List.count, List.countP_map, List.countP_eq_length_filter]
    congr 1
  rw [hCount, hLogged]
  unfold committed
  split <;> simp

/-- Counter and quota safety of any number of replicas over one backend, in any interleaving. -/
theorem reserve_counter_and_quota_safe (hQuota : 0 < cfg.quota) {p : Pool Shared Call}
    (h : (replicas hmac cfg maxKeys).system.Reachable p) :
    ((p.shared.log.map (·.call)).Nodup ∧ ∀ i r, ReturnedOk p i r ↔ ⟨i, rowKey hmac cfg r, r⟩ ∈ p.shared.log) ∧
    ∀ key,
      (commitsOf key p.shared.log).Pairwise (fun a b => b.mode = .assertion → a.signCount < b.signCount) ∧
      ∀ e (calls : Finset Nat) (res : Nat → Reservation),
        (∀ i ∈ calls, ReturnedOk p i (res i) ∧ rowKey hmac cfg (res i) = key ∧ (res i).epoch = e) →
        ∑ i ∈ calls, (res i).count ≤ cfg.quota := by
  have hInv := (replicas_invariant h).1
  refine ⟨⟨log_calls_nodup h, fun i r => ?_⟩, fun key => ⟨(hInv.lawful key).increasing, ?_⟩⟩
  · rw [mem_log_iff h]
    simp
  · intro e calls res hCalls
    refine (sum_count_le_spent (log_calls_nodup h) key e calls res fun i hi => ?_).trans
      ((hInv.lawful key).within hQuota e)
    obtain ⟨hOk, hKey, hEpoch⟩ := hCalls i hi
    exact ⟨(mem_log_iff h _).mpr ⟨hOk, hKey.symm⟩, hEpoch⟩

end

def testState : IssuerState := smallState

def testHmac (_ : Bytes) (_ : Str) : Digest := zeroDigest

def testArgs (mode : String) (signCount : Int) : ReserveArgs :=
  ⟨str "canonical-key", .str (str mode), .str (str "public-key-fixture"), int signCount, int 10, int 2⟩

/-- One registration, then two replicas racing with one assertion: both read, call 2 writes first. -/
def race : List (Calls.Label Action Empty) :=
  [.act 0 (.start (testArgs "attestation" 0) (str "a")), .act 0 .resume, .act 0 .resume,
   .act 1 (.start (testArgs "assertion" 1) (str "b")), .act 2 (.start (testArgs "assertion" 1) (str "c")),
   .act 1 .resume, .act 2 .resume, .act 2 .resume, .act 1 .resume, .act 1 .resume]

theorem reserve_counter_and_quota_safe_race :
    ((replicas testHmac testState 500000).system.after race).shared.log.map (·.call) = [0, 2] ∧
    0 < testState.quota ∧ ∀ key,
      (commitsOf key ((replicas testHmac testState 500000).system.after race).shared.log).Pairwise
        fun a b => b.mode = .assertion → a.signCount < b.signCount := by
  refine ⟨by decide, by decide, fun key => ?_⟩
  exact ((reserve_counter_and_quota_safe (by decide) (System.reachable_after _ race)).2 key).1

end Columbia.Issuer.Replicas
