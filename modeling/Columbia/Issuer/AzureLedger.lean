import Columbia.Issuer.AzureDevices

/-! # The Azure device rows as ledgers

Every effect on a device row is the charge of one call, decided on what the effect before it left there. So the
history of a row is a list of reservations that `Ledger` knows how to add up.
-/
namespace Columbia.Issuer.AzureDevices
open Columbia.Js Columbia.Lib StateStore Ledger
set_option autoImplicit false

section
variable {sha256 : Bytes → Digest} {hmac : Bytes → Str → Digest} {stringify : DeviceRecord → Str}
  {replica : Nat → IssuerState}

/-! ## The table keeps its history -/

theorem initializeStep_history {client call : Nat} {fingerprint : Str} {fault : Fault} {s t : Shared} {init : Init}
    {next : Init ⊕ Bool} (h : s.table.History)
    (hStep : initializeStep client call fingerprint fault s init = some (t, next)) : t.table.History := by
  cases initializeStep_initializes hStep with
  | createdTable promise => exact h.createTable fault
  | missedTable promise => exact h.createTable fault
  | createdConfig promise table hWrite => exact h.write hWrite
  | missedConfig promise table error hWrite => exact h.write hWrite
  | _ => exact h

theorem reserveStep_history {i : Nat} {q : Request} {fault : Fault} {s t : Shared} {phase phase' : Phase}
    (h : s.table.History) (hStep : reserveStep sha256 hmac stringify replica i q fault s phase = some (t, phase')) :
    t.table.History := by
  cases phase with
  | initializing init next =>
    simp only [reserveStep] at hStep
    split at hStep
    · cases hStep
    · rename_i hInit
      cases hStep
      exact initializeStep_history h hInit
    · rename_i hInit
      cases hStep
      exact initializeStep_history h hInit
    · rename_i hInit
      cases hStep
      exact initializeStep_history h hInit
  | reading attempt =>
    simp only [reserveStep] at hStep
    split at hStep <;> cases hStep <;> exact h
  | writing attempt etag value =>
    simp only [reserveStep] at hStep
    split at hStep
    · cases hStep
    · rename_i hWrite
      cases hStep
      exact h.write hWrite
  | readingBack attempt value error =>
    simp only [reserveStep] at hStep
    split at hStep
    · cases hStep
      exact h
    · split at hStep
      · cases hStep
        exact h
      · split at hStep <;> cases hStep <;> exact h
  | returned outcome => cases hStep

theorem issuers_history {p : Pool Shared Call} (h : (issuers sha256 hmac stringify replica).system.Reachable p) :
    p.shared.table.History := by
  refine (Calls.invariant (fun s : Shared => s.table.History) (fun _ _ _ => True) RemoteTable.history_empty
    (fun _ => trivial) ?_ (fun _ _ _ _ _ _ _ _ _ _ _ _ => trivial) ?_ h).1
  · intro p i action s l _ hHistory _ hAct
    refine ⟨?_, trivial⟩
    change act sha256 hmac stringify replica i action p.shared (p.calls i) = some (s, l) at hAct
    unfold act at hAct
    split at hAct
    · split at hAct
      · cases hAct
        exact hHistory
      · split at hAct <;> cases hAct
        exact hHistory
    · obtain ⟨⟨t, phase⟩, hStep, hEq⟩ := Option.map_eq_some_iff.mp hAct
      cases hEq
      exact reserveStep_history hHistory hStep
    · cases hAct
  · intro p event s _ hHistory hEnv
    obtain ⟨table, hSettle, rfl⟩ := Option.map_eq_some_iff.mp hEnv
    exact ⟨hHistory.settle hSettle, fun _ _ => trivial⟩

/-! ## The history as commits -/

def Entity.device? : Entity → Option DeviceRecord
  | .config _ => none
  | .device state => some state

def requestOf : Call → Option Request
  | .running q _ => some q
  | _ => none

/-- The charges of a history, with what the calls behind them reserved. -/
def logOf (calls : Nat → Call) (es : List (Effect Str Entity)) : List Commit :=
  es.filterMap fun e => if e.write.key = configKey then none
    else (requestOf (calls e.owner)).map fun q => ⟨e.owner, e.write.key, q.reservation⟩

def ChargedByCalls (hmac : Bytes → Str → Digest) (replica : Nat → IssuerState) (calls : Nat → Call)
    (es : List (Effect Str Entity)) : Prop :=
  ∀ e ∈ es, e.write.key ≠ configKey → ∃ q, requestOf (calls e.owner) = some q ∧ IsCharge hmac replica q e

theorem logOf_append {calls : Nat → Call} {es : List (Effect Str Entity)} {e : Effect Str Entity} {q : Request}
    (hKey : e.write.key ≠ configKey) (hCall : requestOf (calls e.owner) = some q) :
    logOf calls (es ++ [e]) = logOf calls es ++ [⟨e.owner, e.write.key, q.reservation⟩] := by
  rw [logOf, List.filterMap_append]
  simp [hKey, hCall, logOf]

theorem logOf_append_config {calls : Nat → Call} {es : List (Effect Str Entity)} {e : Effect Str Entity}
    (hKey : e.write.key = configKey) : logOf calls (es ++ [e]) = logOf calls es := by
  rw [logOf, List.filterMap_append]
  simp [hKey, logOf]

theorem count_logOf (calls : Nat → Call) (i : Nat) (es : List (Effect Str Entity)) :
    ((logOf calls es).map (·.call)).count i ≤ (es.filter fun e => e.owner = i ∧ e.write.key ≠ configKey).length := by
  induction es with
  | nil => exact le_rfl
  | cons e es ih =>
    rw [logOf] at ih
    rw [logOf, List.filterMap_cons, List.filter_cons]
    by_cases hKey : e.write.key = configKey
    · simpa [hKey] using ih
    · cases hCall : requestOf (calls e.owner) with
      | none =>
        simp only [hKey, if_false, Option.map_none]
        refine ih.trans ?_
        split
        · exact Nat.le_succ _
        · exact le_rfl
      | some q =>
        by_cases hOwner : e.owner = i
        · simpa [hKey, hCall, hOwner] using ih
        · simpa [hKey, hCall, hOwner] using ih

theorem asRow_device (prior : Option (Nat × DeviceRecord)) :
    ((asRow prior).bind fun p => p.2.device?) = prior.map (·.2) := by
  cases prior <;> rfl

/-- The row is the sum of its history, and the history is lawful. -/
theorem chain_ledger {quota : Int} (hQuota : ∀ c, (replica c).quota = quota) {calls : Nat → Call} {key : Str}
    (hKey : key ≠ configKey) {es : List (Effect Str Entity)} {row : Option (Nat × Entity)}
    (h : RemoteTable.Chain key es row) (hCharges : ChargedByCalls hmac replica calls es) :
    RowAgrees (row.bind fun p => p.2.device?) (commitsOf key (logOf calls es)) ∧
      Lawful quota (commitsOf key (logOf calls es)) := by
  induction h with
  | nil => exact ⟨rowAgrees_nil, lawful_nil⟩
  | @other es row e _ hOther ih =>
    obtain ⟨hAgrees, hLawful⟩ := ih fun e he => hCharges e (List.mem_append_left _ he)
    have hSame : commitsOf key (logOf calls (es ++ [e])) = commitsOf key (logOf calls es) := by
      by_cases hConfig : e.write.key = configKey
      · rw [logOf_append_config hConfig]
      · obtain ⟨q, hCall, -⟩ := hCharges e (List.mem_append_right _ List.mem_cons_self) hConfig
        rw [logOf_append hConfig hCall, commitsOf_append, if_neg hOther, List.append_nil]
    rw [hSame]
    exact ⟨hAgrees, hLawful⟩
  | @own es row e etag _ hOwn hBefore ih =>
    obtain ⟨hAgrees, hLawful⟩ := ih fun e he => hCharges e (List.mem_append_left _ he)
    have hConfig : e.write.key ≠ configKey := hOwn ▸ hKey
    obtain ⟨q, hCall, prior, etag', value, hWrite, hPrior, hDecide⟩ :=
      hCharges e (List.mem_append_right _ List.mem_cons_self) hConfig
    rw [hQuota] at hDecide
    obtain ⟨-, rfl, hAdmits⟩ := decideReservation_eq_put hDecide
    have hRow : (row.bind fun p => p.2.device?) = prior.map (·.2) := by
      rw [← hBefore, hPrior, asRow_device]
    rw [hRow] at hAgrees
    rw [logOf_append hConfig hCall, commitsOf_append, if_pos hOwn, hWrite]
    exact ⟨rowAgrees_charged q.commitID hAdmits hAgrees, lawful_charged hAdmits hAgrees hLawful⟩

/-! ## Every reachable table -/

theorem issuers_charged {p : Pool Shared Call} (h : (issuers sha256 hmac stringify replica).system.Reachable p) :
    ChargedByCalls hmac replica p.calls p.shared.table.effects := by
  intro e he hKey
  have hMem : e ∈ charges p.shared.table e.owner := List.mem_filter.mpr ⟨he, by simpa using hKey⟩
  have hLocal := (issuers_invariant h).2 e.owner
  cases hCall : p.calls e.owner with
  | idle =>
    rw [hCall] at hLocal
    rw [And.left hLocal] at hMem
    cases hMem
  | refused =>
    rw [hCall] at hLocal
    rw [And.left hLocal] at hMem
    cases hMem
  | running q phase =>
    rw [hCall] at hLocal
    exact ⟨q, rfl, CallInv.charged hLocal e hMem⟩

def azureLog (p : Pool Shared Call) : List Commit := logOf p.calls p.shared.table.effects

theorem azureLog_lawful {quota : Int} (hQuota : ∀ c, (replica c).quota = quota) {p : Pool Shared Call}
    (h : (issuers sha256 hmac stringify replica).system.Reachable p) {key : Str} (hKey : key ≠ configKey) :
    Lawful quota (commitsOf key (azureLog p)) :=
  (chain_ledger hQuota hKey (issuers_history h key) (issuers_charged h)).2

theorem azureLog_calls_nodup {p : Pool Shared Call} (h : (issuers sha256 hmac stringify replica).system.Reachable p) :
    ((azureLog p).map (·.call)).Nodup := by
  refine List.nodup_iff_count_le_one.mpr fun i => ?_
  have hOne := ((issuers_invariant h).2 i).undecided
  rw [Undecided] at hOne
  have hCount := count_logOf p.calls i p.shared.table.effects
  change _ ≤ (charges p.shared.table i).length at hCount
  rw [azureLog]
  omega

theorem mem_azureLog {p : Pool Shared Call} (h : (issuers sha256 hmac stringify replica).system.Reachable p) {i : Nat}
    {q : Request} (hReturned : Returned p i q .ok) :
    (⟨i, rowKey hmac replica q, q.reservation⟩ : Commit) ∈ azureLog p := by
  have hLocal := (issuers_invariant h).2 i
  rw [hReturned] at hLocal
  obtain ⟨e, he⟩ := List.length_eq_one_iff.mp (And.left (CallInv.standing hLocal))
  have hMem : e ∈ charges p.shared.table i := by
    rw [he]
    exact List.mem_cons_self
  obtain ⟨prior, etag, value, hWrite, -, -⟩ := CallInv.charged hLocal e hMem
  obtain ⟨hEffect, hOwner⟩ := List.mem_filter.mp hMem
  simp only [decide_eq_true_eq] at hOwner
  obtain ⟨rfl, hKey⟩ := hOwner
  refine List.mem_filterMap.mpr ⟨e, hEffect, ?_⟩
  rw [if_neg hKey, hReturned, hWrite]
  rfl

end
end Columbia.Issuer.AzureDevices
