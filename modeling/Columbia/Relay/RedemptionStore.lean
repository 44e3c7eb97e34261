import Columbia.Js.Value
import Columbia.Lib.RemoteTable
import Columbia.Lib.Transition
import Mathlib.Data.List.Nodup

/-! # Redemption stores of the relay

`memoryRedemptionStore` is one atomic set. `azureRedemptionStore` creates a row that carries the caller's
claim and reads it back when the create is not acknowledged; every table operation is one step and may fail,
take effect unseen, or take effect late. Claim identifiers are unique: a used one cannot be drawn again.
-/
namespace Columbia.Relay.RedemptionStore
open Columbia.Js Columbia.Lib
set_option autoImplicit false

/-- `verdict` is a returned boolean, `unavailable` a thrown `RedemptionUnavailable`. -/
inductive Result
  | verdict (admitted : Bool)
  | unavailable
  deriving DecidableEq

structure MemoryStore where
  maxKeys : Nat
  spent : List Str
  maxKeys_pos : 1 ≤ maxKeys

def memoryRedemptionStore (maxKeys : Value) : Option MemoryStore :=
  match h : safeIntegerFrom? 1 maxKeys with
  | some n => some ⟨n.toNat, [], by have := (safeIntegerFrom?_eq_some h).1; omega⟩
  | none => none

def MemoryStore.redeem (store : MemoryStore) (fingerprint nullifier : Str) : MemoryStore × Result :=
  let key := fingerprint ++ str ":" ++ nullifier
  if key ∈ store.spent then (store, .verdict false)
  else if store.maxKeys ≤ store.spent.length then (store, .unavailable)
  else ({ store with spent := store.spent ++ [key] }, .verdict true)

def hex64 (s : Str) : Bool := s.length = 64 ∧ s.all fun c => (97 ≤ c ∧ c ≤ 102) ∨ (48 ≤ c ∧ c ≤ 57)

structure Request where
  client : Nat
  fingerprint : Str
  nullifier : Str
  claimID : Str
  deriving DecidableEq

def Request.key (r : Request) : Str × Str := (str "spent-v1-" ++ r.fingerprint, r.nullifier)

inductive Phase
  | entering
  | creatingTable (promise : Nat)
  | awaiting (promise : Nat)
  | creatingEntity
  | readingBack
  | returned (result : Result)
  deriving DecidableEq

/-- The table, each client's `ready`, and the claims drawn so far with the calls that drew them. -/
structure Shared where
  table : RemoteTable (Str × Str) Str
  memo : Memo
  claims : List (Nat × Request)

def Shared.empty : Shared := ⟨.empty, .empty, []⟩

def redeemStart (call : Nat) (s : Shared) (r : Request) : Option (Shared × Phase) :=
  if r.claimID ∈ s.claims.map (·.2.claimID) then none
  else some ({ s with claims := s.claims ++ [(call, r)] },
    if hex64 r.fingerprint ∧ hex64 r.nullifier then .entering else .returned .unavailable)

def redeemResume (call : Nat) (fault : Fault) (s : Shared) (r : Request) : Phase → Option (Shared × Phase)
  | .entering =>
    match s.memo.ready r.client with
    | some promise => some (s, .awaiting promise)
    | none => some ({ s with memo := s.memo.arm r.client }, .creatingTable s.memo.next)
  | .creatingTable promise =>
    match s.table.createTable fault with
    | (table, .ok ()) => some ({ s with table := table, memo := s.memo.fulfil promise }, .creatingEntity)
    | (table, .error error) =>
      if error.statusCode = some 409 then
        some ({ s with table := table, memo := s.memo.fulfil promise }, .creatingEntity)
      else some ({ s with table := table, memo := s.memo.reject r.client promise }, .returned .unavailable)
  | .awaiting promise =>
    match s.memo.settled promise with
    | none => none
    | some true => some (s, .creatingEntity)
    | some false => some (s, .returned .unavailable)
  | .creatingEntity =>
    match s.table.write (fun _ => true) call ⟨r.key, none, r.claimID⟩ fault with
    | none => none
    | some (table, .ok ()) => some ({ s with table := table }, .returned (.verdict true))
    | some (table, .error _) => some ({ s with table := table }, .readingBack)
  | .readingBack =>
    match s.table.read r.key fault with
    | .ok row => some (s, .returned (.verdict (row.2 = r.claimID)))
    | .error _ => some (s, .returned .unavailable)
  | .returned _ => none

def Shared.settle (s : Shared) (event : RemoteTable.Event) : Option Shared :=
  (s.table.settle event).map fun table => { s with table := table }

/-- Rows and pending creates carry claims that were drawn for their own key. -/
structure SharedInv (s : Shared) : Prop where
  unique : (s.claims.map (·.2.claimID)).Nodup
  rows : ∀ key row, s.table.rows key = some row → ∃ c ∈ s.claims, c.2.claimID = row.2 ∧ c.2.key = key
  inflight : ∀ w ∈ s.table.inflight, w.2.etag = none ∧ ∃ c ∈ s.claims, c.2.claimID = w.2.value ∧ c.2.key = w.2.key

structure Extends (s t : Shared) : Prop where
  claims : ∀ c ∈ s.claims, c ∈ t.claims
  rows : ∀ key row, s.table.rows key = some row → t.table.rows key = some row

structure CallInv (call : Nat) (s : Shared) (r : Request) (phase : Phase) : Prop where
  claimed : (call, r) ∈ s.claims
  won : phase = .returned (.verdict true) → ∃ etag, s.table.rows r.key = some (etag, r.claimID)
  lost : phase = .returned (.verdict false) → ∃ etag c, c ∈ s.claims ∧ c.2.claimID ≠ r.claimID ∧ c.2.key = r.key ∧
    s.table.rows r.key = some (etag, c.2.claimID)

theorem Extends.refl (s : Shared) : Extends s s := ⟨fun _ h => h, fun _ _ h => h⟩

theorem CallInv.extends {call : Nat} {s t : Shared} {r : Request} {phase : Phase} (h : CallInv call s r phase)
    (hst : Extends s t) : CallInv call t r phase := by
  refine ⟨hst.claims _ h.claimed, fun hWon => ?_, fun hLost => ?_⟩
  · obtain ⟨etag, hRow⟩ := h.won hWon
    exact ⟨etag, hst.rows _ _ hRow⟩
  · obtain ⟨etag, c, hc, hNe, hKey, hRow⟩ := h.lost hLost
    exact ⟨etag, c, hst.claims c hc, hNe, hKey, hst.rows _ _ hRow⟩

theorem callInv_of_not_verdict {call : Nat} {s : Shared} {r : Request} {phase : Phase}
    (hClaimed : (call, r) ∈ s.claims) (hPhase : ∀ b, phase ≠ .returned (.verdict b)) : CallInv call s r phase :=
  ⟨hClaimed, fun h => absurd h (hPhase true), fun h => absurd h (hPhase false)⟩

theorem SharedInv.commit {s : Shared} (h : SharedInv s) (owner : Nat) {w : Write (Str × Str) Str}
    (hCreate : w.etag = none) (hClaim : ∃ c ∈ s.claims, c.2.claimID = w.value ∧ c.2.key = w.key) :
    SharedInv { s with table := s.table.commit owner w } ∧ Extends s { s with table := s.table.commit owner w } := by
  refine ⟨⟨h.unique, fun key row hRow => ?_, by simpa using h.inflight⟩, fun _ hc => hc, fun key row hRow =>
    RemoteTable.commit_create_keeps hRow owner fun _ => hCreate⟩
  rcases s.table.commit_cases owner w with ⟨-, hSame⟩ | ⟨-, -, hNew⟩
  · exact h.rows key row (by simpa [hSame] using hRow)
  · simp only [hNew, RemoteTable.performed_rows] at hRow
    split at hRow
    · cases hRow
      obtain ⟨c, hc, hValue, hKey⟩ := hClaim
      exact ⟨c, hc, hValue, by rw [hKey, ‹key = w.key›]⟩
    · exact h.rows key row hRow

theorem SharedInv.of_same {s t : Shared} (h : SharedInv s) (hClaims : t.claims = s.claims)
    (hRows : t.table.rows = s.table.rows) (hInflight : t.table.inflight = s.table.inflight) :
    SharedInv t ∧ Extends s t :=
  ⟨⟨hClaims ▸ h.unique, hRows ▸ hClaims ▸ h.rows, hInflight ▸ hClaims ▸ h.inflight⟩,
    ⟨hClaims ▸ fun _ hc => hc, hRows ▸ fun _ _ hRow => hRow⟩⟩

theorem redeemStart_inv {call : Nat} {s t : Shared} {r : Request} {phase : Phase} (h : SharedInv s)
    (hStart : redeemStart call s r = some (t, phase)) :
    SharedInv t ∧ Extends s t ∧ CallInv call t r phase ∧ t.claims = s.claims ++ [(call, r)] := by
  unfold redeemStart at hStart
  split at hStart
  · cases hStart
  · rename_i hFresh
    cases hStart
    have hKeep : ∀ c ∈ s.claims, c ∈ s.claims ++ [(call, r)] := fun c hc => List.mem_append_left _ hc
    refine ⟨⟨?_, fun key row hRow => ?_, fun w hw => ?_⟩, ⟨hKeep, fun _ _ hRow => hRow⟩, ?_, rfl⟩
    · rw [List.map_append, List.nodup_append]
      refine ⟨h.unique, List.nodup_singleton _, fun a ha b hb hab => hFresh ?_⟩
      obtain rfl : b = r.claimID := List.mem_singleton.mp hb
      exact hab ▸ ha
    · obtain ⟨c, hc, hRest⟩ := h.rows key row hRow
      exact ⟨c, hKeep c hc, hRest⟩
    · obtain ⟨hCreate, c, hc, hRest⟩ := h.inflight w hw
      exact ⟨hCreate, c, hKeep c hc, hRest⟩
    · refine callInv_of_not_verdict (List.mem_append_right _ List.mem_cons_self) fun b => ?_
      split <;> nofun

theorem redeemResume_claims {call : Nat} {fault : Fault} {s t : Shared} {r : Request} {phase phase' : Phase}
    (h : redeemResume call fault s r phase = some (t, phase')) : t.claims = s.claims := by
  unfold redeemResume at h
  repeat' split at h
  all_goals cases h
  all_goals rfl

theorem creatingEntity_inv {call : Nat} {fault : Fault} {s t : Shared} {r : Request} {phase : Phase}
    (h : SharedInv s) (hCall : CallInv call s r .creatingEntity)
    (hResume : redeemResume call fault s r .creatingEntity = some (t, phase)) :
    SharedInv t ∧ Extends s t ∧ CallInv call t r phase := by
  have hClaim : ∃ c ∈ s.claims, c.2.claimID = r.claimID ∧ c.2.key = r.key := ⟨_, hCall.claimed, rfl, rfl⟩
  have hCommit := h.commit call (w := ⟨r.key, none, r.claimID⟩) rfl hClaim
  simp only [redeemResume] at hResume
  split at hResume
  · cases hResume
  · rename_i table hWrite
    cases hResume
    rcases RemoteTable.write_cases hWrite with ⟨-, hAccepts, rfl⟩ | ⟨error, hError, -⟩
    · have hPerformed : s.table.performed call ⟨r.key, none, r.claimID⟩ =
          s.table.commit call ⟨r.key, none, r.claimID⟩ := by rw [RemoteTable.commit, if_pos hAccepts]
      rw [hPerformed]
      refine ⟨hCommit.1, hCommit.2, hCall.claimed, fun _ => ?_, ?_⟩
      · exact ⟨s.table.revision + 1, by simp [← hPerformed, RemoteTable.performed_rows]⟩
      · intro hVerdict
        cases hVerdict
    · cases hError
  · rename_i table error hWrite
    cases hResume
    have hOpen : ∀ {u : Shared}, (call, r) ∈ u.claims → CallInv call u r .readingBack := by
      intro u hClaimed
      apply callInv_of_not_verdict hClaimed
      intro b hPhase
      cases hPhase
    rcases RemoteTable.write_cases hWrite with ⟨hOk, -⟩ | ⟨-, -, rfl | ⟨-, rfl | rfl⟩⟩
    · cases hOk
    · exact ⟨h, .refl s, hOpen hCall.claimed⟩
    · exact ⟨hCommit.1, hCommit.2, hOpen hCall.claimed⟩
    · refine ⟨⟨h.unique, h.rows, fun w hw => ?_⟩, ⟨fun _ hc => hc, fun _ _ hRow => hRow⟩, hOpen hCall.claimed⟩
      rcases List.mem_append.mp hw with hOld | hNew
      · exact h.inflight w hOld
      · obtain rfl := List.mem_singleton.mp hNew
        exact ⟨rfl, hClaim⟩

theorem redeemResume_inv {call : Nat} {fault : Fault} {s t : Shared} {r : Request} {phase phase' : Phase}
    (h : SharedInv s) (hCall : CallInv call s r phase)
    (hResume : redeemResume call fault s r phase = some (t, phase')) :
    SharedInv t ∧ Extends s t ∧ CallInv call t r phase' := by
  cases phase with
  | entering =>
    simp only [redeemResume] at hResume
    split at hResume <;> cases hResume
    · exact ⟨h, .refl s, callInv_of_not_verdict hCall.claimed nofun⟩
    · obtain ⟨hInv, hExt⟩ := h.of_same (t := { s with memo := s.memo.arm r.client }) rfl rfl rfl
      exact ⟨hInv, hExt, callInv_of_not_verdict hCall.claimed nofun⟩
  | creatingTable promise =>
    have hSame : ∀ memo : Memo, SharedInv { s with table := (s.table.createTable fault).1, memo := memo } ∧
        Extends s { s with table := (s.table.createTable fault).1, memo := memo } := by
      intro memo
      rcases s.table.createTable_eq fault with hEq | hEq <;> rw [hEq] <;> exact h.of_same rfl rfl rfl
    simp only [redeemResume] at hResume
    split at hResume
    · rename_i table hTable
      cases hResume
      rw [hTable] at hSame
      exact ⟨(hSame _).1, (hSame _).2, callInv_of_not_verdict hCall.claimed nofun⟩
    · rename_i table error hTable
      rw [hTable] at hSame
      split at hResume <;> cases hResume <;>
        exact ⟨(hSame _).1, (hSame _).2, callInv_of_not_verdict hCall.claimed nofun⟩
  | awaiting promise =>
    simp only [redeemResume] at hResume
    split at hResume <;> cases hResume <;>
      exact ⟨h, .refl s, callInv_of_not_verdict hCall.claimed nofun⟩
  | creatingEntity => exact creatingEntity_inv h hCall hResume
  | readingBack =>
    simp only [redeemResume] at hResume
    split at hResume
    · rename_i row hRead
      cases hResume
      have hRow := RemoteTable.read_eq_ok hRead
      refine ⟨h, .refl s, hCall.claimed, fun hWon => ?_, fun hLost => ?_⟩
      · have hOwn : row.2 = r.claimID := by simpa using hWon
        exact ⟨row.1, by rw [hRow, ← hOwn]⟩
      · have hForeign : row.2 ≠ r.claimID := by simpa using hLost
        obtain ⟨c, hc, hValue, hKey⟩ := h.rows _ _ hRow
        exact ⟨row.1, c, hc, hValue ▸ hForeign, hKey, by rw [hRow, hValue]⟩
    · cases hResume
      exact ⟨h, .refl s, callInv_of_not_verdict hCall.claimed nofun⟩
  | returned result => cases hResume

theorem settle_inv {s t : Shared} {event : RemoteTable.Event} (h : SharedInv s) (hSettle : s.settle event = some t) :
    SharedInv t ∧ Extends s t ∧ t.claims = s.claims := by
  obtain ⟨table, hTable, rfl⟩ := Option.map_eq_some_iff.mp hSettle
  rcases RemoteTable.settle_cases hTable with rfl | ⟨rest, owner, w, hRemoved, hSettled⟩
  · obtain ⟨hInv, hExt⟩ := h.of_same (t := { s with table := { s.table with created := true } }) rfl rfl rfl
    exact ⟨hInv, hExt, rfl⟩
  · have hRest : SharedInv { s with table := rest } :=
      ⟨h.unique, hRemoved.rows ▸ h.rows, fun v hv => h.inflight v (hRemoved.subset hv)⟩
    have hRows : Extends s { s with table := rest } := ⟨fun _ hc => hc, hRemoved.rows ▸ fun _ _ hRow => hRow⟩
    obtain ⟨hCreate, hClaim⟩ := h.inflight _ hRemoved.mem
    rcases hSettled with rfl | rfl
    · exact ⟨hRest, hRows, rfl⟩
    · obtain ⟨hInv, hExt⟩ := hRest.commit owner hCreate hClaim
      exact ⟨hInv, ⟨hExt.claims, fun key row hRow => hExt.rows key row (hRows.rows key row hRow)⟩, rfl⟩

/-! ## Redeem calls of any number of relay replicas over one table -/

inductive Call
  | idle
  | running (r : Request) (phase : Phase)

inductive Action
  | start (r : Request)
  | resume (fault : Fault)

def act (i : Nat) : Action → Shared → Call → Option (Shared × Call)
  | .start r, s, .idle => (redeemStart i s r).map fun x => (x.1, .running r x.2)
  | .resume fault, s, .running r phase => (redeemResume i fault s r phase).map fun x => (x.1, .running r x.2)
  | _, _, _ => none

def stores : Calls Shared Call Action RemoteTable.Event where
  start := .empty
  idle := .idle
  act := act
  env event s := s.settle event

/-- A call keeps its own invariant and drew exactly the claim it runs with. -/
structure LocalInv (i : Nat) (s : Shared) (call : Call) : Prop where
  running : ∀ r phase, call = .running r phase → CallInv i s r phase
  drew : ∀ r, (i, r) ∈ s.claims → ∃ phase, call = .running r phase

theorem act_inv {i : Nat} {action : Action} {s t : Shared} {call call' : Call} (hShared : SharedInv s)
    (hCall : LocalInv i s call) (h : act i action s call = some (t, call')) :
    SharedInv t ∧ Extends s t ∧ LocalInv i t call' ∧ ∀ j r, j ≠ i → (j, r) ∈ t.claims → (j, r) ∈ s.claims := by
  unfold act at h
  split at h
  · rename_i r
    obtain ⟨⟨t', phase⟩, hStart, hEq⟩ := Option.map_eq_some_iff.mp h
    cases hEq
    obtain ⟨hInv, hExt, hOwn, hClaims⟩ := redeemStart_inv hShared hStart
    refine ⟨hInv, hExt, ⟨?_, fun r' hr' => ?_⟩, fun j r' hj hr' => ?_⟩
    · intro r' phase' hRunning
      cases hRunning
      exact hOwn
    · rw [hClaims] at hr'
      rcases List.mem_append.mp hr' with hOld | hNew
      · obtain ⟨phase', hIdle⟩ := hCall.drew r' hOld
        cases hIdle
      · cases List.mem_singleton.mp hNew
        exact ⟨phase, rfl⟩
    · rw [hClaims] at hr'
      rcases List.mem_append.mp hr' with hOld | hNew
      · exact hOld
      · cases List.mem_singleton.mp hNew
        exact absurd rfl hj
  · rename_i fault r phase
    obtain ⟨⟨t', phase'⟩, hResume, hEq⟩ := Option.map_eq_some_iff.mp h
    cases hEq
    have hClaims := redeemResume_claims hResume
    obtain ⟨hInv, hExt, hOwn⟩ := redeemResume_inv hShared (hCall.running r phase rfl) hResume
    refine ⟨hInv, hExt, ⟨?_, fun r' hr' => ?_⟩, fun j r' _ hr' => hClaims ▸ hr'⟩
    · intro r' phase' hRunning
      cases hRunning
      exact hOwn
    · obtain ⟨phase₀, hRunning⟩ := hCall.drew r' (hClaims ▸ hr')
      cases hRunning
      exact ⟨phase', rfl⟩
  · cases h

theorem sharedInv_empty : SharedInv .empty where
  unique := List.nodup_nil
  rows := nofun
  inflight := nofun

theorem localInv_idle (i : Nat) : LocalInv i .empty .idle := ⟨nofun, nofun⟩

theorem stores_invariant {p : Pool Shared Call} (h : stores.system.Reachable p) :
    SharedInv p.shared ∧ ∀ i, LocalInv i p.shared (p.calls i) := by
  refine Calls.invariant SharedInv LocalInv sharedInv_empty localInv_idle ?_ ?_ ?_ h
  · intro p i action s l _ hG hL hAct
    obtain ⟨hInv, -, hOwn, -⟩ := act_inv hG hL hAct
    exact ⟨hInv, hOwn⟩
  · intro p i j action s l _ hij hG hL hLj hAct
    obtain ⟨-, hExt, -, hNew⟩ := act_inv hG hL hAct
    exact ⟨fun r phase hRunning => (hLj.running r phase hRunning).extends hExt,
      fun r hr => hLj.drew r (hNew j r hij hr)⟩
  · intro p event s _ hG hEnv
    obtain ⟨hInv, hExt, hClaims⟩ := settle_inv hG hEnv
    exact ⟨hInv, fun i hL => ⟨fun r phase hRunning => (hL.running r phase hRunning).extends hExt,
      fun r hr => hL.drew r (hClaims ▸ hr)⟩⟩

def Returned (p : Pool Shared Call) (i : Nat) (r : Request) (admitted : Bool) : Prop :=
  p.calls i = .running r (.returned (.verdict admitted))

/-- Two owners of one row carry one claim, and a claim has one call. -/
theorem owner_unique {s : Shared} {i j : Nat} {ri rj : Request} (h : SharedInv s)
    (hi : CallInv i s ri (.returned (.verdict true))) (hj : CallInv j s rj (.returned (.verdict true)))
    (hKey : ri.key = rj.key) : i = j := by
  obtain ⟨etag, hRow⟩ := hi.won rfl
  obtain ⟨etag', hRow'⟩ := hj.won rfl
  have hClaim : ri.claimID = rj.claimID := by
    rw [hKey, hRow'] at hRow
    exact (Prod.mk.inj (Option.some.inj hRow)).2.symm
  have hSame := List.inj_on_of_nodup_map h.unique hi.claimed hj.claimed hClaim
  exact congrArg Prod.fst hSame

/-- Durable redemption admits one owner, whatever fails, is lost or comes late. -/
theorem azureRedemptionStore_one_owner {p : Pool Shared Call} (h : stores.system.Reachable p) :
    (∀ i j ri rj, Returned p i ri true → Returned p j rj true →
      ri.fingerprint = rj.fingerprint → ri.nullifier = rj.nullifier → i = j) ∧
    (∀ i r, Returned p i r true → ∃ etag, p.shared.table.rows r.key = some (etag, r.claimID)) ∧
    (∀ i r, Returned p i r false → ∃ j r' phase etag, j ≠ i ∧ p.calls j = .running r' phase ∧
      r'.claimID ≠ r.claimID ∧ p.shared.table.rows r.key = some (etag, r'.claimID)) := by
  obtain ⟨hShared, hCalls⟩ := stores_invariant h
  refine ⟨fun i j ri rj hi hj hFp hNul => ?_, fun i r hi => ?_, fun i r hi => ?_⟩
  · exact owner_unique hShared ((hCalls i).running _ _ hi) ((hCalls j).running _ _ hj)
      (by rw [Request.key, Request.key, hFp, hNul])
  · exact ((hCalls i).running _ _ hi).won rfl
  · obtain ⟨etag, ⟨j, r'⟩, hc, hNe, -, hRow⟩ := ((hCalls i).running _ _ hi).lost rfl
    obtain ⟨phase, hj⟩ := (hCalls j).drew r' hc
    refine ⟨j, r', phase, etag, ?_, hj, hNe, hRow⟩
    rintro rfl
    rw [hi] at hj
    cases hj
    exact hNe rfl

def testRequest (client : Nat) (claimID : String) : Request :=
  ⟨client, List.replicate 64 97, List.replicate 64 98, str claimID⟩

def timeout : RemoteError := ⟨none, false⟩

/-- Call 0 creates its row and loses the acknowledgement, call 1 of another replica comes in between. -/
def lostAck : List (Calls.Label Action RemoteTable.Event) :=
  [.act 0 (.start (testRequest 0 "a")), .act 0 (.resume .none), .act 0 (.resume .none),
   .act 0 (.resume (.lost timeout)), .act 1 (.start (testRequest 1 "b")), .act 1 (.resume .none),
   .act 1 (.resume .none), .act 1 (.resume .none), .act 1 (.resume .none), .act 0 (.resume .none)]

theorem azureRedemptionStore_one_owner_lostAck :
    Returned (stores.system.after lostAck) 0 (testRequest 0 "a") true ∧
    Returned (stores.system.after lostAck) 1 (testRequest 1 "b") false ∧
    ∃ etag, (stores.system.after lostAck).shared.table.rows (testRequest 0 "a").key = some (etag, str "a") := by
  have hWon : Returned (stores.system.after lostAck) 0 (testRequest 0 "a") true := by rfl
  have hLost : Returned (stores.system.after lostAck) 1 (testRequest 1 "b") false := by rfl
  exact ⟨hWon, hLost, (azureRedemptionStore_one_owner (System.reachable_after _ lostAck)).2.1 0 _ hWon⟩

end Columbia.Relay.RedemptionStore
