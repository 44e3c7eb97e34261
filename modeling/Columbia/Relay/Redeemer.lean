import Columbia.Relay.RedemptionStore

/-! # What a caller of `redeem` relies on

A redeemer is a store with its calls in flight. Its law is about all of them at once: of the calls that
redeem one nullifier under one fingerprint, at most one is told `true`. Both stores of the relay are redeemers.
-/
namespace Columbia.Relay
open Columbia.Js Columbia.Lib
open Columbia.Relay.RedemptionStore (Request Result MemoryStore)
set_option autoImplicit false

structure Redeemer where
  Store : Type
  Phase : Type
  Fault : Type
  Event : Type
  empty : Store
  start : Nat → Store → Request → Option (Store × Phase)
  resume : Nat → Fault → Store → Request → Phase → Option (Store × Phase)
  settle : Store → Event → Option Store
  result : Phase → Option Result
  Inv : Store → Prop
  Extends : Store → Store → Prop
  Owns : Nat → Store → Request → Phase → Prop
  inv_empty : Inv empty
  start_inv : ∀ {i s t r phase}, Inv s → start i s r = some (t, phase) → Inv t ∧ Extends s t ∧ Owns i t r phase
  resume_inv : ∀ {i fault s t r phase phase'}, Inv s → Owns i s r phase →
    resume i fault s r phase = some (t, phase') → Inv t ∧ Extends s t ∧ Owns i t r phase'
  settle_inv : ∀ {event s t}, Inv s → settle s event = some t → Inv t ∧ Extends s t
  owns_extends : ∀ {i s t r phase}, Owns i s r phase → Extends s t → Owns i t r phase
  unique : ∀ {i j s ri rj pi pj}, Inv s → Owns i s ri pi → Owns j s rj pj →
    result pi = some (.verdict true) → result pj = some (.verdict true) →
    ri.fingerprint = rj.fingerprint → ri.nullifier = rj.nullifier → i = j

namespace Redeemer

/-! ## The durable store -/

def azureResult : RedemptionStore.Phase → Option Result
  | .returned result => some result
  | _ => none

theorem azureResult_eq_some {phase : RedemptionStore.Phase} {result : Result}
    (h : azureResult phase = some result) : phase = .returned result := by
  unfold azureResult at h
  split at h
  · cases h
    rfl
  · cases h

def azure : Redeemer where
  Store := RedemptionStore.Shared
  Phase := RedemptionStore.Phase
  Fault := Lib.Fault
  Event := RemoteTable.Event
  empty := .empty
  start := RedemptionStore.redeemStart
  resume := RedemptionStore.redeemResume
  settle := RedemptionStore.Shared.settle
  result := azureResult
  Inv := RedemptionStore.SharedInv
  Extends := RedemptionStore.Extends
  Owns := RedemptionStore.CallInv
  inv_empty := RedemptionStore.sharedInv_empty
  start_inv h hStart := by
    obtain ⟨hInv, hExt, hOwn, -⟩ := RedemptionStore.redeemStart_inv h hStart
    exact ⟨hInv, hExt, hOwn⟩
  resume_inv := RedemptionStore.redeemResume_inv
  settle_inv h hSettle := by
    obtain ⟨hInv, hExt, -⟩ := RedemptionStore.settle_inv h hSettle
    exact ⟨hInv, hExt⟩
  owns_extends := RedemptionStore.CallInv.extends
  unique h hi hj hWonI hWonJ hFp hNul := by
    rw [azureResult_eq_some hWonI] at hi
    rw [azureResult_eq_some hWonJ] at hj
    exact RedemptionStore.owner_unique h hi hj (by rw [Request.key, Request.key, hFp, hNul])

/-! ## The store of one process -/

structure Memory where
  store : MemoryStore
  owners : List (Nat × Str)

def memoryKey (r : Request) : Str := r.fingerprint ++ str ":" ++ r.nullifier

/-- `redeem` runs to its end in one step, in the only process that has this store. -/
def memoryStart (i : Nat) (s : Memory) (r : Request) : Option (Memory × Result) :=
  if r.client = 0 then
    match s.store.redeem r.fingerprint r.nullifier with
    | (store, .verdict true) => some (⟨store, s.owners ++ [(i, memoryKey r)]⟩, .verdict true)
    | (store, result) => some (⟨store, s.owners⟩, result)
  else none

structure MemoryInv (s : Memory) : Prop where
  owned : s.owners.map Prod.snd = s.store.spent
  nodup : s.store.spent.Nodup

theorem MemoryInv.add {s : Memory} (h : MemoryInv s) (i : Nat) {key : Str} (hFresh : key ∉ s.store.spent) :
    MemoryInv ⟨{ s.store with spent := s.store.spent ++ [key] }, s.owners ++ [(i, key)]⟩ := by
  constructor
  · simp [h.owned]
  · exact List.nodup_append.mpr ⟨h.nodup, List.nodup_singleton _, fun a ha b hb hab =>
      hFresh (List.mem_singleton.mp hb ▸ hab ▸ ha)⟩

theorem memoryRedeem_cases (store : MemoryStore) (r : Request) :
    (∃ result, result ≠ .verdict true ∧ store.redeem r.fingerprint r.nullifier = (store, result)) ∨
      (memoryKey r ∉ store.spent ∧ store.spent.length < store.maxKeys ∧
        store.redeem r.fingerprint r.nullifier =
          ({ store with spent := store.spent ++ [memoryKey r] }, .verdict true)) := by
  unfold MemoryStore.redeem
  by_cases hSpent : memoryKey r ∈ store.spent
  · exact .inl ⟨.verdict false, nofun, if_pos hSpent⟩
  · by_cases hFull : store.maxKeys ≤ store.spent.length
    · exact .inl ⟨.unavailable, nofun, (if_neg hSpent).trans (if_pos hFull)⟩
    · exact .inr ⟨hSpent, by omega, (if_neg hSpent).trans (if_neg hFull)⟩

theorem memoryStart_cases {i : Nat} {s t : Memory} {r : Request} {result : Result}
    (h : memoryStart i s r = some (t, result)) :
    (result ≠ .verdict true ∧ t = s) ∨
      (result = .verdict true ∧ memoryKey r ∉ s.store.spent ∧ s.store.spent.length < s.store.maxKeys ∧
        t = ⟨{ s.store with spent := s.store.spent ++ [memoryKey r] }, s.owners ++ [(i, memoryKey r)]⟩) := by
  unfold memoryStart at h
  split at h
  · rcases memoryRedeem_cases s.store r with ⟨result', hNot, hRedeem⟩ | ⟨hFresh, hRoom, hRedeem⟩
    · rw [hRedeem] at h
      left
      split at h
      · rename_i hEq
        exact absurd (Prod.mk.inj hEq).2 hNot
      · rename_i hEq
        cases hEq
        cases h
        exact ⟨hNot, rfl⟩
    · rw [hRedeem] at h
      cases h
      exact .inr ⟨rfl, hFresh, hRoom, rfl⟩
  · cases h

def memory (maxKeys : Nat) (maxKeys_pos : 1 ≤ maxKeys) : Redeemer where
  Store := Memory
  Phase := Result
  Fault := Unit
  Event := Empty
  empty := ⟨⟨maxKeys, [], maxKeys_pos⟩, []⟩
  start := memoryStart
  resume _ _ _ _ _ := none
  settle _ event := nomatch event
  result := some
  Inv := MemoryInv
  Extends s t := ∀ owner ∈ s.owners, owner ∈ t.owners
  Owns i s r result := result = .verdict true → (i, memoryKey r) ∈ s.owners
  inv_empty := ⟨rfl, List.nodup_nil⟩
  start_inv h hStart := by
    rcases memoryStart_cases hStart with ⟨hNot, rfl⟩ | ⟨-, hFresh, -, rfl⟩
    · exact ⟨h, fun _ hOwner => hOwner, fun hWon => absurd hWon hNot⟩
    · exact ⟨h.add _ hFresh, fun _ hOwner => List.mem_append_left _ hOwner,
        fun _ => List.mem_append_right _ List.mem_cons_self⟩
  resume_inv _ _ h := nomatch h
  settle_inv {event} := nomatch event
  owns_extends hOwn hExt hWon := hExt _ (hOwn hWon)
  unique {i j s ri rj _ _} h hi hj hWonI hWonJ hFp hNul := by
    have hNodup : (s.owners.map Prod.snd).Nodup := h.owned ▸ h.nodup
    have hKey : memoryKey ri = memoryKey rj := by rw [memoryKey, memoryKey, hFp, hNul]
    have hSame := List.inj_on_of_nodup_map hNodup (hi (Option.some.inj hWonI)) (hj (Option.some.inj hWonJ)) hKey
    exact congrArg Prod.fst hSame

end Redeemer

/-- `REDEMPTION_CONNECTION ? azureRedemptionStore(…) : memoryRedemptionStore(…)`. -/
inductive Backend
  | memory (maxKeys : Nat) (maxKeys_pos : 1 ≤ maxKeys)
  | azure

def Backend.redeemer : Backend → Redeemer
  | .memory maxKeys maxKeys_pos => .memory maxKeys maxKeys_pos
  | .azure => .azure

end Columbia.Relay
