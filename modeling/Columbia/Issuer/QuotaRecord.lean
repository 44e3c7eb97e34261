import Columbia.Issuer.Replicas

/-! # The two-epoch quota record and a full ledger

A row remembers the counts of two epochs only, counted back from the greatest epoch it has seen. A full ledger
remembers them all. One device's calls, one after another, cannot tell the two apart.
-/
namespace Columbia.Issuer.QuotaRecord
open Columbia.Js Columbia.Lib StateStore Ledger
set_option autoImplicit false

/-! ## Rows that `checked` accepts -/

structure WellFormed (row : DeviceRecord) : Prop where
  version : row.version = 1
  pem_length : row.publicKeyPem.length ≤ 4096
  signCount_safe : 0 ≤ row.signCount ∧ row.signCount ≤ maxSafeInteger
  latestEpoch_safe : 0 ≤ row.latestEpoch ∧ row.latestEpoch ≤ maxSafeInteger
  quota : ∀ e n, row.quota.get? e = some n →
    (e = row.latestEpoch ∨ e = row.latestEpoch - 1) ∧ 1 ≤ n ∧ n ≤ maxSafeInteger

theorem WellFormed.quota_size {row : DeviceRecord} (h : WellFormed row) : row.quota.size ≤ 2 := by
  have hKeys : row.quota.keys ⊆ [row.latestEpoch, row.latestEpoch - 1] := by
    intro e he
    obtain ⟨⟨e', n⟩, hMem, rfl⟩ := List.mem_map.mp he
    have hEntry := (h.quota e' n (OrderedMap.get?_eq_some_iff.mpr hMem)).1
    simpa using hEntry
  have hLength := (List.subperm_of_subset row.quota.nodup hKeys).length_le
  simpa [OrderedMap.size, OrderedMap.keys] using hLength

theorem WellFormed.checked {row : DeviceRecord} (h : WellFormed row) : checked row = some row := by
  have hSafe : ∀ {n : Int}, 0 ≤ n ∧ n ≤ maxSafeInteger → safeNat n = true := fun hn => decide_eq_true hn
  unfold StateStore.checked
  rw [if_neg]
  rintro (hVersion | hPem | hSign | hLatest | hSize | hEntry)
  · exact hVersion h.version
  · exact absurd h.pem_length (not_le.mpr hPem)
  · rw [hSafe h.signCount_safe] at hSign
    cases hSign
  · rw [hSafe h.latestEpoch_safe] at hLatest
    cases hLatest
  · exact absurd h.quota_size (not_le.mpr hSize)
  · obtain ⟨⟨e, n⟩, hMem, hBad⟩ := List.any_eq_true.mp hEntry
    obtain ⟨hEpoch, hPos, hMax⟩ := h.quota e n (OrderedMap.get?_eq_some_iff.mpr hMem)
    have hCount := hSafe ⟨by omega, hMax⟩
    simp [hEpoch, hCount] at hBad

theorem keepCount_eq_some {record : Option DeviceRecord} {counts : OrderedMap Int Int} {id e n : Int}
    (h : (keepCount record counts id).get? e = some n) :
    (∃ row, record = some row ∧ row.quota.get? e = some n ∧ e = id) ∨ counts.get? e = some n := by
  unfold keepCount at h
  split at h
  · rename_i m hm
    obtain ⟨row, hRow, hGet⟩ := Option.bind_eq_some_iff.mp hm
    split at h
    · rw [OrderedMap.get?_set] at h
      split at h
      · rename_i he
        cases h
        exact .inl ⟨row, hRow, he ▸ hGet, he⟩
      · exact .inr h
    · exact .inr h
  · exact .inr h

theorem wellFormed_charged {quota : Int} {r : Reservation} {record : Option DeviceRecord} (commitID : Str)
    (hRow : ∀ row, record = some row → WellFormed row) (hAdmits : Admits quota r record) :
    WellFormed (charged r commitID record) := by
  have hLatest : 0 ≤ latestEpoch r record ∧ latestEpoch r record ≤ maxSafeInteger := by
    have hEpoch := r.epoch_safe
    cases record with
    | none => exact ⟨hEpoch.1.trans (le_max_left _ _), max_le hEpoch.2 hEpoch.2⟩
    | some row =>
      have hOld := (hRow row rfl).latestEpoch_safe
      rw [latestEpoch_some r hOld.1]
      exact ⟨hEpoch.1.trans (le_max_left _ _), max_le hEpoch.2 hOld.2⟩
  have hUsed : 0 ≤ used r record := by
    unfold used
    cases hGet : record.bind fun row => row.quota.get? r.epoch with
    | none => exact le_rfl
    | some n =>
      obtain ⟨row, hRecord, hQuota⟩ := Option.bind_eq_some_iff.mp hGet
      have hCount := ((hRow row hRecord).quota r.epoch n hQuota).2.1
      change 0 ≤ n
      omega
  refine ⟨rfl, r.pem_length, ?_, hLatest, fun e n he => ?_⟩
  · have hSign := r.signCount_safe
    cases record with
    | none => exact ⟨hSign.1.trans (le_max_left _ _), max_le hSign.2 (by decide)⟩
    | some row =>
      exact ⟨hSign.1.trans (le_max_left _ _), max_le hSign.2 (hRow row rfl).signCount_safe.2⟩
  · simp only [charged, List.foldl_cons, List.foldl_nil] at he ⊢
    rw [OrderedMap.get?_set] at he
    split at he
    · rename_i hEpoch
      cases he
      have hLive := hAdmits.live
      have hLast := epoch_le_latestEpoch r record
      have hCount := r.count_safe.1
      exact ⟨by omega, by omega, hAdmits.safe⟩
    · rcases keepCount_eq_some he with ⟨row, hRecord, hGet, hBefore⟩ | he
      · exact ⟨.inr hBefore, ((hRow row hRecord).quota e n hGet).2⟩
      rcases keepCount_eq_some he with ⟨row, hRecord, hGet, hSame⟩ | he
      · exact ⟨.inl hSame, ((hRow row hRecord).quota e n hGet).2⟩
      · rw [OrderedMap.get?_empty] at he
        cases he

/-! ## One call after another -/

section
variable (hmac : Bytes → Str → Digest) (cfg : IssuerState) (maxKeys : Nat)

/-- The loop of `reserve` with nobody else at the backend, with so many attempts left. -/
def reserveFrom (r : Reservation) (commitID : Str) : Nat → MemoryBackend → MemoryBackend × Outcome
  | 0, b => (b, .unavailable)
  | attempts + 1, b =>
    match decideReservation cfg.quota r commitID (b.get (keyFor hmac cfg.salt r.keyId)) with
    | .done outcome => (b, outcome)
    | .put etag value =>
      match b.put maxKeys (keyFor hmac cfg.salt r.keyId) etag value with
      | none => (b, .unavailable)
      | some (true, b) => (b, .ok)
      | some (false, b) => reserveFrom r commitID attempts b

def reserve (b : MemoryBackend) (args : ReserveArgs) (commitID : Str) : MemoryBackend × Outcome :=
  match validated args with
  | none => (b, .unavailable)
  | some r => reserveFrom hmac cfg maxKeys r commitID 4 b

/-- The outcomes of a sequence of calls, each run to its end. -/
def reserveAll : MemoryBackend → List (ReserveArgs × Str) → List Outcome
  | _, [] => []
  | b, (args, commitID) :: calls =>
    (reserve hmac cfg maxKeys b args commitID).2 :: reserveAll (reserve hmac cfg maxKeys b args commitID).1 calls

end

/-! ## The full ledger -/

/-- Totals of all epochs for ever, the greatest counter and the greatest epoch. -/
structure FullLedger where
  publicKeyPem : Option Str
  signCount : Int
  latestEpoch : Int
  totals : Int → Int

namespace FullLedger

def empty : FullLedger := ⟨none, 0, 0, fun _ => 0⟩

def charge (l : FullLedger) (r : Reservation) : FullLedger where
  publicKeyPem := some r.publicKeyPem
  signCount := max l.signCount r.signCount
  latestEpoch := max l.latestEpoch r.epoch
  totals := Function.update l.totals r.epoch (l.totals r.epoch + r.count)

/-- Why a charge is turned down, if it is. -/
def refusal? (quota : Int) (l : FullLedger) (r : Reservation) : Option Outcome :=
  if r.mode = .assertion ∧ l.publicKeyPem = none then some (.rejected .unknown_device_key)
  else if l.publicKeyPem.any (· ≠ r.publicKeyPem) then some (.rejected .key_mismatch)
  else if r.mode = .assertion ∧ r.signCount ≤ l.signCount then some (.rejected .replayed_assertion)
  else if r.epoch < l.latestEpoch - 1 then some (.rejected .expired_epoch)
  else if maxSafeInteger < l.totals r.epoch + r.count then some .unavailable
  else if 0 < quota ∧ quota < l.totals r.epoch + r.count then some (.rejected .quota_exceeded)
  else none

/-- `room`: the store can take one more device. -/
def reserve (quota : Int) (room : Bool) (l : FullLedger) (args : ReserveArgs) : FullLedger × Outcome :=
  match validated args with
  | none => (l, .unavailable)
  | some r =>
    match l.refusal? quota r with
    | some outcome => (l, outcome)
    | none => if l.publicKeyPem = none ∧ room = false then (l, .unavailable) else (l.charge r, .ok)

def reserveAll (quota : Int) (room : Bool) : FullLedger → List ReserveArgs → List Outcome
  | _, [] => []
  | l, args :: calls => (l.reserve quota room args).2 :: reserveAll quota room (l.reserve quota room args).1 calls

end FullLedger

/-! ## They agree -/

/-- The row holds what the ledger holds, down to the epoch before the greatest. -/
structure Represents (record : Option DeviceRecord) (l : FullLedger) : Prop where
  wellFormed : ∀ row, record = some row → WellFormed row
  absent : record = none → l = .empty
  key : ∀ row, record = some row → l.publicKeyPem = some row.publicKeyPem
  counter : ∀ row, record = some row → row.signCount = l.signCount
  latest : ∀ row, record = some row → row.latestEpoch = l.latestEpoch
  totals : ∀ row, record = some row → ∀ e, l.latestEpoch - 1 ≤ e → (row.quota.get? e).getD 0 = l.totals e
  later : ∀ e, l.latestEpoch < e → l.totals e = 0

theorem represents_empty : Represents none .empty :=
  ⟨nofun, fun _ => rfl, nofun, nofun, nofun, nofun, fun _ _ => rfl⟩

theorem Represents.latestEpoch_eq {record : Option DeviceRecord} {l : FullLedger} (h : Represents record l)
    (r : Reservation) : latestEpoch r record = max l.latestEpoch r.epoch := by
  cases record with
  | none =>
    rw [h.absent rfl]
    exact (max_self _).trans (max_eq_right r.epoch_safe.1).symm
  | some row =>
    rw [latestEpoch_some r (h.wellFormed row rfl).latestEpoch_safe.1, h.latest row rfl]
    exact max_comm _ _

theorem Represents.used_eq {record : Option DeviceRecord} {l : FullLedger} (h : Represents record l)
    {r : Reservation} (hLive : ¬r.epoch < l.latestEpoch - 1) : used r record = l.totals r.epoch := by
  cases record with
  | none =>
    rw [h.absent rfl]
    rfl
  | some row => exact h.totals row rfl r.epoch (by omega)

/-- The decision on the row is the decision on the ledger. -/
theorem Represents.decide {Etag : Type} {prior : Option (Etag × DeviceRecord)} {l : FullLedger}
    (h : Represents (prior.map (·.2)) l) (quota : Int) (r : Reservation) (commitID : Str) :
    decideReservation quota r commitID prior =
      match l.refusal? quota r with
      | some outcome => .done outcome
      | none => .put (prior.map (·.1)) (charged r commitID (prior.map (·.2))) := by
  have hJoin : prior.map (fun p => checked p.2) ≠ some none ∧
      (prior.map fun p => checked p.2).join = prior.map (·.2) := by
    cases prior with
    | none => exact ⟨nofun, rfl⟩
    | some p => simp [(h.wellFormed p.2 rfl).checked]
  have hUnknown : (prior.map (·.2)).isNone = true ↔ l.publicKeyPem = none := by
    cases prior with
    | none => simp [h.absent rfl, FullLedger.empty]
    | some p => simp [h.key p.2 rfl]
  have hMismatch : (prior.map (·.2)).any (·.publicKeyPem ≠ r.publicKeyPem) =
      l.publicKeyPem.any (· ≠ r.publicKeyPem) := by
    cases prior with
    | none => simp [h.absent rfl, FullLedger.empty]
    | some p => simp [h.key p.2 rfl]
  have hReplay : l.publicKeyPem ≠ none →
      ((prior.map (·.2)).any (r.signCount ≤ ·.signCount) = true ↔ r.signCount ≤ l.signCount) := by
    intro hKnown
    cases prior with
    | none => simp [h.absent rfl, FullLedger.empty] at hKnown
    | some p => simp [h.counter p.2 rfl]
  have hExpired : r.epoch < latestEpoch r (prior.map (·.2)) - 1 ↔ r.epoch < l.latestEpoch - 1 := by
    rw [h.latestEpoch_eq r]
    omega
  unfold decideReservation FullLedger.refusal?
  split
  · rename_i hCorrupt
    exact absurd hCorrupt hJoin.1
  simp only [hJoin.2, hUnknown, hMismatch, hExpired]
  split
  · rfl
  rename_i hKnown
  split
  · rfl
  have hCounter : (r.mode = .assertion ∧ (prior.map (·.2)).any (r.signCount ≤ ·.signCount) = true) ↔
      r.mode = .assertion ∧ r.signCount ≤ l.signCount :=
    and_congr_right fun hMode => hReplay fun hNone => hKnown ⟨hMode, hNone⟩
  simp only [hCounter]
  split
  · rfl
  split
  · rfl
  rename_i hLive
  simp only [h.used_eq hLive]
  split
  · rfl
  split
  · rfl
  · rfl

theorem Represents.charge {quota : Int} {record : Option DeviceRecord} {l : FullLedger} {r : Reservation}
    (h : Represents record l) (commitID : Str) (hAdmits : Admits quota r record) :
    Represents (some (charged r commitID record)) (l.charge r) := by
  have hLatest := h.latestEpoch_eq r
  have hLive : ¬r.epoch < l.latestEpoch - 1 := by
    have := hAdmits.live
    omega
  refine ⟨?_, nofun, ?_, ?_, ?_, ?_, fun e he => ?_⟩
  · rintro _ ⟨⟩
    exact wellFormed_charged commitID h.wellFormed hAdmits
  · rintro _ ⟨⟩
    rfl
  · rintro _ ⟨⟩
    cases record with
    | none =>
      rw [h.absent rfl]
      exact max_comm _ _
    | some row =>
      change max r.signCount row.signCount = max l.signCount r.signCount
      rw [h.counter row rfl, max_comm]
  · rintro _ ⟨⟩
    exact hLatest
  · rintro _ ⟨⟩ e he
    change max l.latestEpoch r.epoch - 1 ≤ e at he
    rw [charged_quota]
    change _ = Function.update l.totals r.epoch (l.totals r.epoch + r.count) e
    by_cases hEpoch : e = r.epoch
    · subst hEpoch
      rw [if_pos rfl, Function.update_self, h.used_eq hLive]
    · rw [if_neg hEpoch, Function.update_of_ne hEpoch]
      cases record with
      | none => simp [h.absent rfl, FullLedger.empty]
      | some row =>
        split
        · exact h.totals row rfl e (by omega)
        · exact (h.later e (by omega)).symm
  · change max l.latestEpoch r.epoch < e at he
    change Function.update l.totals r.epoch (l.totals r.epoch + r.count) e = 0
    rw [Function.update_of_ne (by omega)]
    exact h.later e (by omega)

/-! ## Whole sequences -/

section
variable {hmac : Bytes → Str → Digest} {cfg : IssuerState} {maxKeys : Nat}

theorem put_current (maxKeys : Nat) (b : MemoryBackend) (key : Str) (value : DeviceRecord) :
    b.put maxKeys key ((b.get key).map (·.1)) value =
      if b.get key = none ∧ maxKeys ≤ b.rows.size then none
      else some (true, ⟨b.rows.set key (b.revision + 1, value), b.revision + 1⟩) := by
  have hHas : b.rows.has key = false ↔ b.get key = none := by
    rw [OrderedMap.has_eq_false_iff, MemoryBackend.get, OrderedMap.get?_eq_none_iff]
  unfold MemoryBackend.put
  change (if (b.get key).map (·.1) ≠ (b.get key).map (·.1) then _ else _) = _
  rw [if_neg (not_not.mpr rfl)]
  simp only [hHas]

/-- Nobody is in between, so the first attempt is the last. -/
theorem reserveFrom_eq (r : Reservation) (commitID : Str) (attempts : Nat) (b : MemoryBackend) :
    reserveFrom hmac cfg maxKeys r commitID (attempts + 1) b =
      match decideReservation cfg.quota r commitID (b.get (keyFor hmac cfg.salt r.keyId)) with
      | .done outcome => (b, outcome)
      | .put _ value =>
        if b.get (keyFor hmac cfg.salt r.keyId) = none ∧ maxKeys ≤ b.rows.size then (b, .unavailable)
        else (⟨b.rows.set (keyFor hmac cfg.salt r.keyId) (b.revision + 1, value), b.revision + 1⟩, .ok) := by
  rw [reserveFrom]
  cases hDecide : decideReservation cfg.quota r commitID (b.get (keyFor hmac cfg.salt r.keyId)) with
  | done outcome => rfl
  | put etag value =>
    obtain ⟨rfl, -, -⟩ := decideReservation_eq_put hDecide
    simp only [put_current]
    by_cases hFull : b.get (keyFor hmac cfg.salt r.keyId) = none ∧ maxKeys ≤ b.rows.size
    · rw [if_pos hFull, if_pos hFull]
    · rw [if_neg hFull, if_neg hFull]

/-- A call run to its end is a run of the replicas in which only this call moves. -/
theorem reserve_alone {p : Pool Replicas.Shared Replicas.Call} {i : Nat} (hIdle : p.calls i = .idle)
    (args : ReserveArgs) (commitID : Str) : ∃ (actions : List Replicas.Action) (q : Pool Replicas.Shared Replicas.Call),
      (Replicas.replicas hmac cfg maxKeys).system.run p (actions.map (.act i)) = some q ∧
      q.shared.backend = (reserve hmac cfg maxKeys p.shared.backend args commitID).1 ∧
      ((q.calls i = .refused ∧ (reserve hmac cfg maxKeys p.shared.backend args commitID).2 = .unavailable) ∨
        ∃ r, q.calls i = .running r commitID (.returned (reserve hmac cfg maxKeys p.shared.backend args commitID).2)) := by
  unfold reserve
  cases hArgs : validated args with
  | none =>
    have hStart : (Replicas.replicas hmac cfg maxKeys).act i (.start args commitID) p.shared (p.calls i) =
        some (p.shared, .refused) := by
      simp [Replicas.replicas, Replicas.act, hIdle, hArgs]
    refine ⟨[.start args commitID], _, Calls.run_act hStart [], rfl, .inl ⟨Function.update_self .., rfl⟩⟩
  | some r =>
    have hStart : (Replicas.replicas hmac cfg maxKeys).act i (.start args commitID) p.shared (p.calls i) =
        some (p.shared, .running r commitID (.getting 0)) := by
      simp [Replicas.replicas, Replicas.act, hIdle, hArgs]
    have hGet : (Replicas.replicas hmac cfg maxKeys).act i .resume p.shared
        (Function.update p.calls i (.running r commitID (.getting 0)) i) = some (p.shared, .running r commitID
          (afterGet cfg.quota r commitID 0 (p.shared.backend.get (keyFor hmac cfg.salt r.keyId)))) := by
      rw [Function.update_self]
      rfl
    simp only [reserveFrom_eq]
    cases hDecide : decideReservation cfg.quota r commitID (p.shared.backend.get (keyFor hmac cfg.salt r.keyId)) with
    | done outcome =>
      refine ⟨[.start args commitID, .resume], _, (Calls.run_act hStart _).trans (Calls.run_act hGet []), rfl,
        .inr ⟨r, ?_⟩⟩
      exact (Function.update_self ..).trans (by rw [afterGet, hDecide])
    | put etag value =>
      obtain ⟨rfl, -, -⟩ := decideReservation_eq_put hDecide
      rw [afterGet, hDecide] at hGet
      have hPut := put_current maxKeys p.shared.backend (keyFor hmac cfg.salt r.keyId) value
      have hLast : ∀ (shared : Replicas.Shared) (outcome : Outcome),
          Replicas.act hmac cfg maxKeys i .resume p.shared (.running r commitID
            (.putting 0 ((p.shared.backend.get (keyFor hmac cfg.salt r.keyId)).map (·.1)) value)) =
            some (shared, .running r commitID (.returned outcome)) →
          ∃ q, (Replicas.replicas hmac cfg maxKeys).system.run p
              ([.start args commitID, .resume, .resume].map (.act i)) = some q ∧ q.shared = shared ∧
            q.calls i = .running r commitID (.returned outcome) := by
        intro shared outcome hAct
        refine ⟨_, ((Calls.run_act hStart _).trans (Calls.run_act hGet _)).trans (Calls.run_act ?_ []), rfl,
          Function.update_self ..⟩
        simp only [Function.update_self]
        exact hAct
      -- the write is decided by what the read just saw
      by_cases hFull : p.shared.backend.get (keyFor hmac cfg.salt r.keyId) = none ∧ maxKeys ≤ p.shared.backend.rows.size
      · rw [if_pos hFull] at hPut
        obtain ⟨q, hRun, hShared, hCall⟩ := hLast p.shared .unavailable
          (by simp only [Replicas.act, Replicas.rowKey, hPut])
        refine ⟨_, q, hRun, ?_, .inr ⟨r, ?_⟩⟩
        · simp only [if_pos hFull, hShared]
        · simp only [if_pos hFull, hCall]
      · rw [if_neg hFull] at hPut
        obtain ⟨q, hRun, hShared, hCall⟩ := hLast _ .ok
          (by simp only [Replicas.act, Replicas.rowKey, hPut]; rfl)
        refine ⟨_, q, hRun, ?_, .inr ⟨r, ?_⟩⟩
        · simp only [if_neg hFull, hShared]
        · simp only [if_neg hFull, hCall]

theorem validated_keyId {args : ReserveArgs} {r : Reservation} (h : validated args = some r) : r.keyId = args.keyId := by
  unfold validated at h
  split at h
  · split at h
    · cases h
      rfl
    · cases h
  · cases h

/-- The store on one side, the ledger on the other: they represent each other, and room for the device is room in
the store. -/
structure Matches (key : Str) (maxKeys : Nat) (room : Bool) (b : MemoryBackend) (l : FullLedger) : Prop where
  row : Represents ((b.get key).map (·.2)) l
  room : b.get key = none → (room = false ↔ maxKeys ≤ b.rows.size)

theorem Matches.reserve {key : Str} {room : Bool} {b : MemoryBackend} {l : FullLedger}
    (h : Matches key maxKeys room b l) {args : ReserveArgs} (hKey : keyFor hmac cfg.salt args.keyId = key)
    (commitID : Str) :
    (QuotaRecord.reserve hmac cfg maxKeys b args commitID).2 = (l.reserve cfg.quota room args).2 ∧
      Matches key maxKeys room (QuotaRecord.reserve hmac cfg maxKeys b args commitID).1
        (l.reserve cfg.quota room args).1 := by
  unfold QuotaRecord.reserve FullLedger.reserve
  cases hArgs : validated args with
  | none => exact ⟨rfl, h⟩
  | some r =>
    obtain rfl : keyFor hmac cfg.salt r.keyId = key := by rw [← hKey, validated_keyId hArgs]
    simp only [reserveFrom_eq]
    have hDecide := h.row.decide cfg.quota r commitID
    cases hRefusal : l.refusal? cfg.quota r with
    | some outcome =>
      rw [hRefusal] at hDecide
      simp only [hDecide]
      exact ⟨trivial, h⟩
    | none =>
      rw [hRefusal] at hDecide
      obtain ⟨-, -, hAdmits⟩ := decideReservation_eq_put hDecide
      simp only [hDecide]
      have hFull : (l.publicKeyPem = none ∧ room = false) ↔
          (b.get (keyFor hmac cfg.salt r.keyId) = none ∧ maxKeys ≤ b.rows.size) := by
        cases hGet : b.get (keyFor hmac cfg.salt r.keyId) with
        | none => simp [(h.row.absent (by rw [hGet]; rfl)), FullLedger.empty, h.room hGet]
        | some p => simp [h.row.key p.2 (by rw [hGet]; rfl)]
      simp only [hFull]
      split
      · exact ⟨rfl, h⟩
      · refine ⟨rfl, ?_, fun hNone => ?_⟩
        · rw [get_set, if_pos rfl]
          exact h.row.charge commitID hAdmits
        · rw [get_set, if_pos rfl] at hNone
          cases hNone

theorem reserveAll_eq {key : Str} {room : Bool} (calls : List (ReserveArgs × Str))
    (hKeys : ∀ c ∈ calls, keyFor hmac cfg.salt c.1.keyId = key) {b : MemoryBackend} {l : FullLedger}
    (h : Matches key maxKeys room b l) :
    reserveAll hmac cfg maxKeys b calls = l.reserveAll cfg.quota room (calls.map Prod.fst) := by
  induction calls generalizing b l with
  | nil => rfl
  | cons c calls ih =>
    obtain ⟨hOutcome, hNext⟩ := h.reserve (hKeys c List.mem_cons_self) c.2
    rw [List.map_cons, reserveAll, FullLedger.reserveAll, hOutcome,
      ih (fun d hd => hKeys d (List.mem_cons_of_mem _ hd)) hNext]

theorem matches_absent {b : MemoryBackend} {key : Str} (h : b.get key = none) :
    Matches key maxKeys (decide (b.rows.size < maxKeys)) b .empty := by
  constructor
  · rw [h]
    exact represents_empty
  · intro _
    simp

/-- Forgetting all but two epochs never shows in a result. -/
theorem reserve_refines_full_ledger {b : MemoryBackend} {key : Str} (hAbsent : b.get key = none)
    (calls : List (ReserveArgs × Str)) (hKeys : ∀ c ∈ calls, keyFor hmac cfg.salt c.1.keyId = key) :
    reserveAll hmac cfg maxKeys b calls =
      FullLedger.empty.reserveAll cfg.quota (decide (b.rows.size < maxKeys)) (calls.map Prod.fst) :=
  reserveAll_eq calls hKeys (matches_absent hAbsent)

end

def rolloverArgs (mode : String) (signCount epoch count : Int) : ReserveArgs :=
  ⟨str "canonical-key", .str (str mode), .str (str "public-key-fixture"), int signCount, int epoch, int count⟩

/-- Epochs that go forth and back: 10, 11, again 10 (full), 13, and 11 that is too old by then. -/
def rollover : List (ReserveArgs × Str) :=
  [(rolloverArgs "assertion" 1 10 1, str "a"), (rolloverArgs "attestation" 0 10 4, str "b"),
   (rolloverArgs "assertion" 1 11 6, str "c"), (rolloverArgs "assertion" 2 10 3, str "d"),
   (rolloverArgs "assertion" 2 10 2, str "e"), (rolloverArgs "assertion" 3 13 1, str "f"),
   (rolloverArgs "assertion" 4 11 1, str "g")]

theorem reserve_refines_full_ledger_rollover :
    FullLedger.empty.reserveAll Replicas.testState.quota true (rollover.map Prod.fst) =
      [.rejected .unknown_device_key, .ok, .ok, .rejected .quota_exceeded, .ok, .ok, .rejected .expired_epoch] ∧
    reserveAll Replicas.testHmac Replicas.testState 500000 .empty rollover =
      [.rejected .unknown_device_key, .ok, .ok, .rejected .quota_exceeded, .ok, .ok, .rejected .expired_epoch] := by
  have hLedger : FullLedger.empty.reserveAll Replicas.testState.quota true (rollover.map Prod.fst) =
      [.rejected .unknown_device_key, .ok, .ok, .rejected .quota_exceeded, .ok, .ok, .rejected .expired_epoch] := by
    decide
  have hKeys : ∀ c ∈ rollover, keyFor Replicas.testHmac Replicas.testState.salt c.1.keyId =
      keyFor Replicas.testHmac Replicas.testState.salt (str "canonical-key") := fun _ _ => rfl
  exact ⟨hLedger, (reserve_refines_full_ledger rfl rollover hKeys).trans hLedger⟩

end Columbia.Issuer.QuotaRecord
