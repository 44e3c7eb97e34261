import Columbia.Issuer.StateStore
import Mathlib.Algebra.Order.BigOperators.Group.Finset
import Mathlib.Algebra.Ring.Int.Defs
import Mathlib.Data.List.Pairwise
import Mathlib.Data.Int.Order.Basic

/-! # The device row as a ledger of the reservations committed to it

A row keeps two epochs, a counter and the greatest epoch seen. `RowAgrees` says which part of the whole
history of committed reservations it still records; a conditional write that went through extends
both, and the history stays within the quota and strictly increasing in the counter.
-/
namespace Columbia.Issuer.Ledger
open Columbia.Js Columbia.Lib StateStore
set_option autoImplicit false

def spent (e : Int) (rs : List Reservation) : Int := ((rs.filter (·.epoch = e)).map (·.count)).sum

@[simp] theorem spent_nil (e : Int) : spent e [] = 0 := rfl

theorem spent_append (e : Int) (rs : List Reservation) (r : Reservation) :
    spent e (rs ++ [r]) = spent e rs + if r.epoch = e then r.count else 0 := by
  by_cases h : r.epoch = e <;> simp [spent, h]

theorem spent_eq_zero {e : Int} {rs : List Reservation} (h : ∀ r ∈ rs, r.epoch ≠ e) : spent e rs = 0 := by
  have hNone : rs.filter (·.epoch = e) = [] := by simpa [List.filter_eq_nil_iff] using h
  rw [spent, hNone]
  rfl

structure RowAgrees (record : Option DeviceRecord) (rs : List Reservation) : Prop where
  absent : record = none → rs = []
  counter : ∀ row, record = some row → ∀ r ∈ rs, r.signCount ≤ row.signCount
  epochs : ∀ row, record = some row → ∀ r ∈ rs, r.epoch ≤ row.latestEpoch
  counts : ∀ row, record = some row → ∀ e, row.latestEpoch - 1 ≤ e → (row.quota.get? e).getD 0 = spent e rs

structure Lawful (quota : Int) (rs : List Reservation) : Prop where
  increasing : rs.Pairwise fun a b => b.mode = .assertion → a.signCount < b.signCount
  within : 0 < quota → ∀ e, spent e rs ≤ quota

theorem rowAgrees_nil : RowAgrees none [] := ⟨fun _ => rfl, by simp, by simp, by simp⟩

theorem lawful_nil {quota : Int} : Lawful quota [] := ⟨List.Pairwise.nil, fun h _ => h.le⟩

theorem checked_eq_some {record row : DeviceRecord} (h : checked record = some row) :
    row = record ∧ 0 ≤ record.latestEpoch := by
  unfold checked at h
  split at h
  · cases h
  · rename_i hBad
    simp only [not_or, Bool.not_eq_false] at hBad
    have hLatest := hBad.2.2.2.1
    simp only [safeNat, decide_eq_true_eq] at hLatest
    exact ⟨(Option.some.inj h).symm, hLatest.1⟩

/-- Everything a write of `reserve` presupposes about the row it was decided on. -/
structure Admits (quota : Int) (r : Reservation) (record : Option DeviceRecord) : Prop where
  latest_nonneg : ∀ row, record = some row → 0 ≤ row.latestEpoch
  known : r.mode = .assertion → record ≠ none
  sameKey : ∀ row, record = some row → row.publicKeyPem = r.publicKeyPem
  newer : r.mode = .assertion → ∀ row, record = some row → row.signCount < r.signCount
  live : latestEpoch r record - 1 ≤ r.epoch
  safe : used r record + r.count ≤ maxSafeInteger
  quota_left : 0 < quota → used r record + r.count ≤ quota

variable {Etag : Type}

theorem decideReservation_eq_put {quota : Int} {r : Reservation} {commitID : Str} {prior : Option (Etag × DeviceRecord)}
    {etag : Option Etag} {value : DeviceRecord} (h : decideReservation quota r commitID prior = .put etag value) :
    etag = prior.map (·.1) ∧ value = charged r commitID (prior.map (·.2)) ∧ Admits quota r (prior.map (·.2)) := by
  have hRecord : ∃ record, prior.map (fun p => checked p.2) = record ∧ record ≠ some none := by
    refine ⟨_, rfl, fun hNone => ?_⟩
    simp only [decideReservation, hNone] at h
    cases h
  obtain ⟨record, hChecked, hGood⟩ := hRecord
  have hJoin : record.join = prior.map (·.2) ∧ ∀ row, prior.map (·.2) = some row → 0 ≤ row.latestEpoch := by
    subst hChecked
    cases prior with
    | none => simp
    | some p =>
      cases hp : checked p.2 with
      | none => simp [hp] at hGood
      | some row =>
        obtain ⟨rfl, hNonneg⟩ := checked_eq_some hp
        simp [hp, hNonneg]
  unfold decideReservation at h
  rw [hChecked] at h
  split at h
  · exact absurd rfl hGood
  · simp only [hJoin.1] at h
    split at h
    · cases h
    split at h
    · cases h
    split at h
    · cases h
    split at h
    · cases h
    split at h
    · cases h
    split at h
    · cases h
    rename_i hUnknown hPem hReplay hExpired hUnsafe hQuota
    cases h
    refine ⟨rfl, rfl, hJoin.2, ?_, ?_, ?_, by omega, by omega, by omega⟩
    · intro hMode hNone
      exact hUnknown ⟨hMode, by simp [hNone]⟩
    · intro row hRow
      simpa [hRow] using hPem
    · intro hMode row hRow
      simpa [hRow, hMode] using hReplay

theorem decideReservation_ne_ok (quota : Int) (r : Reservation) (commitID : Str) (prior : Option (Etag × DeviceRecord)) :
    decideReservation quota r commitID prior ≠ .done .ok := by
  unfold decideReservation
  split
  · nofun
  · dsimp only
    repeat' split
    all_goals nofun

theorem latestEpoch_some (r : Reservation) {row : DeviceRecord} (h : 0 ≤ row.latestEpoch) :
    latestEpoch r (some row) = max r.epoch row.latestEpoch := by
  have hEpoch := r.epoch_safe.1
  rcases h.eq_or_lt with hZero | hPos
  · simp [latestEpoch, orInt, ← hZero, hEpoch]
  · rw [latestEpoch, orInt, if_neg hPos.ne']

theorem epoch_le_latestEpoch (r : Reservation) (record : Option DeviceRecord) :
    r.epoch ≤ latestEpoch r record := by
  cases record <;> exact le_max_left _ _

theorem keepCount_get? (record : Option DeviceRecord) (counts : OrderedMap Int Int) (id e : Int) :
    ((keepCount record counts id).get? e).getD 0 =
      if e = id ∧ (record.bind fun row => row.quota.get? id).getD 0 ≠ 0 then
        (record.bind fun row => row.quota.get? id).getD 0
      else (counts.get? e).getD 0 := by
  unfold keepCount
  split
  · rename_i n hn
    by_cases hZero : n = 0
    · simp [hn, hZero]
    · by_cases he : e = id <;> simp [hn, hZero, he, OrderedMap.get?_set]
  · rename_i hn
    simp [hn]

theorem charged_quota (r : Reservation) (commitID : Str) (record : Option DeviceRecord) (e : Int) :
    ((charged r commitID record).quota.get? e).getD 0 =
      if e = r.epoch then used r record + r.count
      else if e = latestEpoch r record ∨ e = latestEpoch r record - 1 then
        (record.bind fun row => row.quota.get? e).getD 0
      else 0 := by
  simp only [charged, List.foldl_cons, List.foldl_nil, OrderedMap.get?_set]
  by_cases hEpoch : e = r.epoch
  · simp [hEpoch]
  · simp only [if_neg hEpoch, keepCount_get?, OrderedMap.get?_empty, Option.getD_none]
    by_cases hLatest : e = latestEpoch r record
    · subst hLatest
      have hApart : latestEpoch r record ≠ latestEpoch r record - 1 := by omega
      by_cases hCount : (record.bind fun row => row.quota.get? (latestEpoch r record)).getD 0 = 0 <;>
        simp [hCount, hApart]
    · by_cases hBefore : e = latestEpoch r record - 1
      · subst hBefore
        by_cases hCount : (record.bind fun row => row.quota.get? (latestEpoch r record - 1)).getD 0 = 0 <;>
          simp [hCount]
      · simp [hLatest, hBefore]

/-- `used` is the whole past of the epoch, for every epoch the decision lets through. -/
theorem used_eq_spent {quota : Int} {r : Reservation} {record : Option DeviceRecord} {rs : List Reservation}
    (hAdmits : Admits quota r record) (hAgrees : RowAgrees record rs) : used r record = spent r.epoch rs := by
  cases record with
  | none =>
    rw [hAgrees.absent rfl]
    rfl
  | some row =>
    have hLive := hAdmits.live
    rw [latestEpoch_some r (hAdmits.latest_nonneg row rfl)] at hLive
    exact hAgrees.counts row rfl r.epoch (by omega)

theorem rowAgrees_charged {quota : Int} {r : Reservation} {record : Option DeviceRecord} {rs : List Reservation}
    (commitID : Str) (hAdmits : Admits quota r record) (hAgrees : RowAgrees record rs) :
    RowAgrees (some (charged r commitID record)) (rs ++ [r]) := by
  have hUsed := used_eq_spent hAdmits hAgrees
  refine ⟨by simp, ?_, ?_, ?_⟩
  · intro _ hNew x hx
    cases hNew
    rcases List.mem_append.mp hx with hOld | hNew
    · cases record with
      | none => simp [hAgrees.absent rfl] at hOld
      | some row => exact (hAgrees.counter row rfl x hOld).trans (le_max_right _ _)
    · obtain rfl := List.mem_singleton.mp hNew
      exact le_max_left _ _
  · intro _ hNew x hx
    cases hNew
    rcases List.mem_append.mp hx with hOld | hNew
    · cases record with
      | none => simp [hAgrees.absent rfl] at hOld
      | some row =>
        have hLatest := latestEpoch_some r (hAdmits.latest_nonneg row rfl)
        have hx := hAgrees.epochs row rfl x hOld
        change x.epoch ≤ latestEpoch r (some row)
        omega
    · obtain rfl := List.mem_singleton.mp hNew
      exact epoch_le_latestEpoch _ _
  · intro _ hNew e he
    cases hNew
    change latestEpoch r record - 1 ≤ e at he
    rw [charged_quota, spent_append]
    by_cases hEpoch : e = r.epoch
    · subst hEpoch
      simp [hUsed]
    · simp only [if_neg hEpoch, if_neg (Ne.symm hEpoch), add_zero]
      cases record with
      | none => simp [hAgrees.absent rfl]
      | some row =>
        have hLatest := latestEpoch_some r (hAdmits.latest_nonneg row rfl)
        split
        · exact hAgrees.counts row rfl e (by omega)
        · refine (spent_eq_zero fun x hx hxe => ?_).symm
          have hx := hAgrees.epochs row rfl x hx
          omega

theorem lawful_charged {quota : Int} {r : Reservation} {record : Option DeviceRecord} {rs : List Reservation}
    (hAdmits : Admits quota r record) (hAgrees : RowAgrees record rs) (hLawful : Lawful quota rs) :
    Lawful quota (rs ++ [r]) := by
  constructor
  · refine List.pairwise_append.mpr ⟨hLawful.increasing, List.pairwise_singleton _ _, ?_⟩
    intro x hx y hy hMode
    obtain rfl := List.mem_singleton.mp hy
    obtain ⟨row, hRow⟩ := Option.ne_none_iff_exists'.mp (hAdmits.known hMode)
    exact (hAgrees.counter row hRow x hx).trans_lt (hAdmits.newer hMode row hRow)
  · intro hQuota e
    rw [spent_append]
    split
    · rename_i hEpoch
      subst hEpoch
      rw [← used_eq_spent hAdmits hAgrees]
      exact hAdmits.quota_left hQuota
    · simpa using hLawful.within hQuota e

/-- One committed reservation: the call that made it and the row it went to. -/
structure Commit where
  call : Nat
  key : Str
  reservation : Reservation

def commitsOf (key : Str) (log : List Commit) : List Reservation :=
  (log.filter (·.key = key)).map (·.reservation)

theorem filter_call_eq {log : List Commit} (hNodup : (log.map (·.call)).Nodup) {c : Commit} (hMem : c ∈ log) :
    log.filter (·.call = c.call) = [c] := by
  induction log with
  | nil => cases hMem
  | cons d log ih =>
    obtain ⟨hNew, hRest⟩ := List.nodup_cons.mp hNodup
    rw [List.filter_cons]
    rcases List.mem_cons.mp hMem with rfl | hMem
    · have hNone : log.filter (·.call = c.call) = [] := by
        rw [List.filter_eq_nil_iff]
        intro d hd hCall
        exact hNew (List.mem_map.mpr ⟨d, hd, of_decide_eq_true hCall⟩)
      simp [hNone]
    · have hOther : d.call ≠ c.call := fun hEq => hNew (List.mem_map.mpr ⟨c, hMem, hEq.symm⟩)
      simpa [hOther] using ih hRest hMem

theorem commitsOf_append (key : Str) (log : List Commit) (c : Commit) :
    commitsOf key (log ++ [c]) = commitsOf key log ++ if c.key = key then [c.reservation] else [] := by
  by_cases h : c.key = key <;> simp [commitsOf, h]

theorem spent_commitsOf (key : Str) (e : Int) (log : List Commit) :
    spent e (commitsOf key log) =
      ((log.filter fun c => c.key = key ∧ c.reservation.epoch = e).map (·.reservation.count)).sum := by
  simp only [spent, commitsOf, List.filter_map, List.map_map, List.filter_filter, Function.comp_def]
  congr 3
  funext c
  simp [and_comm]

theorem sum_count_le_spent {log : List Commit} (hNodup : (log.map (·.call)).Nodup) (key : Str) (e : Int)
    (calls : Finset Nat) (res : Nat → Reservation)
    (hCalls : ∀ i ∈ calls, (⟨i, key, res i⟩ : Commit) ∈ log ∧ (res i).epoch = e) :
    ∑ i ∈ calls, (res i).count ≤ spent e (commitsOf key log) := by
  classical
  let mine := log.filter fun c => c.key = key ∧ c.reservation.epoch = e
  have hMine : mine.Nodup := (hNodup.of_map _).filter _
  calc
    ∑ i ∈ calls, (res i).count = ∑ c ∈ calls.image fun i => (⟨i, key, res i⟩ : Commit), c.reservation.count := by
      rw [Finset.sum_image fun i _ j _ hij => congrArg Commit.call hij]
    _ ≤ ∑ c ∈ mine.toFinset, c.reservation.count := by
      refine Finset.sum_le_sum_of_subset_of_nonneg ?_ fun c _ _ => by have := c.reservation.count_safe.1; omega
      intro c hc
      obtain ⟨i, hi, rfl⟩ := Finset.mem_image.mp hc
      simpa [mine] using hCalls i hi
    _ = spent e (commitsOf key log) := by
      rw [spent_commitsOf, List.sum_toFinset _ hMine]

theorem Lawful.commit_unique {quota : Int} {log : List Commit} {c d : Commit} (h : Lawful quota (commitsOf c.key log))
    (hc : c ∈ log) (hd : d ∈ log) (hKey : d.key = c.key) (hcMode : c.reservation.mode = .assertion)
    (hdMode : d.reservation.mode = .assertion) (hCount : c.reservation.signCount = d.reservation.signCount) : c = d := by
  have hApart : (log.filter (·.key = c.key)).Pairwise fun a b => a.reservation.mode = .assertion →
      b.reservation.mode = .assertion → a.reservation.signCount ≠ b.reservation.signCount :=
    (List.pairwise_map.mp h.increasing).imp fun hLt _ hMode => (hLt hMode).ne
  by_contra hNe
  have hcMem : c ∈ log.filter (·.key = c.key) := by simpa using hc
  have hdMem : d ∈ log.filter (·.key = c.key) := by simpa [hKey] using hd
  have : Std.Symm fun (a b : Commit) => a.reservation.mode = .assertion → b.reservation.mode = .assertion →
      a.reservation.signCount ≠ b.reservation.signCount := ⟨fun _ _ hab hb ha => (hab ha hb).symm⟩
  exact hApart.forall hcMem hdMem hNe hcMode hdMode hCount

/-! ## The memory backend -/

/-- A row read earlier: the etag is old, and as long as the row still carries it the row is unchanged. -/
def Current (b : MemoryBackend) (key : Str) (prior : Option (Nat × DeviceRecord)) : Prop :=
  ∀ p, prior = some p → p.1 ≤ b.revision ∧ ∀ q, b.get key = some q → q.1 = p.1 → q = p

theorem Current.eq_of_etag {b : MemoryBackend} {key : Str} {prior : Option (Nat × DeviceRecord)}
    (h : Current b key prior) (hEtag : (b.get key).map (·.1) = prior.map (·.1)) : b.get key = prior := by
  cases prior with
  | none => simpa using hEtag
  | some p =>
    obtain ⟨q, hq, hqp⟩ := Option.map_eq_some_iff.mp hEtag
    rw [hq, (h p rfl).2 q hq hqp]

/-- The rows and the history of committed reservations, for every device at once. -/
structure LedgerInv (quota : Int) (b : MemoryBackend) (log : List Commit) : Prop where
  etags : ∀ key p, b.get key = some p → p.1 ≤ b.revision
  agrees : ∀ key, RowAgrees ((b.get key).map (·.2)) (commitsOf key log)
  lawful : ∀ key, Lawful quota (commitsOf key log)
  registered : ∀ c ∈ log, ∃ p, b.get c.key = some p ∧ p.2.publicKeyPem = c.reservation.publicKeyPem

theorem ledgerInv_empty (quota : Int) : LedgerInv quota .empty [] :=
  ⟨by simp [MemoryBackend.get, MemoryBackend.empty], fun _ => rowAgrees_nil, fun _ => lawful_nil, nofun⟩

theorem LedgerInv.current {quota : Int} {b : MemoryBackend} {log : List Commit} (h : LedgerInv quota b log)
    (key : Str) : Current b key (b.get key) := by
  intro p hp
  refine ⟨h.etags key p hp, fun q hq _ => ?_⟩
  rw [hp] at hq
  exact (Option.some.inj hq).symm

theorem put_eq_some {maxKeys : Nat} {b b' : MemoryBackend} {key : Str} {etag : Option Nat} {value : DeviceRecord}
    {won : Bool} (h : b.put maxKeys key etag value = some (won, b')) :
    (won = false ∧ b' = b) ∨ (won = true ∧ (b.get key).map (·.1) = etag ∧
      b' = ⟨b.rows.set key (b.revision + 1, value), b.revision + 1⟩) := by
  unfold MemoryBackend.put at h
  split at h
  · cases h
    exact .inl ⟨rfl, rfl⟩
  · rename_i hEtag
    split at h
    · cases h
    · cases h
      exact .inr ⟨rfl, not_not.mp hEtag, rfl⟩

theorem get_set (b : MemoryBackend) (n : Nat) (key j : Str) (value : DeviceRecord) :
    (⟨b.rows.set key (n, value), n⟩ : MemoryBackend).get j = if j = key then some (n, value) else b.get j :=
  OrderedMap.get?_set b.rows key j (n, value)

theorem Current.put {maxKeys : Nat} {b b' : MemoryBackend} {key other : Str} {etag : Option Nat}
    {value : DeviceRecord} {won : Bool} {prior : Option (Nat × DeviceRecord)} (h : Current b other prior)
    (hPut : b.put maxKeys key etag value = some (won, b')) : Current b' other prior := by
  rcases put_eq_some hPut with ⟨-, rfl⟩ | ⟨-, -, rfl⟩
  · exact h
  · intro p hp
    obtain ⟨hOld, hSame⟩ := h p hp
    refine ⟨Nat.le_succ_of_le hOld, fun q hq hqp => ?_⟩
    rw [get_set] at hq
    split at hq
    · cases hq
      simp only at hqp
      omega
    · exact hSame q hq hqp

/-- A compare-and-set that went through extends every device's history lawfully. -/
theorem LedgerInv.put {quota : Int} {maxKeys call : Nat} {b b' : MemoryBackend} {log : List Commit} {key : Str}
    {r : Reservation} {commitID : Str} {prior : Option (Nat × DeviceRecord)} {etag : Option Nat}
    {value : DeviceRecord} (h : LedgerInv quota b log) (hCurrent : Current b key prior)
    (hDecide : decideReservation quota r commitID prior = .put etag value)
    (hPut : b.put maxKeys key etag value = some (true, b')) : LedgerInv quota b' (log ++ [⟨call, key, r⟩]) := by
  obtain ⟨rfl, rfl, hAdmits⟩ := decideReservation_eq_put hDecide
  rcases put_eq_some hPut with ⟨hLost, -⟩ | ⟨-, hEtag, rfl⟩
  · cases hLost
  have hRow := hCurrent.eq_of_etag hEtag
  subst hRow
  constructor
  · intro j p hp
    rw [get_set] at hp
    split at hp
    · cases hp
      exact le_rfl
    · exact Nat.le_succ_of_le (h.etags j p hp)
  · intro j
    rw [get_set, commitsOf_append]
    by_cases hj : j = key
    · subst hj
      simpa using rowAgrees_charged commitID hAdmits (h.agrees j)
    · simpa [hj, Ne.symm hj] using h.agrees j
  · intro j
    rw [commitsOf_append]
    by_cases hj : j = key
    · subst hj
      simpa using lawful_charged hAdmits (h.agrees j) (h.lawful j)
    · simpa [Ne.symm hj] using h.lawful j
  · intro c hc
    rw [get_set]
    rcases List.mem_append.mp hc with hOld | hNew
    · obtain ⟨p, hp, hPem⟩ := h.registered c hOld
      split
      · rename_i hKey
        rw [hKey] at hp
        exact ⟨_, rfl, (hAdmits.sameKey p.2 (by rw [hp]; rfl)).symm.trans hPem⟩
      · exact ⟨p, hp, hPem⟩
    · obtain rfl := List.mem_singleton.mp hNew
      exact ⟨_, if_pos rfl, rfl⟩

end Columbia.Issuer.Ledger
