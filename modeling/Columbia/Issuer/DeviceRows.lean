import Columbia.Issuer.QuotaRecord
import Columbia.Issuer.Issue

/-! # Device rows only move forward

The validator of a row and the code that builds it are written apart. Here any number of calls, at replicas that
need not even agree on their configuration, write over one backend: no row ever fails the validator, and no row
takes anything back.
-/
namespace Columbia.Issuer.DeviceRows
open Columbia.Js Columbia.Lib StateStore Ledger QuotaRecord Replicas
set_option autoImplicit false

/-! ## Rows and the rows that follow them -/

structure Follows (row row' : DeviceRecord) : Prop where
  publicKeyPem : row'.publicKeyPem = row.publicKeyPem
  signCount : row.signCount ≤ row'.signCount
  latestEpoch : row.latestEpoch ≤ row'.latestEpoch

theorem Follows.refl (row : DeviceRecord) : Follows row row := ⟨rfl, le_rfl, le_rfl⟩

theorem Follows.trans {row row' row'' : DeviceRecord} (h : Follows row row') (h' : Follows row' row'') :
    Follows row row'' :=
  ⟨h'.publicKeyPem.trans h.publicKeyPem, h.signCount.trans h'.signCount, h.latestEpoch.trans h'.latestEpoch⟩

theorem follows_charged {quota : Int} {r : Reservation} {row : DeviceRecord} (commitID : Str)
    (hAdmits : Admits quota r (some row)) : Follows row (charged r commitID (some row)) := by
  constructor
  · exact (hAdmits.sameKey row rfl).symm
  · exact le_max_right _ _
  · change row.latestEpoch ≤ latestEpoch r (some row)
    rw [latestEpoch_some r (hAdmits.latest_nonneg row rfl)]
    exact le_max_right _ _

/-- No row is lost, and each is followed by what stands in its place. -/
def Extends (b b' : MemoryBackend) : Prop :=
  ∀ key etag row, b.get key = some (etag, row) → ∃ etag' row', b'.get key = some (etag', row') ∧ Follows row row'

theorem Extends.refl (b : MemoryBackend) : Extends b b := fun _ etag row hRow => ⟨etag, row, hRow, .refl row⟩

theorem Extends.trans {b b' b'' : MemoryBackend} (h : Extends b b') (h' : Extends b' b'') : Extends b b'' := by
  intro key etag row hRow
  obtain ⟨etag', row', hRow', hFollows⟩ := h key etag row hRow
  obtain ⟨etag'', row'', hRow'', hFollows'⟩ := h' key etag' row' hRow'
  exact ⟨etag'', row'', hRow'', hFollows.trans hFollows'⟩

structure RowsInv (b : MemoryBackend) : Prop where
  etags : ∀ key p, b.get key = some p → p.1 ≤ b.revision
  wellFormed : ∀ key p, b.get key = some p → WellFormed p.2

theorem rowsInv_empty : RowsInv .empty := by
  constructor
  · simp [MemoryBackend.get, MemoryBackend.empty]
  · simp [MemoryBackend.get, MemoryBackend.empty]

theorem RowsInv.current {b : MemoryBackend} (h : RowsInv b) (key : Str) : Current b key (b.get key) := by
  intro p hp
  refine ⟨h.etags key p hp, fun q hq _ => ?_⟩
  rw [hp] at hq
  exact (Option.some.inj hq).symm

/-- A compare-and-set decided on a row that is still current. -/
theorem RowsInv.put {quota : Int} {maxKeys : Nat} {b b' : MemoryBackend} {key : Str} {r : Reservation}
    {commitID : Str} {prior : Option (Nat × DeviceRecord)} {etag : Option Nat} {value : DeviceRecord} {won : Bool}
    (h : RowsInv b) (hCurrent : Current b key prior)
    (hDecide : decideReservation quota r commitID prior = .put etag value)
    (hPut : b.put maxKeys key etag value = some (won, b')) :
    RowsInv b' ∧ Extends b b' ∧ ∀ other, other ≠ key → b'.get other = b.get other := by
  obtain ⟨rfl, rfl, hAdmits⟩ := decideReservation_eq_put hDecide
  rcases put_eq_some hPut with ⟨-, rfl⟩ | ⟨-, hEtag, rfl⟩
  · exact ⟨h, .refl b', fun _ _ => rfl⟩
  have hRow := hCurrent.eq_of_etag hEtag
  subst hRow
  have hWellFormed : WellFormed (charged r commitID ((b.get key).map (·.2))) := by
    apply wellFormed_charged commitID _ hAdmits
    intro row hRow
    obtain ⟨p, hp, rfl⟩ := Option.map_eq_some_iff.mp hRow
    exact h.wellFormed key p hp
  refine ⟨⟨?_, ?_⟩, ?_, ?_⟩
  · intro j p hp
    rw [get_set] at hp
    split at hp
    · cases hp
      exact le_rfl
    · exact Nat.le_succ_of_le (h.etags j p hp)
  · intro j p hp
    rw [get_set] at hp
    split at hp
    · cases hp
      exact hWellFormed
    · exact h.wellFormed j p hp
  · intro j etag row hRow
    rw [get_set]
    split
    · rename_i hj
      subst hj
      rw [hRow] at hAdmits ⊢
      exact ⟨_, _, rfl, follows_charged commitID hAdmits⟩
    · exact ⟨etag, row, hRow, .refl row⟩
  · intro other hOther
    rw [get_set, if_neg hOther]

/-! ## Any number of replicas -/

section
variable (hmac : Bytes → Str → Digest) (cfg : Nat → IssuerState) (maxKeys : Nat)

/-- Call `i` runs at a replica configured by `cfg i`. -/
def fleet : Calls Shared Call Action Empty where
  start := ⟨.empty, []⟩
  idle := .idle
  act i := Replicas.act hmac (cfg i) maxKeys i
  env := nofun

example (state : IssuerState) : fleet hmac (fun _ => state) maxKeys = replicas hmac state maxKeys := rfl

/-- What a call is about to write was decided on a row that is current if its etag is. -/
def Decided (i : Nat) (s : Shared) (call : Call) : Prop :=
  ∀ r commitID attempt etag value, call = .running r commitID (.putting attempt etag value) →
    ∃ prior, Current s.backend (rowKey hmac (cfg i) r) prior ∧
      decideReservation (cfg i).quota r commitID prior = .put etag value

variable {hmac cfg maxKeys}

/-- One step of a call, with what it does to the rows. -/
theorem own_step {i : Nat} {action : Action} {s s' : Shared} {call call' : Call}
    (hRows : RowsInv s.backend) (hCall : Decided hmac cfg i s call)
    (h : Replicas.act hmac (cfg i) maxKeys i action s call = some (s', call')) :
    (RowsInv s'.backend ∧ Decided hmac cfg i s' call') ∧ Extends s.backend s'.backend ∧
      ∀ key, (∀ r commitID phase, call = .running r commitID phase → key ≠ rowKey hmac (cfg i) r) →
        s'.backend.get key = s.backend.get key := by
  rcases act_cases h with ⟨rfl, rfl, rfl | ⟨r, commitID, rfl⟩⟩ | ⟨r, commitID, attempt, rfl, rfl, rfl⟩ |
      ⟨r, commitID, attempt, etag, value, rfl, ⟨rfl, rfl⟩ | ⟨b, hPut, rfl, rfl⟩ | ⟨b, hPut, rfl, rfl⟩⟩
  · exact ⟨⟨hRows, nofun⟩, .refl _, fun _ _ => rfl⟩
  · exact ⟨⟨hRows, nofun⟩, .refl _, fun _ _ => rfl⟩
  · refine ⟨⟨hRows, ?_⟩, .refl _, fun _ _ => rfl⟩
    intro _ _ _ etag value hPhase
    injection hPhase with hr hc hPhase
    subst hr hc
    exact ⟨_, hRows.current _, afterGet_eq_putting hPhase⟩
  · exact ⟨⟨hRows, nofun⟩, .refl _, fun _ _ => rfl⟩
  · obtain ⟨prior, hCurrent, hDecide⟩ := hCall _ _ _ _ _ rfl
    obtain ⟨hInv, hExtends, hOther⟩ := hRows.put hCurrent hDecide hPut
    exact ⟨⟨hInv, nofun⟩, hExtends, fun key hKey => hOther key (hKey r commitID _ rfl)⟩
  · obtain ⟨prior, hCurrent, hDecide⟩ := hCall _ _ _ _ _ rfl
    obtain ⟨hInv, hExtends, hOther⟩ := hRows.put hCurrent hDecide hPut
    refine ⟨⟨hInv, ?_⟩, hExtends, fun key hKey => hOther key (hKey r commitID _ rfl)⟩
    rcases nextAttempt_cases attempt with ⟨n, hNext⟩ | hNext
    · rw [hNext]
      nofun
    · rw [hNext]
      nofun

theorem other_step {i j : Nat} {action : Action} {s s' : Shared} {call call' other : Call}
    (hOther : Decided hmac cfg j s other)
    (h : Replicas.act hmac (cfg i) maxKeys i action s call = some (s', call')) : Decided hmac cfg j s' other := by
  rcases act_cases h with ⟨rfl, -, -⟩ | ⟨r, commitID, attempt, rfl, -, -⟩ |
      ⟨r, commitID, attempt, etag, value, -, ⟨rfl, -⟩ | ⟨b, hPut, rfl, -⟩ | ⟨b, hPut, rfl, -⟩⟩
  · exact hOther
  · exact hOther
  · exact hOther
  all_goals
    intro r' commitID' attempt' etag' value' hPhase
    obtain ⟨prior, hCurrent, hDecide⟩ := hOther _ _ _ _ _ hPhase
    exact ⟨prior, hCurrent.put hPut, hDecide⟩

theorem decided_idle {i : Nat} {s : Shared} : Decided hmac cfg i s .idle := nofun

theorem fleet_invariant {p : Pool Shared Call} (h : (fleet hmac cfg maxKeys).system.Reachable p) :
    RowsInv p.shared.backend ∧ ∀ i, Decided hmac cfg i p.shared (p.calls i) :=
  Calls.invariant (fun s => RowsInv s.backend) (Decided hmac cfg) rowsInv_empty (fun _ => decided_idle)
    (fun _ _ _ _ _ _ hRows hCall hAct => (own_step hRows hCall hAct).1)
    (fun _ _ _ _ _ _ _ _ _ _ hOther hAct => other_step hOther hAct) (fun _ event => nomatch event) h

theorem fleet_step {p q : Pool Shared Call} (h : (fleet hmac cfg maxKeys).system.Reachable p)
    {label : Calls.Label Action Empty} (hNext : (fleet hmac cfg maxKeys).system.next p label = some q) :
    Extends p.shared.backend q.shared.backend ∧ ∀ i action, label = .act i action →
      ∀ key, (∀ r commitID phase, p.calls i = .running r commitID phase → key ≠ rowKey hmac (cfg i) r) →
        q.shared.backend.get key = p.shared.backend.get key := by
  obtain ⟨hRows, hCalls⟩ := fleet_invariant h
  cases label with
  | env event => cases event
  | act i action =>
    obtain ⟨shared, l, hAct, rfl⟩ := Calls.system_next_act hNext
    obtain ⟨-, hExtends, hOther⟩ := own_step hRows (hCalls i) hAct
    refine ⟨hExtends, ?_⟩
    rintro _ _ ⟨⟩
    exact hOther

/-- A well-formed row is never the reason for which `reserve` is unavailable. -/
theorem unavailable_of_wellFormed {etag : Nat} {row : DeviceRecord} (hRow : WellFormed row) {quota : Int}
    {r : Reservation} {commitID : Str}
    (h : decideReservation quota r commitID (some (etag, row)) = .done .unavailable) :
    maxSafeInteger < used r (some row) + r.count := by
  unfold decideReservation at h
  simp only [Option.map_some, hRow.checked, Option.join_some] at h
  split at h
  · cases h
  split at h
  · cases h
  split at h
  · cases h
  split at h
  · cases h
  split at h
  · assumption
  split at h
  · cases h
  · cases h

theorem device_rows_well_formed_and_forward {p : Pool Shared Call}
    (h : (fleet hmac cfg maxKeys).system.Reachable p) :
    (∀ key etag row, p.shared.backend.get key = some (etag, row) →
      checked row = some row ∧
      Issue.attestedKey (p.shared.backend.get key) = some (some (row.publicKeyPem, row.signCount)) ∧
      (∀ quota r commitID,
        decideReservation quota r commitID (p.shared.backend.get key) = .done .unavailable →
          maxSafeInteger < used r (some row) + r.count) ∧
      row.quota.size ≤ 2 ∧
      ∀ e n, row.quota.get? e = some n →
        (e = row.latestEpoch ∨ e = row.latestEpoch - 1) ∧ 1 ≤ n ∧ n ≤ maxSafeInteger) ∧
    (∀ labels q, (fleet hmac cfg maxKeys).system.run p labels = some q →
      Extends p.shared.backend q.shared.backend) ∧
    ∀ i action q, (fleet hmac cfg maxKeys).system.next p (.act i action) = some q →
      ∀ key, (∀ r commitID phase, p.calls i = .running r commitID phase → key ≠ rowKey hmac (cfg i) r) →
        q.shared.backend.get key = p.shared.backend.get key := by
  refine ⟨?_, ?_, ?_⟩
  · intro key etag row hGet
    have hRow : WellFormed row := (fleet_invariant h).1.wellFormed key (etag, row) hGet
    refine ⟨hRow.checked, ?_, ?_, hRow.quota_size, hRow.quota⟩
    · rw [hGet]
      simp only [Issue.attestedKey, hRow.checked, Option.map_some]
    · intro quota r commitID hUnavailable
      rw [hGet] at hUnavailable
      exact unavailable_of_wellFormed hRow hUnavailable
  · intro labels q hRun
    exact h.related_of_run (R := fun p q => Extends p.shared.backend q.shared.backend)
      (fun _ => .refl _) (fun _ _ _ => .trans) (fun _ _ _ hp hNext => (fleet_step hp hNext).1) hRun
  · intro i action q hNext
    exact (fleet_step h hNext).2 i action rfl

end

/-- Every second replica sets no quota. -/
def mixedQuotas (i : Nat) : IssuerState :=
  if i % 2 = 0 then testState else { testState with quota := 0, quota_nonneg := by decide, quota_safe := by decide }

/-- Epoch 0 first; then epochs 1 and 0 at once, of which the second writer has to read again. -/
def epochZero : List (Calls.Label Action Empty) :=
  [.act 0 (.start (rolloverArgs "attestation" 0 0 2) (str "a")), .act 0 .resume, .act 0 .resume,
   .act 1 (.start (rolloverArgs "assertion" 3 1 9) (str "b")),
   .act 2 (.start (rolloverArgs "attestation" 0 0 1) (str "c")),
   .act 1 .resume, .act 2 .resume, .act 1 .resume, .act 2 .resume, .act 2 .resume, .act 2 .resume]

def rowOf (p : Pool Shared Call) (keyId : String) : Option (Str × Int × Int × List (Int × Int)) :=
  (p.shared.backend.get (keyFor testHmac testState.salt (str keyId))).map fun row =>
    (row.2.publicKeyPem, row.2.signCount, row.2.latestEpoch, row.2.quota.entries)

theorem device_rows_well_formed_and_forward_epoch_zero :
    rowOf ((fleet testHmac mixedQuotas 500000).system.after epochZero) "canonical-key" =
      some (str "public-key-fixture", 3, 1, [(1, 9), (0, 3)]) ∧
    ∀ key etag row,
      ((fleet testHmac mixedQuotas 500000).system.after epochZero).shared.backend.get key = some (etag, row) →
        checked row = some row := by
  refine ⟨by decide +kernel, fun key etag row hGet => ?_⟩
  exact ((device_rows_well_formed_and_forward (System.reachable_after _ epochZero)).1 key etag row hGet).1

end Columbia.Issuer.DeviceRows
