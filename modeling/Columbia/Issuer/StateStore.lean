import Columbia.Js.Value
import Columbia.Lib.OrderedMap

/-! # The issuer's device state: record, validator, reservation decision, memory backend

`reserve` alternates backend reads and conditional writes. What it does between a read and the write
that follows is the pure `decideReservation`; the loop around it is `resume`, one backend operation at a time.
-/
namespace Columbia.Issuer.StateStore
open Columbia.Js Columbia.Lib
set_option autoImplicit false

/-- `value` of a device row. Object keys of `quota` are the epochs; `String` is injective on them. -/
structure DeviceRecord where
  version : Int
  commitID : Str
  publicKeyPem : Str
  signCount : Int
  latestEpoch : Int
  quota : OrderedMap Int Int

/-- `createIssuerState`'s arguments that survive its configuration check. -/
structure IssuerState where
  salt : Bytes
  quota : Int
  operationTimeoutMs : Int
  salt_length : 32 ≤ salt.length
  quota_nonneg : 0 ≤ quota
  quota_safe : quota ≤ maxSafeInteger
  timeout_pos : 0 < operationTimeoutMs

def createIssuerState (salt : Bytes) (quota operationTimeoutMs : Value) : Option IssuerState :=
  if hSalt : 32 ≤ salt.length then
    match hQuota : safeIntegerFrom? 0 quota, hTimeout : safeIntegerFrom? 1 operationTimeoutMs with
    | some q, some t => some ⟨salt, q, t, hSalt, (safeIntegerFrom?_eq_some hQuota).1,
        (safeIntegerFrom?_eq_some hQuota).2, one_le_of_safeIntegerFrom? hTimeout⟩
    | _, _ => none
  else none

/-- A salt of the least length and a small quota. -/
def smallState : IssuerState where
  salt := List.replicate 32 7
  quota := 6
  operationTimeoutMs := 8000
  salt_length := by decide
  quota_nonneg := by decide
  quota_safe := by decide
  timeout_pos := by decide

def keyFor (hmac : Bytes → Str → Digest) (salt : Bytes) (keyId : Str) : Str := hex (hmac salt keyId).val

def safeNat (n : Int) : Bool := 0 ≤ n ∧ n ≤ maxSafeInteger

/-- `checked`: `none` is the thrown `StateUnavailable`. -/
def checked (record : DeviceRecord) : Option DeviceRecord :=
  if record.version ≠ 1 ∨ 4096 < record.publicKeyPem.length ∨ safeNat record.signCount = false ∨
      safeNat record.latestEpoch = false ∨ 2 < record.quota.size ∨
      record.quota.entries.any (fun e =>
        ¬(e.1 = record.latestEpoch ∨ e.1 = record.latestEpoch - 1) ∨ safeNat e.2 = false) then none
  else some record

inductive Mode
  | attestation
  | assertion
  deriving DecidableEq

structure ReserveArgs where
  keyId : Str
  mode : Value
  publicKeyPem : Value
  signCount : Value
  epoch : Value
  count : Value

/-- The arguments that pass the check at the head of `reserve`. -/
structure Reservation where
  keyId : Str
  mode : Mode
  publicKeyPem : Str
  signCount : Int
  epoch : Int
  count : Int
  pem_length : publicKeyPem.length ≤ 4096
  signCount_safe : 0 ≤ signCount ∧ signCount ≤ maxSafeInteger
  epoch_safe : 0 ≤ epoch ∧ epoch ≤ maxSafeInteger
  count_safe : 1 ≤ count ∧ count ≤ maxSafeInteger

def mode? : Value → Option Mode
  | .str s => if s = str "attestation" then some .attestation else if s = str "assertion" then some .assertion else none
  | _ => none

def validated (args : ReserveArgs) : Option Reservation :=
  match mode? args.mode, args.publicKeyPem, hSign : safeIntegerFrom? 0 args.signCount,
      hEpoch : safeIntegerFrom? 0 args.epoch, hCount : safeIntegerFrom? 1 args.count with
  | some mode, .str pem, some signCount, some epoch, some count =>
    if hPem : pem.length ≤ 4096 then
      some ⟨args.keyId, mode, pem, signCount, epoch, count, hPem, safeIntegerFrom?_eq_some hSign,
        safeIntegerFrom?_eq_some hEpoch, safeIntegerFrom?_eq_some hCount⟩
    else none
  | _, _, _, _, _ => none

inductive Reason
  | unknown_device_key
  | key_mismatch
  | replayed_assertion
  | expired_epoch
  | quota_exceeded
  deriving DecidableEq

/-- `unavailable` is a thrown `StateUnavailable`. -/
inductive Outcome
  | ok
  | rejected (reason : Reason)
  | unavailable
  deriving DecidableEq

inductive Decision (Etag : Type)
  | done (outcome : Outcome)
  | put (etag : Option Etag) (value : DeviceRecord)

def latestEpoch (r : Reservation) (record : Option DeviceRecord) : Int :=
  match record with
  | some record => max r.epoch (orInt record.latestEpoch r.epoch)
  | none => max r.epoch r.epoch

def used (r : Reservation) (record : Option DeviceRecord) : Int :=
  ((record.bind fun record => record.quota.get? r.epoch).getD 0)

/-- One round of the loop that carries a truthy count of the old record over. -/
def keepCount (record : Option DeviceRecord) (counts : OrderedMap Int Int) (id : Int) : OrderedMap Int Int :=
  match record.bind fun record => record.quota.get? id with
  | some n => if n ≠ 0 then counts.set id n else counts
  | none => counts

def charged (r : Reservation) (commitID : Str) (record : Option DeviceRecord) : DeviceRecord where
  version := 1
  commitID := commitID
  publicKeyPem := r.publicKeyPem
  signCount := max r.signCount ((record.map (·.signCount)).getD 0)
  latestEpoch := latestEpoch r record
  quota := ([latestEpoch r record, latestEpoch r record - 1].foldl (keepCount record) .empty).set
    r.epoch (used r record + r.count)

variable {Etag : Type}

/-- What `reserve` does with the row it read: return, throw, or write a new record. -/
def decideReservation (quota : Int) (r : Reservation) (commitID : Str) (prior : Option (Etag × DeviceRecord)) :
    Decision Etag :=
  match prior.map fun p => checked p.2 with
  | some none => .done .unavailable
  | record =>
    let record := record.join
    if r.mode = .assertion ∧ record.isNone then .done (.rejected .unknown_device_key)
    else if record.any (·.publicKeyPem ≠ r.publicKeyPem) then .done (.rejected .key_mismatch)
    else if r.mode = .assertion ∧ record.any (r.signCount ≤ ·.signCount) then .done (.rejected .replayed_assertion)
    else if r.epoch < latestEpoch r record - 1 then .done (.rejected .expired_epoch)
    else if maxSafeInteger < used r record + r.count then .done .unavailable
    else if 0 < quota ∧ quota < used r record + r.count then .done (.rejected .quota_exceeded)
    else .put (prior.map (·.1)) (charged r commitID record)

/-- Where a `reserve` call stands: before a read, before a write, or finished. -/
inductive Phase (Etag : Type)
  | getting (attempt : Nat)
  | putting (attempt : Nat) (etag : Option Etag) (value : DeviceRecord)
  | returned (outcome : Outcome)

def afterGet (quota : Int) (r : Reservation) (commitID : Str) (attempt : Nat)
    (prior : Option (Etag × DeviceRecord)) : Phase Etag :=
  match decideReservation quota r commitID prior with
  | .done outcome => .returned outcome
  | .put etag value => .putting attempt etag value

def nextAttempt (attempt : Nat) : Phase Etag :=
  if attempt + 1 < 4 then .getting (attempt + 1) else .returned .unavailable

/-- The closure state of `memoryDeviceBackend`; etags are the revisions they print. -/
structure MemoryBackend where
  rows : OrderedMap Str (Nat × DeviceRecord)
  revision : Nat

namespace MemoryBackend

def empty : MemoryBackend := ⟨.empty, 0⟩

def get (b : MemoryBackend) (key : Str) : Option (Nat × DeviceRecord) := b.rows.get? key

/-- `none` is the thrown `StateUnavailable` of a full table. -/
def put (maxKeys : Nat) (b : MemoryBackend) (key : Str) (etag : Option Nat) (value : DeviceRecord) :
    Option (Bool × MemoryBackend) :=
  if (b.rows.get? key).map (·.1) ≠ etag then some (false, b)
  else if b.rows.has key = false ∧ maxKeys ≤ b.rows.size then none
  else some (true, ⟨b.rows.set key (b.revision + 1, value), b.revision + 1⟩)

end MemoryBackend

end Columbia.Issuer.StateStore
