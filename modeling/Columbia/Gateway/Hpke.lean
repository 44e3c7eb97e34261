import Columbia.Gateway.Varint
import Columbia.Gateway.Handler

/-! # Hybrid public key encryption

A suite names its algorithms by number. Both sides derive a key, a base nonce and an exporter secret from a shared
secret and some information; a context then encrypts messages one after the other, each under a nonce of its own.
-/
namespace Columbia.Gateway.Hpke
open Columbia.Js Columbia.Lib Columbia.Gateway.Varint Columbia.Gateway.Handler
set_option autoImplicit false

/-! ## Algorithms -/

def KEM_X25519_HKDF_SHA256 : UInt16 := 0x20
def KEM_X25519_KYBER768_DRAFT00 : UInt16 := 0x30
def KDF_HKDF_SHA256 : UInt16 := 0x01
def AEAD_AES128GCM : UInt16 := 0x01

def kemIsValid (k : UInt16) : Bool := k ∈ [0x10, 0x11, 0x12, 0x20, 0x21, 0x30, 0x647a]

def kdfIsValid (k : UInt16) : Bool := k ∈ [0x01, 0x02, 0x03]

def aeadIsValid (a : UInt16) : Bool := a ∈ [0x01, 0x02, 0x03]

/-- Sizes of an encapsulated key and of a public key. Like the sizes below they are those of a valid algorithm: whoever
asks for one has checked the number. -/
def kemSizes (k : UInt16) : Nat × Nat :=
  if k = 0x10 then (65, 65)
  else if k = 0x11 then (97, 97)
  else if k = 0x12 then (133, 133)
  else if k = 0x20 then (32, 32)
  else if k = 0x21 then (56, 56)
  else if k = 0x30 then (32 + 1088, 32 + 1184)
  else (1120, 1216)

def CiphertextSize (k : UInt16) : Nat := (kemSizes k).1

def PublicKeySize (k : UInt16) : Nat := (kemSizes k).2

def ExtractSize (k : UInt16) : Nat := if k = 0x01 then 32 else if k = 0x02 then 48 else 64

def KeySize (a : UInt16) : Nat := if a = 0x01 then 16 else 32

def NonceSize : Nat := 12

/-- The cryptography of the vendored and the standard library, with what its documentation says of it. -/
structure Primitives (SK PK : Type) where
  deriveKeyPair : UInt16 → Bytes → Except Failure (Bytes × SK)
  encapsulate : UInt16 → PK → Bytes → Except Failure (Bytes × Bytes)
  decapsulate : UInt16 → SK → Bytes → Except Failure Bytes
  unmarshalPublicKey : UInt16 → Bytes → Except Failure PK
  hkdfExtract : UInt16 → Bytes → Bytes → Bytes
  hkdfExpand : UInt16 → Bytes → Bytes → Nat → Bytes
  aeadSeal : UInt16 → Bytes → Bytes → Bytes → Bytes → Bytes
  aeadOpen : UInt16 → Bytes → Bytes → Bytes → Bytes → Except Failure Bytes
  derive_length : ∀ kem seed publicKey sk, deriveKeyPair kem seed = .ok (publicKey, sk) →
    publicKey.length = PublicKeySize kem
  derive_pair : ∀ kem seed publicKey sk pk random enc ss, deriveKeyPair kem seed = .ok (publicKey, sk) →
    unmarshalPublicKey kem publicKey = .ok pk → encapsulate kem pk random = .ok (enc, ss) → decapsulate kem sk enc = .ok ss
  encapsulate_length : ∀ kem pk seed enc ss, encapsulate kem pk seed = .ok (enc, ss) → enc.length = CiphertextSize kem
  extract_length : ∀ kdf secret salt, kdfIsValid kdf = true → (hkdfExtract kdf secret salt).length = ExtractSize kdf
  expand_length : ∀ kdf prk info len, (hkdfExpand kdf prk info len).length = len
  open_seal : ∀ aead key nonce pt aad, aeadOpen aead key nonce (aeadSeal aead key nonce pt aad) aad = .ok pt

/-! ## Contexts -/

/-- `NewSuite` makes no other suites. -/
structure Suite where
  kemID : UInt16
  kdfID : UInt16
  aeadID : UInt16
  valid : kemIsValid kemID = true ∧ kdfIsValid kdfID = true ∧ aeadIsValid aeadID = true
  deriving DecidableEq

/-- The fields of an `encdecContext` that a later call reads. -/
structure Context where
  suite : Suite
  exporterSecret : Bytes
  key : Bytes
  baseNonce : Bytes
  sequenceNumber : Bytes
  deriving DecidableEq

def errAEADSeqOverflows : Failure := .other (text "hpke: AEAD sequence number overflows")

/-- The carry runs from the last byte to the first. -/
def addCarry : Bytes → Bytes × Nat
  | [] => ([], 1)
  | b :: rest =>
    let (rest, carry) := addCarry rest
    let sum := b.toNat + carry
    (UInt8.ofNat (sum &&& 0xff) :: rest, sum >>> 8)

def increment (sequenceNumber : Bytes) : Except Failure Bytes :=
  if sequenceNumber.all (· == 0xff) then .error errAEADSeqOverflows
  else
    match addCarry sequenceNumber with
    | (next, carry) => if carry ≠ 0 then .error errAEADSeqOverflows else .ok next

def calcNonce (c : Context) : Bytes := List.zipWith (· ^^^ ·) c.baseNonce c.sequenceNumber

def versionLabel : Bytes := text "HPKE-v1"

def Suite.getSuiteID (suite : Suite) : Bytes :=
  text "HPKE" ++ uint16BE suite.kemID.toNat ++ uint16BE suite.kdfID.toNat ++ uint16BE suite.aeadID.toNat

section
variable {SK PK : Type} (P : Primitives SK PK)

def Expand (kdf : UInt16) (prk info : Bytes) (outputLen : Nat) : Except Failure Bytes :=
  if prk.length < ExtractSize kdf then .error .panicked
  else if 255 * ExtractSize kdf < outputLen then .error .panicked
  else .ok (P.hkdfExpand kdf (prk.take (ExtractSize kdf)) info outputLen)

def labeledExtract (suite : Suite) (salt label ikm : Bytes) : Bytes :=
  P.hkdfExtract suite.kdfID (versionLabel ++ suite.getSuiteID ++ label ++ ikm) salt

def labeledExpand (suite : Suite) (prk label info : Bytes) (l : Nat) : Except Failure Bytes :=
  Expand P suite.kdfID prk (uint16BE l ++ versionLabel ++ suite.getSuiteID ++ label ++ info) l

/-- `AEAD.New`, as far as it can fail. -/
def aeadNew (aead : UInt16) (key : Bytes) : Except Failure Unit :=
  require (key.length ∈ if aead = 0x03 then [32] else [16, 24, 32]) (.other (text "invalid key size"))

def verifyPSKInputs (modeID : UInt8) (psk pskID : Option Bytes) : Except Failure Unit := do
  require (psk.isSome = pskID.isSome) (.other (text "inconsistent PSK inputs"))
  if modeID = 0x00 ||| 0x02 then
    require (psk.isSome = false) (.other (text "PSK input provided when not needed"))
  else if modeID = 0x01 ||| 0x03 then require (psk.isSome = true) (.other (text "missing required PSK input"))
  else .ok ()

def keySchedule (suite : Suite) (modeID : UInt8) (ss info : Bytes) (psk pskID : Option Bytes) :
    Except Failure Context := do
  verifyPSKInputs modeID psk pskID
  let pskIDHash := labeledExtract P suite [] (text "psk_id_hash") (pskID.getD [])
  let infoHash := labeledExtract P suite [] (text "info_hash") info
  let keySchCtx := modeID :: (pskIDHash ++ infoHash)
  let secret := labeledExtract P suite ss (text "secret") (psk.getD [])
  let key ← labeledExpand P suite secret (text "key") keySchCtx (KeySize suite.aeadID)
  aeadNew suite.aeadID key
  let baseNonce ← labeledExpand P suite secret (text "base_nonce") keySchCtx NonceSize
  let exporterSecret ← labeledExpand P suite secret (text "exp") keySchCtx (ExtractSize suite.kdfID)
  return ⟨suite, exporterSecret, key, baseNonce, List.replicate NonceSize 0⟩

def Export (c : Context) (exporterContext : Bytes) (length : Nat) : Except Failure Bytes :=
  if 255 * ExtractSize c.suite.kdfID < length then .error .panicked
  else labeledExpand P c.suite c.exporterSecret (text "sec") exporterContext length

/-- `sealContext.Seal`, with the context after it. -/
def Seal (c : Context) (pt aad : Bytes) : Except Failure (Bytes × Context) := do
  let ct := P.aeadSeal c.suite.aeadID c.key (calcNonce c) pt aad
  let sequenceNumber ← increment c.sequenceNumber
  return (ct, { c with sequenceNumber := sequenceNumber })

/-- `openContext.Open`, with the context after it. -/
def Open (c : Context) (ct aad : Bytes) : Except Failure (Bytes × Context) := do
  let pt ← P.aeadOpen c.suite.aeadID c.key (calcNonce c) ct aad
  let sequenceNumber ← increment c.sequenceNumber
  return (pt, { c with sequenceNumber := sequenceNumber })

/-- `NewSender` and `Setup` in the base mode; the seed is random. -/
def senderSetup (suite : Suite) (pkR : PK) (info seed : Bytes) : Except Failure (Bytes × Context) := do
  let (enc, ss) ← P.encapsulate suite.kemID pkR seed
  let ctx ← keySchedule P suite 0x00 ss info none none
  return (enc, ctx)

/-- `NewReceiver` and `Setup` in the base mode. -/
def receiverSetup (suite : Suite) (skR : SK) (info enc : Bytes) : Except Failure Context := do
  let ss ← P.decapsulate suite.kemID skR enc
  keySchedule P suite 0x00 ss info none none

end

/-! ## The sequence number -/

theorem addCarry_length (s : Bytes) : (addCarry s).1.length = s.length := by
  induction s with
  | nil => rfl
  | cons b rest ih => exact congrArg Nat.succ ih

theorem addCarry_value (s : Bytes) :
    (addCarry s).2 * 256 ^ s.length + integerOf (addCarry s).1 = integerOf s + 1 := by
  induction s with
  | nil => rfl
  | cons b rest ih =>
    have hLow : ∀ sum : Nat, (UInt8.ofNat (sum &&& 0xff)).toNat = sum % 256 := by
      intro sum
      have hAnd : sum &&& 0xff = sum % 2 ^ 8 := Nat.and_two_pow_sub_one_eq_mod sum 8
      rw [hAnd, UInt8.toNat_ofNat']
      omega
    change ((b.toNat + (addCarry rest).2) >>> 8) * 256 ^ (rest.length + 1) +
      integerOf (UInt8.ofNat ((b.toNat + (addCarry rest).2) &&& 0xff) :: (addCarry rest).1) = _
    have hEight : 2 ^ 8 = 256 := rfl
    rw [integerOf_cons, integerOf_cons, hLow, addCarry_length, Nat.shiftRight_eq_div_pow, hEight, pow_succ]
    have hSplit : (b.toNat + (addCarry rest).2) / 256 * 256 + (b.toNat + (addCarry rest).2) % 256 =
        b.toNat + (addCarry rest).2 := Nat.div_add_mod' _ _
    calc (b.toNat + (addCarry rest).2) / 256 * (256 ^ rest.length * 256) +
          ((b.toNat + (addCarry rest).2) % 256 * 256 ^ rest.length + integerOf (addCarry rest).1)
        = ((b.toNat + (addCarry rest).2) / 256 * 256 + (b.toNat + (addCarry rest).2) % 256) * 256 ^ rest.length +
            integerOf (addCarry rest).1 := by ring
      _ = b.toNat * 256 ^ rest.length + ((addCarry rest).2 * 256 ^ rest.length + integerOf (addCarry rest).1) := by
          rw [hSplit]; ring
      _ = b.toNat * 256 ^ rest.length + integerOf rest + 1 := by rw [ih]; ring

/-- The sequence number counts, and stops at its largest value. -/
theorem increment_eq_ok {s next : Bytes} :
    increment s = .ok next ↔ next.length = s.length ∧ integerOf next = integerOf s + 1 := by
  have hValue := addCarry_value s
  have hNext := integerOf_lt (addCarry s).1
  have hLength := addCarry_length s
  rw [hLength] at hNext
  have hFull : s.all (· == 0xff) = true → integerOf s + 1 = 256 ^ s.length := by
    intro hAll
    clear hValue hNext hLength
    induction s with
    | nil => rfl
    | cons b rest ih =>
      rw [List.all_cons, Bool.and_eq_true, beq_iff_eq] at hAll
      have hRest := ih hAll.2
      have hByte : (0xff : UInt8).toNat = 255 := rfl
      rw [integerOf_cons, hAll.1, hByte, List.length_cons, pow_succ]
      omega
  constructor
  · intro h
    unfold increment at h
    split at h
    · cases h
    · dsimp only at h
      split at h
      · cases h
      · rename_i hCarry
        cases h
        rw [not_not.mp hCarry] at hValue
        exact ⟨hLength, by omega⟩
  · rintro ⟨hSame, hSucc⟩
    have hBound := integerOf_lt next
    rw [hSame] at hBound
    have hNotFull : s.all (· == 0xff) = false := by
      by_contra hAll
      have := hFull (by simpa using hAll)
      omega
    have hCarry : (addCarry s).2 = 0 := by
      by_contra hCarry
      have hPos : 256 ^ s.length ≤ (addCarry s).2 * 256 ^ s.length := Nat.le_mul_of_pos_left _ (by omega)
      omega
    have hEq : (addCarry s).1 = next := by
      rw [hCarry] at hValue
      exact integerOf_injective (hLength.trans hSame.symm) (by omega)
    rw [increment, if_neg (by simp [hNotFull])]
    change (if (addCarry s).2 ≠ 0 then _ else Except.ok (addCarry s).1) = _
    rw [if_neg (by simp [hCarry]), hEq]

/-! ## Both sides of a context -/

section
variable {SK PK : Type} {P : Primitives SK PK}

def sealAll (P : Primitives SK PK) (aad : Bytes) (c : Context) : List Bytes → Except Failure (List Bytes × Context)
  | [] => .ok ([], c)
  | pt :: rest => do
    let (ct, c) ← Seal P c pt aad
    let (cts, c) ← sealAll P aad c rest
    return (ct :: cts, c)

def openAll (P : Primitives SK PK) (aad : Bytes) (c : Context) : List Bytes → Except Failure (List Bytes × Context)
  | [] => .ok ([], c)
  | ct :: rest => do
    let (pt, c) ← Open P c ct aad
    let (pts, c) ← openAll P aad c rest
    return (pt :: pts, c)

theorem seal_eq_ok {c c' : Context} {pt aad ct : Bytes} : Seal P c pt aad = .ok (ct, c') ↔
    ct = P.aeadSeal c.suite.aeadID c.key (calcNonce c) pt aad ∧
      ∃ next, increment c.sequenceNumber = .ok next ∧ c' = { c with sequenceNumber := next } := by
  simp only [Seal, bind_eq_ok, pure, Except.pure, Except.ok.injEq, Prod.mk.injEq]
  constructor
  · rintro ⟨next, hNext, rfl, rfl⟩
    exact ⟨rfl, next, hNext, rfl⟩
  · rintro ⟨rfl, next, hNext, rfl⟩
    exact ⟨next, hNext, rfl, rfl⟩

/-- What one side seals the other opens, and both are at the same message again. -/
theorem open_of_seal {c c' : Context} {pt aad ct : Bytes} (hSeal : Seal P c pt aad = .ok (ct, c')) :
    Open P c ct aad = .ok (pt, c') := by
  obtain ⟨rfl, next, hNext, rfl⟩ := seal_eq_ok.mp hSeal
  rw [Open, P.open_seal, hNext]
  rfl

/-- The nonces of the next messages. -/
def nonces (c : Context) : Nat → List Bytes
  | 0 => []
  | n + 1 =>
    calcNonce c :: match increment c.sequenceNumber with
      | .ok next => nonces { c with sequenceNumber := next } n
      | .error _ => []

theorem xor_cancel_left (a b c : UInt8) (h : a ^^^ b = a ^^^ c) : b = c := by
  have hXor := congrArg (a ^^^ ·) h
  simpa [← UInt8.xor_assoc] using hXor

theorem zipWith_xor_injective {base a b : Bytes} (ha : a.length = base.length) (hb : b.length = base.length)
    (h : List.zipWith (· ^^^ ·) base a = List.zipWith (· ^^^ ·) base b) : a = b := by
  induction base generalizing a b with
  | nil =>
    rw [List.eq_nil_of_length_eq_zero ha, List.eq_nil_of_length_eq_zero hb]
  | cons x base ih =>
    cases a with
    | nil => cases ha
    | cons y a =>
      cases b with
      | nil => cases hb
      | cons z b =>
        rw [List.zipWith_cons_cons, List.zipWith_cons_cons, List.cons.injEq] at h
        rw [xor_cancel_left x y z h.1, ih (Nat.succ.inj ha) (Nat.succ.inj hb) h.2]

/-- A later nonce belongs to a larger sequence number. -/
theorem mem_nonces {c : Context} (hSize : c.sequenceNumber.length = c.baseNonce.length) {n : Nat} {nonce : Bytes}
    (h : nonce ∈ nonces c n) : ∃ s : Bytes, s.length = c.baseNonce.length ∧
      integerOf c.sequenceNumber ≤ integerOf s ∧ nonce = List.zipWith (· ^^^ ·) c.baseNonce s := by
  induction n generalizing c with
  | zero => cases h
  | succ n ih =>
    rcases List.mem_cons.mp h with rfl | hRest
    · exact ⟨c.sequenceNumber, hSize, le_rfl, rfl⟩
    · cases hNext : increment c.sequenceNumber with
      | error e =>
        rw [hNext] at hRest
        cases hRest
      | ok next =>
        rw [hNext] at hRest
        obtain ⟨hLength, hValue⟩ := increment_eq_ok.mp hNext
        obtain ⟨s, hs, hLe, rfl⟩ := ih (hLength.trans hSize) hRest
        refine ⟨s, hs, ?_, rfl⟩
        dsimp only at hLe
        omega

theorem nonces_nodup {c : Context} (hSize : c.sequenceNumber.length = c.baseNonce.length) (n : Nat) :
    (nonces c n).Nodup := by
  induction n generalizing c with
  | zero => exact List.nodup_nil
  | succ n ih =>
    rw [nonces, List.nodup_cons]
    cases hNext : increment c.sequenceNumber with
    | error e => exact ⟨List.not_mem_nil, List.nodup_nil⟩
    | ok next =>
      obtain ⟨hLength, hValue⟩ := increment_eq_ok.mp hNext
      refine ⟨fun hMem => ?_, ih (hLength.trans hSize)⟩
      obtain ⟨s, hs, hLe, hEq⟩ := mem_nonces (hLength.trans hSize) hMem
      have hSame := zipWith_xor_injective hSize hs hEq
      dsimp only at hLe
      rw [← hSame] at hLe
      omega

theorem sealAll_cons {c c' : Context} {aad pt : Bytes} {rest : List Bytes} {cts : List Bytes} :
    sealAll P aad c (pt :: rest) = .ok (cts, c') ↔ ∃ next tail, increment c.sequenceNumber = .ok next ∧
      sealAll P aad { c with sequenceNumber := next } rest = .ok (tail, c') ∧
      cts = P.aeadSeal c.suite.aeadID c.key (calcNonce c) pt aad :: tail := by
  simp only [sealAll, bind_eq_ok, Prod.exists, seal_eq_ok, pure, Except.pure, Except.ok.injEq, Prod.mk.injEq]
  constructor
  · rintro ⟨_, _, ⟨rfl, next, hNext, rfl⟩, tail, _, hTail, rfl, rfl⟩
    exact ⟨next, tail, hNext, hTail, rfl⟩
  · rintro ⟨next, tail, hNext, hTail, rfl⟩
    exact ⟨_, _, ⟨rfl, next, hNext, rfl⟩, tail, c', hTail, rfl, rfl⟩

theorem sealAll_nonces {aad : Bytes} {pts cts : List Bytes} {c c' : Context}
    (h : sealAll P aad c pts = .ok (cts, c')) :
    cts = List.zipWith (fun nonce pt => P.aeadSeal c.suite.aeadID c.key nonce pt aad) (nonces c pts.length) pts := by
  induction pts generalizing c cts with
  | nil =>
    cases h
    rfl
  | cons pt rest ih =>
    obtain ⟨next, tail, hNext, hTail, rfl⟩ := sealAll_cons.mp h
    rw [List.length_cons, nonces, List.zipWith_cons_cons, hNext, ih hTail]

theorem sealAll_ok_iff {aad : Bytes} {pts : List Bytes} {c : Context} :
    (∃ cts c', sealAll P aad c pts = .ok (cts, c')) ↔
      pts = [] ∨ integerOf c.sequenceNumber + pts.length < 256 ^ c.sequenceNumber.length := by
  induction pts generalizing c with
  | nil => exact ⟨fun _ => .inl rfl, fun _ => ⟨[], c, rfl⟩⟩
  | cons pt rest ih =>
    simp only [sealAll_cons, reduceCtorEq, false_or]
    constructor
    · rintro ⟨_, c', next, tail, hNext, hTail, -⟩
      obtain ⟨hLength, hValue⟩ := increment_eq_ok.mp hNext
      have hBound := integerOf_lt next
      rw [hLength] at hBound
      rcases ih.mp ⟨tail, c', hTail⟩ with rfl | hRest
      · rw [List.length_singleton]
        omega
      · dsimp only at hRest
        rw [hLength] at hRest
        rw [List.length_cons]
        omega
    · intro hFits
      rw [List.length_cons] at hFits
      obtain ⟨next, hNext⟩ : ∃ next, increment c.sequenceNumber = .ok next := by
        have hValue := addCarry_value c.sequenceNumber
        have hCarry : (addCarry c.sequenceNumber).2 = 0 := by
          by_contra hCarry
          have hPos : 256 ^ c.sequenceNumber.length ≤ (addCarry c.sequenceNumber).2 * 256 ^ c.sequenceNumber.length :=
            Nat.le_mul_of_pos_left _ (by omega)
          omega
        rw [hCarry, Nat.zero_mul, Nat.zero_add] at hValue
        exact ⟨_, increment_eq_ok.mpr ⟨addCarry_length _, hValue⟩⟩
      obtain ⟨hLength, hValue⟩ := increment_eq_ok.mp hNext
      obtain ⟨tail, c', hTail⟩ := ih.mpr (.inr (by dsimp only; rw [hLength]; omega) :
        rest = [] ∨ integerOf ({ c with sequenceNumber := next } : Context).sequenceNumber + rest.length <
          256 ^ ({ c with sequenceNumber := next } : Context).sequenceNumber.length)
      exact ⟨_, c', next, tail, hNext, hTail, rfl⟩

theorem openAll_of_sealAll {aad : Bytes} {pts cts : List Bytes} {c c' : Context}
    (hSeal : sealAll P aad c pts = .ok (cts, c')) : openAll P aad c cts = .ok (pts, c') := by
  induction pts generalizing c cts with
  | nil =>
    cases hSeal
    rfl
  | cons pt rest ih =>
    obtain ⟨next, tail, hNext, hTail, rfl⟩ := sealAll_cons.mp hSeal
    have hSeal : Seal P c pt aad =
        .ok (P.aeadSeal c.suite.aeadID c.key (calcNonce c) pt aad, { c with sequenceNumber := next }) :=
      seal_eq_ok.mpr ⟨rfl, next, hNext, rfl⟩
    have hOpen := open_of_seal hSeal
    rw [openAll, hOpen]
    change (do let (pts, c) ← openAll P aad { c with sequenceNumber := next } tail; return (pt :: pts, c)) = _
    rw [ih hTail]
    rfl

/-! ## The key schedule -/

theorem kdf_extractSize_pos (kdf : UInt16) : 32 ≤ ExtractSize kdf ∧ ExtractSize kdf ≤ 64 := by
  unfold ExtractSize
  split
  · exact ⟨by decide, by decide⟩
  · split <;> exact ⟨by decide, by decide⟩

theorem labeledExpand_eq {suite : Suite} {prk : Bytes} (label info : Bytes) {l : Nat}
    (hPrk : prk.length = ExtractSize suite.kdfID) (hl : l ≤ 255 * ExtractSize suite.kdfID) :
    ∃ out, labeledExpand P suite prk label info l = .ok out ∧ out.length = l := by
  simp only [labeledExpand, Expand, hPrk, lt_irrefl, if_false, if_neg (not_lt_of_ge hl), Except.ok.injEq]
  exact ⟨_, rfl, P.expand_length ..⟩

theorem keySize_bounds (aead : UInt16) : 16 ≤ KeySize aead ∧ KeySize aead ≤ 32 := by
  unfold KeySize
  split <;> exact ⟨by decide, by decide⟩

theorem aeadNew_eq_ok {aead : UInt16} {key : Bytes} (h : key.length = KeySize aead) : aeadNew aead key = .ok () := by
  rw [aeadNew, require_eq_ok, h]
  unfold KeySize
  by_cases hAes : aead = 0x01
  · subst hAes
    decide
  · rw [if_neg hAes]
    split <;> decide

/-- In the base mode nothing can go wrong, and the context is one that no message has used. -/
theorem keySchedule_base (suite : Suite) (ss info : Bytes) : ∃ c, keySchedule P suite 0x00 ss info none none = .ok c ∧
    c.suite = suite ∧ c.exporterSecret.length = ExtractSize suite.kdfID ∧ c.baseNonce.length = NonceSize ∧
    c.sequenceNumber = List.replicate NonceSize 0 := by
  have hSize := kdf_extractSize_pos suite.kdfID
  have hKeySize := keySize_bounds suite.aeadID
  have hSecret : (labeledExtract P suite ss (text "secret") []).length = ExtractSize suite.kdfID :=
    P.extract_length _ _ _ suite.valid.2.1
  have hNonceSize : NonceSize = 12 := rfl
  have hExpand : ∀ label l, l ≤ 255 * ExtractSize suite.kdfID → ∃ out,
      labeledExpand P suite (labeledExtract P suite ss (text "secret") []) label (0x00 ::
        (labeledExtract P suite [] (text "psk_id_hash") [] ++ labeledExtract P suite [] (text "info_hash") info)) l =
          .ok out ∧ out.length = l := fun label _ => labeledExpand_eq label _ hSecret
  obtain ⟨key, hKey, hKeyLength⟩ := hExpand (text "key") (KeySize suite.aeadID) (by omega)
  obtain ⟨baseNonce, hNonce, hNonceLength⟩ := hExpand (text "base_nonce") NonceSize (by omega)
  obtain ⟨exporterSecret, hExporter, hExporterLength⟩ := hExpand (text "exp") (ExtractSize suite.kdfID) (by omega)
  refine ⟨⟨suite, exporterSecret, key, baseNonce, List.replicate NonceSize 0⟩, ?_, rfl, hExporterLength, hNonceLength,
    rfl⟩
  have hPsk : verifyPSKInputs 0x00 none none = .ok () := rfl
  simp only [keySchedule, bind_eq_ok, Option.getD_none, pure, Except.pure]
  exact ⟨(), hPsk, key, hKey, (), aeadNew_eq_ok hKeyLength, baseNonce, hNonce, exporterSecret, hExporter, rfl⟩

theorem integerOf_zeros (n : Nat) : integerOf (List.replicate n 0) = 0 := by
  induction n with
  | zero => rfl
  | succ n ih => rw [List.replicate_succ, integerOf_zero_cons, ih]

/-- In the base mode any number of messages below `2 ^ 96` can be sealed, each under a nonce of its own, and the other
side, which derives the same context, opens them in turn. -/
theorem context_streams (P : Primitives SK PK) (suite : Suite) (ss info aad : Bytes) :
    ∃ c, keySchedule P suite 0x00 ss info none none = .ok c ∧ ∀ pts : List Bytes,
      ((∃ cts c', sealAll P aad c pts = .ok (cts, c')) ↔ pts.length < 2 ^ 96) ∧ (nonces c pts.length).Nodup ∧
      ∀ cts c', sealAll P aad c pts = .ok (cts, c') →
        cts = List.zipWith (fun nonce pt => P.aeadSeal suite.aeadID c.key nonce pt aad) (nonces c pts.length) pts ∧
        openAll P aad c cts = .ok (pts, c') := by
  obtain ⟨c, hSetup, rfl, -, hNonce, hSequence⟩ := keySchedule_base (P := P) suite ss info
  have hLength : c.sequenceNumber.length = 12 := by rw [hSequence, List.length_replicate]; rfl
  refine ⟨c, hSetup, fun pts => ⟨?_, ?_, fun cts c' hSeal => ⟨sealAll_nonces hSeal, openAll_of_sealAll hSeal⟩⟩⟩
  · have hPow : 256 ^ 12 = 2 ^ 96 := by norm_num
    rw [sealAll_ok_iff, hLength, hSequence, integerOf_zeros, Nat.zero_add, hPow]
    constructor
    · rintro (rfl | hFits)
      · exact Nat.two_pow_pos 96
      · exact hFits
    · exact Or.inr
  · apply nonces_nodup
    rw [hLength, hNonce]
    rfl

end

end Columbia.Gateway.Hpke
