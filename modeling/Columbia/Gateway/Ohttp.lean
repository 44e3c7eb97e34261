import Columbia.Gateway.Hpke
import Columbia.Lib.OrderedMap

/-! # Oblivious HTTP: key configurations, encapsulated messages, client and gateway

A configuration publishes a key under a one-byte identifier. A client encapsulates a request for it, the gateway opens
the request and encapsulates the response under a secret that both export from the request's context.
-/
namespace Columbia.Gateway.Ohttp
open Columbia.Js Columbia.Lib Columbia.Gateway.Varint Columbia.Gateway.Handler Columbia.Gateway.Hpke
set_option autoImplicit false

structure ConfigCipherSuite where
  KDFID : UInt16
  AEADID : UInt16
  deriving DecidableEq

structure PublicConfig where
  ID : UInt8
  KEMID : UInt16
  Suites : List ConfigCipherSuite
  PublicKeyBytes : Bytes
  deriving DecidableEq

/-! ## Configurations on the wire -/

/-- `AddUint16LengthPrefixed`; a child that is too long makes `BytesOrPanic` panic. -/
def lengthPrefixed (child : Bytes) : Except Failure Bytes :=
  if 65535 < child.length then .error .panicked else .ok (uint16BE child.length ++ child)

def ConfigCipherSuite.bytes (s : ConfigCipherSuite) : Bytes := uint16BE s.KDFID.toNat ++ uint16BE s.AEADID.toNat

def PublicConfig.Marshal (c : PublicConfig) : Except Failure Bytes := do
  let suites ← lengthPrefixed (c.Suites.map ConfigCipherSuite.bytes).flatten
  return c.ID :: (uint16BE c.KEMID.toNat ++ c.PublicKeyBytes ++ suites)

def invalidConfig : Failure := .other (text "invalid config")

def readUint16 (error : Failure) (s : Bytes) : Except Failure (UInt16 × Bytes) := do
  let (b, s) ← readExactly 2 error s
  return (UInt16.ofNat (integerOf b), s)

def readUint8 (error : Failure) (s : Bytes) : Except Failure (UInt8 × Bytes) :=
  match s with
  | [] => .error error
  | b :: rest => .ok (b, rest)

def readSuite (s : Bytes) : Except Failure (ConfigCipherSuite × Bytes) := do
  let (kdfID, s) ← readUint16 invalidConfig s
  let (aeadID, s) ← readUint16 invalidConfig s
  require (kdfIsValid kdfID = true) (.other (text "invalid KDF"))
  require (aeadIsValid aeadID = true) (.other (text "invalid AEAD"))
  return (⟨kdfID, aeadID⟩, s)

def readLengthPrefixed (s : Bytes) : Except Failure (Bytes × Bytes) := do
  let (b, s) ← readExactly 2 invalidConfig s
  readExactly (integerOf b) invalidConfig s

def UnmarshalPublicConfig (data : Bytes) : Except Failure PublicConfig := do
  let (id, s) ← readUint8 invalidConfig data
  let (kem, s) ← readUint16 invalidConfig s
  require (kemIsValid kem = true) (.other (text "invalid KEM"))
  let (publicKeyBytes, s) ← readExactly (PublicKeySize kem) invalidConfig s
  let (cipherSuites, _) ← readLengthPrefixed s
  let suites ← readAll readSuite .endless cipherSuites.length cipherSuites
  return ⟨id, kem, suites, publicKeyBytes⟩

/-! ## Encapsulated requests on the wire -/

structure EncapsulatedRequest where
  KeyID : UInt8
  kemID : UInt16
  kdfID : UInt16
  aeadID : UInt16
  enc : Bytes
  ct : Bytes
  deriving DecidableEq

def EncapsulatedRequest.Marshal (r : EncapsulatedRequest) : Bytes :=
  r.KeyID :: (uint16BE r.kemID.toNat ++ uint16BE r.kdfID.toNat ++ uint16BE r.aeadID.toNat ++ r.enc ++ r.ct)

/-- `Buffer.Read` into `n` fresh bytes: less than `n` is no error, unless it is nothing. -/
def bufferRead (n : Nat) (b : Bytes) : Except Failure (Bytes × Bytes) :=
  if b = [] ∧ n ≠ 0 then .error .EOF else .ok (b.take n ++ List.replicate (n - b.length) 0, b.drop n)

def readIdentifier (isValid : UInt16 → Bool) (name : String) (b : Bytes) : Except Failure (UInt16 × Bytes) := do
  let (buffer, b) ← bufferRead 2 b
  let id := UInt16.ofNat (integerOf buffer)
  require (isValid id = true) (.other (text name))
  return (id, b)

def UnmarshalEncapsulatedRequest (enc : Bytes) : Except Failure EncapsulatedRequest := do
  let (keyID, b) ← readUint8 .EOF enc
  let (kemID, b) ← readIdentifier kemIsValid "invalid KEM" b
  let (kdfID, b) ← readIdentifier kdfIsValid "invalid KDF" b
  let (aeadID, b) ← readIdentifier aeadIsValid "invalid AEAD" b
  let (key, ct) ← bufferRead (CiphertextSize kemID) b
  return ⟨keyID, kemID, kdfID, aeadID, key, ct⟩

/-! ## Client and gateway -/

def defaultLabelRequest : Bytes := text "message/bhttp request"
def defaultLabelResponse : Bytes := text "message/bhttp response"

structure Client where
  requestLabel : Bytes
  responseLabel : Bytes
  config : PublicConfig

structure PrivateConfig (SK : Type) where
  publicConfig : PublicConfig
  sk : SK

structure OhttpGateway (SK : Type) where
  requestLabel : Bytes
  responseLabel : Bytes
  keys : List UInt8
  keyMap : OrderedMap UInt8 (PrivateConfig SK)

/-- The context of a request, on either side. -/
structure RequestContext where
  responseLabel : Bytes
  enc : Bytes
  suite : Suite
  context : Context

/-- `hpke.NewSuite`. -/
def NewSuite (kemID kdfID aeadID : UInt16) : Except Failure Suite :=
  if h : kemIsValid kemID = true ∧ kdfIsValid kdfID = true ∧ aeadIsValid aeadID = true then
    .ok ⟨kemID, kdfID, aeadID, h⟩
  else .error .panicked

def requestInfo (requestLabel : Bytes) (keyID : UInt8) (kemID kdfID aeadID : UInt16) : Bytes :=
  requestLabel ++ [0x00] ++ [keyID] ++ uint16BE kemID.toNat ++ uint16BE kdfID.toNat ++ uint16BE aeadID.toNat

def labelResponseKey : Bytes := text "key"
def labelResponseNonce : Bytes := text "nonce"

def responseNonceLen (suite : Suite) : Nat := max (KeySize suite.aeadID) 12

section
variable {SK PK : Type} (P : Primitives SK PK)

def NewConfigFromSeed (keyID : UInt8) (kemID kdfID aeadID : UInt16) (seed : Bytes) :
    Except Failure (PrivateConfig SK) := do
  require (kemIsValid kemID = true ∧ kdfIsValid kdfID = true ∧ aeadIsValid aeadID = true)
    (.other (text "invalid ciphersuite"))
  let (pkEnc, sk) ← P.deriveKeyPair kemID seed
  return ⟨⟨keyID, kemID, [⟨kdfID, aeadID⟩], pkEnc⟩, sk⟩

/-- `Client.EncapsulateRequest`; the seed is random. -/
def Client.EncapsulateRequest (c : Client) (request seed : Bytes) :
    Except Failure (EncapsulatedRequest × RequestContext) := do
  let kemID := c.config.KEMID
  let first ← orThrow c.config.Suites.head? .panicked
  let suite ← NewSuite kemID first.KDFID first.AEADID
  let pkR ← P.unmarshalPublicKey kemID c.config.PublicKeyBytes
  let info := requestInfo c.requestLabel c.config.ID kemID first.KDFID first.AEADID
  let (enc, context) ← senderSetup P suite pkR info seed
  let (ct, context) ← Seal P context request []
  return (⟨c.config.ID, kemID, first.KDFID, first.AEADID, enc, ct⟩, ⟨c.responseLabel, enc, suite, context⟩)

/-- What both sides derive for the response: its key and its nonce. -/
def responseKeys (ctx : RequestContext) (responseNonce : Bytes) : Except Failure (Bytes × Bytes) := do
  let secret ← Export P ctx.context ctx.responseLabel (KeySize ctx.suite.aeadID)
  let salt := ctx.enc ++ responseNonce
  let prk := P.hkdfExtract ctx.suite.kdfID secret salt
  let key ← Expand P ctx.suite.kdfID prk labelResponseKey (KeySize ctx.suite.aeadID)
  let nonce ← Expand P ctx.suite.kdfID prk labelResponseNonce 12
  return (key, nonce)

/-- `EncapsulatedRequestContext.DecapsulateResponse`. -/
def RequestContext.DecapsulateResponse (c : RequestContext) (raw : Bytes) : Except Failure Bytes := do
  require (responseNonceLen c.suite ≤ raw.length) .panicked
  let (key, nonce) ← responseKeys P c (raw.take (responseNonceLen c.suite))
  aeadNew c.suite.aeadID key
  P.aeadOpen c.suite.aeadID key nonce (raw.drop (KeySize c.suite.aeadID)) []

/-- `EncapsulateResponse`; the nonce is random. -/
def RequestContext.EncapsulateResponse (c : RequestContext) (response responseNonce : Bytes) : Except Failure Bytes := do
  let (key, nonce) ← responseKeys P c responseNonce
  aeadNew c.suite.aeadID key
  return responseNonce ++ P.aeadSeal c.suite.aeadID key nonce response []

def addConfig (found : List UInt8 × OrderedMap UInt8 (PrivateConfig SK)) (config : PrivateConfig SK) :
    Except Failure (List UInt8 × OrderedMap UInt8 (PrivateConfig SK)) :=
  if found.2.has config.publicConfig.ID then .error .panicked
  else .ok (found.1 ++ [config.publicConfig.ID], found.2.set config.publicConfig.ID config)

def createConfigMap : List (PrivateConfig SK) → List UInt8 × OrderedMap UInt8 (PrivateConfig SK) →
    Except Failure (List UInt8 × OrderedMap UInt8 (PrivateConfig SK))
  | [], found => .ok found
  | config :: rest, found => do
    let found ← addConfig found config
    createConfigMap rest found

def NewDefaultGateway (configs : List (PrivateConfig SK)) : Except Failure (OhttpGateway SK) := do
  let (keys, keyMap) ← createConfigMap configs ([], .empty)
  return ⟨defaultLabelRequest, defaultLabelResponse, keys, keyMap⟩

def NewCustomGateway (configs : List (PrivateConfig SK)) (requestLabel responseLabel : Bytes) :
    Except Failure (OhttpGateway SK) := do
  if requestLabel = [] ∨ responseLabel = [] ∨ requestLabel = responseLabel then throw .panicked
  let (keys, keyMap) ← createConfigMap configs ([], .empty)
  return ⟨requestLabel, responseLabel, keys, keyMap⟩

def OhttpGateway.Config (g : OhttpGateway SK) (keyID : UInt8) : Except Failure PublicConfig :=
  match g.keyMap.get? keyID with
  | some config => .ok config.publicConfig
  | none => .error (.other (text "unknown keyID " ++ text (toString keyID.toNat)))

def OhttpGateway.Client (g : OhttpGateway SK) (keyID : UInt8) : Except Failure Client := do
  let config ← g.Config keyID
  return ⟨g.requestLabel, g.responseLabel, config⟩

def OhttpGateway.MatchesConfig (g : OhttpGateway SK) (req : EncapsulatedRequest) : Bool := g.keyMap.has req.KeyID

/-- A missing key reads as a configuration of zeros; the keys are those of the map. -/
def marshalConfig (g : OhttpGateway SK) (id : UInt8) : Except Failure Bytes := do
  let config := ((g.keyMap.get? id).map PrivateConfig.publicConfig).getD ⟨0, 0, [], []⟩
  let body ← config.Marshal
  lengthPrefixed body

def OhttpGateway.MarshalConfigs (g : OhttpGateway SK) : Except Failure Bytes := do
  let parts ← mapAll (marshalConfig g) g.keys
  return parts.flatten

def OhttpGateway.DecapsulateRequest (g : OhttpGateway SK) (req : EncapsulatedRequest) :
    Except Failure (Bytes × RequestContext) := do
  let config ← orThrow (g.keyMap.get? req.KeyID) (.other (text "unknown key ID"))
  require (kemIsValid config.publicConfig.KEMID = true ∧ kdfIsValid req.kdfID = true ∧ aeadIsValid req.aeadID = true)
    (.other (text "invalid ciphersuite"))
  let suite ← NewSuite config.publicConfig.KEMID req.kdfID req.aeadID
  let info := requestInfo g.requestLabel req.KeyID req.kemID req.kdfID req.aeadID
  let context ← receiverSetup P suite config.sk info req.enc
  let (raw, context) ← Open P context req.ct []
  return (raw, ⟨g.responseLabel, req.enc, suite, context⟩)

end

/-! ## Two-byte numbers -/

theorem uint16BE_length (n : Nat) : (uint16BE n).length = 2 := rfl

theorem uint16BE_of_integer {b : Bytes} (h : b.length = 2) : uint16BE (UInt16.ofNat (integerOf b)).toNat = b := by
  have hBound := integerOf_lt b
  rw [h] at hBound
  have hSame : (UInt16.ofNat (integerOf b)).toNat = integerOf b := by
    rw [UInt16.toNat_ofNat']
    exact Nat.mod_eq_of_lt hBound
  rw [hSame]
  apply integerOf_injective (by rw [h]; rfl)
  exact integerOf_uint16BE hBound

theorem integer_of_uint16BE (id : UInt16) : UInt16.ofNat (integerOf (uint16BE id.toNat)) = id := by
  rw [integerOf_uint16BE id.toNat_lt]
  exact UInt16.ofNat_toNat

theorem readUint16_eq_ok {error : Failure} {s rest : Bytes} {id : UInt16} :
    readUint16 error s = .ok (id, rest) ↔ s = uint16BE id.toNat ++ rest := by
  simp only [readUint16, bind_eq_ok, Prod.exists, readExactly_eq_ok, pure, Except.pure, Except.ok.injEq, Prod.mk.injEq]
  constructor
  · rintro ⟨b, _, ⟨rfl, hLength⟩, rfl, rfl⟩
    rw [uint16BE_of_integer hLength]
  · rintro rfl
    exact ⟨uint16BE id.toNat, rest, ⟨rfl, rfl⟩, integer_of_uint16BE id, rfl⟩

theorem readUint8_eq_ok {error : Failure} {s rest : Bytes} {b : UInt8} :
    readUint8 error s = .ok (b, rest) ↔ s = b :: rest := by
  cases s <;> simp [readUint8]

/-! ## Reading encapsulated requests -/

structure EncapsulatedRequest.Valid (r : EncapsulatedRequest) : Prop where
  kem : kemIsValid r.kemID = true
  kdf : kdfIsValid r.kdfID = true
  aead : aeadIsValid r.aeadID = true
  enc : r.enc.length = CiphertextSize r.kemID

theorem kem_low {id : UInt16} (h : kemIsValid id = true) : id.toNat % 256 ≠ 0 := by
  have hAll : [0x10, 0x11, 0x12, 0x20, 0x21, 0x30, (0x647a : UInt16)].all (fun id => id.toNat % 256 ≠ 0) = true := by
    decide
  exact of_decide_eq_true (List.all_eq_true.mp hAll id (of_decide_eq_true h))

theorem kdf_low {id : UInt16} (h : kdfIsValid id = true) : id.toNat % 256 ≠ 0 := by
  have hAll : [0x01, 0x02, (0x03 : UInt16)].all (fun id => id.toNat % 256 ≠ 0) = true := by decide
  exact of_decide_eq_true (List.all_eq_true.mp hAll id (of_decide_eq_true h))

theorem ciphertextSize_pos (kem : UInt16) : 0 < CiphertextSize kem := by
  unfold CiphertextSize kemSizes
  split_ifs <;> decide

theorem bufferRead_append {n : Nat} {a : Bytes} (rest : Bytes) (h : a.length = n) :
    bufferRead n (a ++ rest) = .ok (a, rest) := by
  subst h
  have hFull : a.length - (a ++ rest).length = 0 := by simp
  rw [bufferRead, hFull, if_neg, List.take_left, List.drop_left, List.replicate_zero, List.append_nil]
  rintro ⟨hNil, hLength⟩
  exact hLength (by rw [(List.append_eq_nil_iff.mp hNil).1, List.length_nil])

/-- A single byte is taken for the high one, which makes no valid identifier. -/
theorem readIdentifier_eq_ok {isValid : UInt16 → Bool} (hLow : ∀ id, isValid id = true → id.toNat % 256 ≠ 0)
    {name : String} {b rest : Bytes} {id : UInt16} :
    readIdentifier isValid name b = .ok (id, rest) ↔ isValid id = true ∧ b = uint16BE id.toNat ++ rest := by
  simp only [readIdentifier, bind_eq_ok, Prod.exists, require_eq_ok, pure, Except.pure, Except.ok.injEq, Prod.mk.injEq]
  constructor
  · rintro ⟨buffer, _, hBuffer, _, hValid, rfl, rfl⟩
    refine ⟨hValid, ?_⟩
    unfold bufferRead at hBuffer
    split at hBuffer
    · cases hBuffer
    · cases hBuffer
      rcases b with _ | ⟨x, _ | ⟨y, rest⟩⟩
      · simp_all
      · have hZero : (UInt16.ofNat (integerOf [x, 0])).toNat % 256 = 0 := by
          rw [UInt16.toNat_ofNat', integerOf_cons, integerOf_zero_cons]
          change (x.toNat * 256 + 0) % 65536 % 256 = 0
          omega
        exact absurd hZero (hLow _ hValid)
      · have hFull : 2 - (x :: y :: rest).length = 0 := by simp
        rw [hFull]
        change x :: y :: rest = uint16BE (UInt16.ofNat (integerOf [x, y])).toNat ++ rest
        rw [uint16BE_of_integer (b := [x, y]) rfl]
        rfl
  · rintro ⟨hValid, rfl⟩
    refine ⟨uint16BE id.toNat, rest, ?_, (), ?_⟩
    · exact bufferRead_append _ (uint16BE_length _)
    · rw [integer_of_uint16BE]
      exact ⟨hValid, rfl, rfl⟩

/-- The encapsulated key is filled up with zeros where the input ends inside it. -/
theorem bufferRead_eq_ok {n : Nat} (hPos : 0 < n) {b key ct : Bytes} : bufferRead n b = .ok (key, ct) ↔ key.length = n ∧
    ∃ missing, b ++ List.replicate missing 0 = key ++ ct ∧ missing < n ∧ (missing ≠ 0 → ct = []) := by
  unfold bufferRead
  constructor
  · intro h
    split at h
    · cases h
    · rename_i hSome
      cases h
      have hLength : 0 < b.length := by
        apply List.length_pos_iff.mpr
        rintro rfl
        exact hSome ⟨rfl, by omega⟩
      refine ⟨by simp; omega, n - b.length, ?_, by omega, fun hMissing => ?_⟩
      · by_cases hFull : n ≤ b.length
        · have hNone : n - b.length = 0 := by omega
          rw [hNone, List.replicate_zero, List.append_nil, List.append_nil, List.take_append_drop]
        · rw [List.take_of_length_le (by omega), List.drop_of_length_le (by omega), List.append_nil]
      · exact List.drop_of_length_le (by omega)
  · rintro ⟨rfl, missing, hInput, hLess, hCut⟩
    have hLength := congrArg List.length hInput
    rw [List.length_append, List.length_append, List.length_replicate] at hLength
    have hSome : ¬(b = [] ∧ key.length ≠ 0) := by
      rintro ⟨rfl, -⟩
      rw [List.length_nil] at hLength
      omega
    rw [if_neg hSome]
    by_cases hMissing : missing = 0
    · subst hMissing
      rw [List.replicate_zero, List.append_nil] at hInput
      have hRead := bufferRead_append ct (rfl : key.length = key.length)
      rwa [← hInput, bufferRead, if_neg hSome] at hRead
    · obtain rfl := hCut hMissing
      rw [List.append_nil] at hInput
      rw [List.length_nil] at hLength
      rw [List.take_of_length_le (by omega), List.drop_of_length_le (by omega), ← hInput]
      have hSame : (b ++ List.replicate missing 0).length - b.length = missing := by
        rw [List.length_append, List.length_replicate]
        omega
      rw [hSame]

theorem unmarshalEncapsulated_eq_ok (data : Bytes) (r : EncapsulatedRequest) :
    UnmarshalEncapsulatedRequest data = .ok r ↔ r.Valid ∧ ∃ missing, data ++ List.replicate missing 0 = r.Marshal ∧
      missing < CiphertextSize r.kemID ∧ (missing ≠ 0 → r.ct = []) := by
  simp only [UnmarshalEncapsulatedRequest, bind_eq_ok, Prod.exists, readUint8_eq_ok, readIdentifier_eq_ok @kem_low,
    readIdentifier_eq_ok @kdf_low, bufferRead_eq_ok (ciphertextSize_pos _), pure, Except.pure, Except.ok.injEq]
  have hAead : ∀ b id rest, readIdentifier aeadIsValid "invalid AEAD" b = .ok (id, rest) ↔
      aeadIsValid id = true ∧ b = uint16BE id.toNat ++ rest := fun _ _ _ => readIdentifier_eq_ok @kdf_low
  simp only [hAead]
  constructor
  · rintro ⟨keyID, _, rfl, kemID, _, ⟨hKem, rfl⟩, kdfID, _, ⟨hKdf, rfl⟩, aeadID, b, ⟨hAead, rfl⟩, key, ct,
      ⟨hKey, missing, hInput, hLess, hCut⟩, rfl⟩
    refine ⟨⟨hKem, hKdf, hAead, hKey⟩, missing, ?_, hLess, hCut⟩
    simp [EncapsulatedRequest.Marshal, hInput]
  · rintro ⟨hValid, missing, hInput, hLess, hCut⟩
    obtain ⟨b, rfl, hRest⟩ : ∃ b, data = r.KeyID :: (uint16BE r.kemID.toNat ++ (uint16BE r.kdfID.toNat ++
        (uint16BE r.aeadID.toNat ++ b))) ∧ b ++ List.replicate missing 0 = r.enc ++ r.ct := by
      have hLength := congrArg List.length hInput
      have hSeven : r.Marshal.length = 7 + (r.enc ++ r.ct).length := by
        simp [EncapsulatedRequest.Marshal, uint16BE]
        omega
      rw [List.length_append, List.length_replicate, hSeven, List.length_append, hValid.enc] at hLength
      refine ⟨data.drop 7, ?_, ?_⟩
      · have hFront := congrArg (List.take 7) hInput
        rw [List.take_append_of_le_length (by omega)] at hFront
        conv_lhs => rw [← List.take_append_drop 7 data, hFront]
        rfl
      · have hBack := congrArg (List.drop 7) hInput
        rwa [List.drop_append_of_le_length (by omega)] at hBack
    exact ⟨r.KeyID, _, rfl, r.kemID, _, ⟨hValid.kem, rfl⟩, r.kdfID, _, ⟨hValid.kdf, rfl⟩, r.aeadID, b,
      ⟨hValid.aead, rfl⟩, r.enc, r.ct, ⟨hValid.enc, missing, hRest, hLess, hCut⟩, rfl⟩

theorem marshal_readable {r : EncapsulatedRequest} (h : r.Valid) : UnmarshalEncapsulatedRequest r.Marshal = .ok r :=
  (unmarshalEncapsulated_eq_ok _ _).mpr ⟨h, 0, List.append_nil _, ciphertextSize_pos _, fun h => absurd rfl h⟩

/-- What can be read of a request is what was written of a valid one, up to missing bytes of its encapsulated key, which
read as zeros; and a request survives being written and read exactly if it is valid. -/
theorem encapsulated_requests_read_back (data : Bytes) (r : EncapsulatedRequest) :
    (UnmarshalEncapsulatedRequest data = .ok r ↔ r.Valid ∧ ∃ missing, data ++ List.replicate missing 0 = r.Marshal ∧
      missing < CiphertextSize r.kemID ∧ (missing ≠ 0 → r.ct = [])) ∧
    (UnmarshalEncapsulatedRequest r.Marshal = .ok r ↔ r.Valid) :=
  ⟨unmarshalEncapsulated_eq_ok data r, fun h => ((unmarshalEncapsulated_eq_ok _ _).mp h).1, marshal_readable⟩

/-! ## Reading configurations -/

def ConfigCipherSuite.Valid (s : ConfigCipherSuite) : Prop := kdfIsValid s.KDFID = true ∧ aeadIsValid s.AEADID = true

structure PublicConfig.Valid (c : PublicConfig) : Prop where
  kem : kemIsValid c.KEMID = true
  suites : ∀ s ∈ c.Suites, s.Valid
  publicKey : c.PublicKeyBytes.length = PublicKeySize c.KEMID

theorem reads_suite : Reads readSuite fun s front => front = s.bytes ∧ s.Valid := by
  intro input s rest
  simp only [readSuite, bind_eq_ok, Prod.exists, readUint16_eq_ok, require_eq_ok, pure, Except.pure, Except.ok.injEq,
    Prod.mk.injEq]
  constructor
  · rintro ⟨kdfID, _, rfl, aeadID, _, rfl, -, hKdf, -, hAead, rfl, rfl⟩
    exact ⟨_, (List.append_assoc ..).symm, rfl, hKdf, hAead⟩
  · rintro ⟨_, rfl, rfl, hKdf, hAead⟩
    exact ⟨s.KDFID, _, List.append_assoc .., s.AEADID, rest, rfl, (), hKdf, (), hAead, rfl, rfl⟩

theorem readSuites_eq_ok {data : Bytes} {suites : List ConfigCipherSuite} :
    readAll readSuite .endless data.length data = .ok suites ↔
      data = (suites.map ConfigCipherSuite.bytes).flatten ∧ ∀ s ∈ suites, s.Valid := by
  have hSome : ∀ s front, (front = ConfigCipherSuite.bytes s ∧ s.Valid) → front ≠ [] := by
    rintro s _ ⟨rfl, -⟩
    exact nofun
  rw [reads_suite.all hSome .endless (le_refl data.length)]
  constructor
  · rintro ⟨parts, rfl, hParts⟩
    have hSame : parts = suites.map ConfigCipherSuite.bytes ∧ ∀ s ∈ suites, s.Valid := by
      induction hParts with
      | nil => exact ⟨rfl, nofun⟩
      | cons hHead _ ih =>
        obtain ⟨rfl, hValid⟩ := ih
        refine ⟨by rw [hHead.1]; rfl, ?_⟩
        rw [List.forall_mem_cons]
        exact ⟨hHead.2, hValid⟩
    rw [hSame.1]
    exact ⟨rfl, hSame.2⟩
  · rintro ⟨rfl, hValid⟩
    refine ⟨_, rfl, ?_⟩
    rw [List.forall₂_map_right_iff, List.forall₂_same]
    exact fun s hs => ⟨rfl, hValid s hs⟩

theorem lengthPrefixed_eq_ok {child front : Bytes} :
    lengthPrefixed child = .ok front ↔ child.length < 2 ^ 16 ∧ front = uint16BE child.length ++ child := by
  unfold lengthPrefixed
  split
  · exact ⟨nofun, fun h => by omega⟩
  · rw [Except.ok.injEq, eq_comm]
    exact ⟨fun h => ⟨by omega, h⟩, fun h => h.2⟩

theorem reads_lengthPrefixed : Reads readLengthPrefixed fun child front => lengthPrefixed child = .ok front := by
  intro input child rest
  simp only [readLengthPrefixed, bind_eq_ok, Prod.exists, readExactly_eq_ok, lengthPrefixed_eq_ok]
  constructor
  · rintro ⟨b, _, ⟨rfl, hLength⟩, rfl, hChild⟩
    have hBound : integerOf b < 2 ^ 16 := by
      have hBytes := integerOf_lt b
      rwa [hLength] at hBytes
    have hSame := uint16BE_of_integer hLength
    rw [UInt16.toNat_ofNat', Nat.mod_eq_of_lt hBound] at hSame
    refine ⟨b ++ child, (List.append_assoc ..).symm, ?_, ?_⟩
    · rw [hChild]
      exact hBound
    · rw [hChild, hSame]
  · rintro ⟨_, rfl, hBound, rfl⟩
    exact ⟨_, child ++ rest, ⟨List.append_assoc .., rfl⟩, rfl, (integerOf_uint16BE hBound).symm⟩

theorem marshal_eq_ok {c : PublicConfig} {front : Bytes} : c.Marshal = .ok front ↔
    ∃ suites, lengthPrefixed (c.Suites.map ConfigCipherSuite.bytes).flatten = .ok suites ∧
      front = c.ID :: (uint16BE c.KEMID.toNat ++ c.PublicKeyBytes ++ suites) := by
  simp only [PublicConfig.Marshal, bind_eq_ok, pure, Except.pure, Except.ok.injEq, eq_comm (b := front)]

/-- A configuration is read from the front of an input exactly if the input starts with what was written of it. -/
theorem unmarshalPublicConfig_eq_ok {data : Bytes} {c : PublicConfig} : UnmarshalPublicConfig data = .ok c ↔
    c.Valid ∧ ∃ front rest, c.Marshal = .ok front ∧ data = front ++ rest := by
  have hPrefixed : ∀ input child rest, readLengthPrefixed input = .ok (child, rest) ↔
      ∃ front, input = front ++ rest ∧ lengthPrefixed child = .ok front := reads_lengthPrefixed
  simp only [UnmarshalPublicConfig, bind_eq_ok, Prod.exists, readUint8_eq_ok, readUint16_eq_ok, require_eq_ok,
    readExactly_eq_ok, hPrefixed, readSuites_eq_ok, marshal_eq_ok, pure, Except.pure, Except.ok.injEq]
  constructor
  · rintro ⟨id, _, rfl, kem, _, rfl, _, hKem, publicKey, _, ⟨rfl, hPublicKey⟩, _, rest, ⟨suites, rfl, hSuites⟩,
      configured, ⟨rfl, hValid⟩, rfl⟩
    exact ⟨⟨hKem, hValid, hPublicKey⟩, _, rest, ⟨suites, hSuites, rfl⟩, by simp⟩
  · rintro ⟨hValid, _, rest, ⟨suites, hSuites, rfl⟩, rfl⟩
    exact ⟨c.ID, _, rfl, c.KEMID, c.PublicKeyBytes ++ suites ++ rest, by simp, (), hValid.kem, c.PublicKeyBytes,
      suites ++ rest, ⟨by simp, hValid.publicKey⟩, _, rest, ⟨suites, rfl, hSuites⟩, c.Suites, ⟨rfl, hValid.suites⟩, rfl⟩

/-! ## The configurations of a gateway -/

section
variable {SK PK : Type} {P : Primitives SK PK}

/-- A configuration as `NewConfigFromSeed` makes it. -/
def Derived (P : Primitives SK PK) (config : PrivateConfig SK) : Prop :=
  ∃ keyID kemID kdfID aeadID seed, NewConfigFromSeed P keyID kemID kdfID aeadID seed = .ok config

theorem newConfig_eq_ok {keyID : UInt8} {kemID kdfID aeadID : UInt16} {seed : Bytes} {config : PrivateConfig SK} :
    NewConfigFromSeed P keyID kemID kdfID aeadID seed = .ok config ↔
      (kemIsValid kemID = true ∧ kdfIsValid kdfID = true ∧ aeadIsValid aeadID = true) ∧
      ∃ pkEnc sk, P.deriveKeyPair kemID seed = .ok (pkEnc, sk) ∧
        config = ⟨⟨keyID, kemID, [⟨kdfID, aeadID⟩], pkEnc⟩, sk⟩ := by
  simp only [NewConfigFromSeed, bind_eq_ok, Prod.exists, require_eq_ok, pure, Except.pure, Except.ok.injEq]
  constructor
  · rintro ⟨-, hSuite, pkEnc, sk, hPair, rfl⟩
    exact ⟨hSuite, pkEnc, sk, hPair, rfl⟩
  · rintro ⟨hSuite, pkEnc, sk, hPair, rfl⟩
    exact ⟨(), hSuite, pkEnc, sk, hPair, rfl⟩

theorem Derived.valid {config : PrivateConfig SK} (h : Derived P config) : config.publicConfig.Valid := by
  obtain ⟨keyID, kemID, kdfID, aeadID, seed, h⟩ := h
  obtain ⟨⟨hKem, hKdf, hAead⟩, pkEnc, sk, hPair, rfl⟩ := newConfig_eq_ok.mp h
  refine ⟨hKem, ?_, P.derive_length _ _ _ _ hPair⟩
  intro s hs
  obtain rfl := List.mem_singleton.mp hs
  exact ⟨hKdf, hAead⟩

theorem kemSizes_le (kem : UInt16) : PublicKeySize kem ≤ 1216 := by
  unfold PublicKeySize kemSizes
  split_ifs <;> decide

/-- A single suite fits behind its length, and so does the whole configuration. -/
theorem Derived.marshal {config : PrivateConfig SK} (h : Derived P config) :
    ∃ body, config.publicConfig.Marshal = .ok body ∧ body.length < 2 ^ 16 := by
  have hValid := h.valid
  obtain ⟨keyID, kemID, kdfID, aeadID, seed, h⟩ := h
  obtain ⟨-, pkEnc, sk, -, rfl⟩ := newConfig_eq_ok.mp h
  have hPublicKey := hValid.publicKey
  have hLe := kemSizes_le kemID
  refine ⟨_, marshal_eq_ok.mpr ⟨_, lengthPrefixed_eq_ok.mpr ⟨(by decide : 4 < 2 ^ 16), rfl⟩, rfl⟩, ?_⟩
  simp only [List.length_cons, List.length_append, uint16BE_length, hPublicKey]
  change 2 + PublicKeySize kemID + (2 + 4) + 1 < 2 ^ 16
  omega

theorem addConfig_eq_ok {keys keys' : List UInt8} {m m' : OrderedMap UInt8 (PrivateConfig SK)}
    {config : PrivateConfig SK} : addConfig (keys, m) config = .ok (keys', m') ↔
      config.publicConfig.ID ∉ m.keys ∧ keys' = keys ++ [config.publicConfig.ID] ∧
      m' = m.set config.publicConfig.ID config := by
  rw [← OrderedMap.has_eq_false_iff, addConfig]
  split
  · rename_i hHas
    constructor
    · intro h
      cases h
    · rintro ⟨hFree, -⟩
      rw [hHas] at hFree
      cases hFree
  · rename_i hHas
    rw [Except.ok.injEq, Prod.mk.injEq]
    constructor
    · rintro ⟨rfl, rfl⟩
      exact ⟨by simpa using hHas, rfl, rfl⟩
    · rintro ⟨-, rfl, rfl⟩
      exact ⟨rfl, rfl⟩

def entryOf (config : PrivateConfig SK) : UInt8 × PrivateConfig SK := (config.publicConfig.ID, config)

theorem createConfigMap_eq_ok {configs : List (PrivateConfig SK)} {keys keys' : List UInt8}
    {m m' : OrderedMap UInt8 (PrivateConfig SK)} :
    createConfigMap configs (keys, m) = .ok (keys', m') ↔ ((m.entries ++ configs.map entryOf).map Prod.fst).Nodup ∧
      keys' = keys ++ configs.map (·.publicConfig.ID) ∧ m' = (configs.map entryOf).foldl (fun m e => m.set e.1 e.2) m := by
  induction configs generalizing keys m with
  | nil =>
    rw [createConfigMap, Except.ok.injEq, Prod.mk.injEq]
    constructor
    · rintro ⟨rfl, rfl⟩
      exact ⟨by simpa using m.nodup, by simp, rfl⟩
    · rintro ⟨-, rfl, rfl⟩
      exact ⟨by simp, rfl⟩
  | cons config rest ih =>
    simp only [createConfigMap, bind_eq_ok, Prod.exists, addConfig_eq_ok]
    have hEntries : config.publicConfig.ID ∉ m.keys →
        (m.set config.publicConfig.ID config).entries = m.entries ++ [entryOf config] := fun hNew => by
      rw [OrderedMap.entries_set, OrderedMap.has_eq_false_iff.mpr hNew]
      rfl
    constructor
    · rintro ⟨_, _, ⟨hNew, rfl, rfl⟩, hRest⟩
      obtain ⟨hNodup, rfl, rfl⟩ := ih.mp hRest
      rw [hEntries hNew, List.append_assoc] at hNodup
      exact ⟨hNodup, by simp, rfl⟩
    · rintro ⟨hNodup, rfl, rfl⟩
      have hNew : config.publicConfig.ID ∉ m.keys := by
        intro hKey
        rw [List.map_append, List.nodup_append] at hNodup
        exact hNodup.2.2 _ hKey _ List.mem_cons_self rfl
      refine ⟨_, _, ⟨hNew, rfl, rfl⟩, ih.mpr ⟨?_, by simp, rfl⟩⟩
      rw [hEntries hNew, List.append_assoc]
      exact hNodup

/-- The gateway of some configurations, with the labels it was made with. -/
def GatewayOf (configs : List (PrivateConfig SK)) (g : OhttpGateway SK) : Prop :=
  NewDefaultGateway configs = .ok g ∨
    ∃ requestLabel responseLabel, NewCustomGateway configs requestLabel responseLabel = .ok g

theorem GatewayOf.maps {configs : List (PrivateConfig SK)} {g : OhttpGateway SK} (h : GatewayOf configs g) :
    (configs.map (·.publicConfig.ID)).Nodup ∧ g.keys = configs.map (·.publicConfig.ID) ∧
      g.keyMap.entries = configs.map entryOf := by
  have hMap : createConfigMap configs ([], .empty) = .ok (g.keys, g.keyMap) := by
    rcases h with h | ⟨requestLabel, responseLabel, h⟩
    · obtain ⟨⟨keys, keyMap⟩, hMap, hGateway⟩ := bind_eq_ok.mp h
      cases hGateway
      exact hMap
    · unfold NewCustomGateway at h
      split at h
      · cases h
      · obtain ⟨⟨keys, keyMap⟩, hMap, hGateway⟩ := bind_eq_ok.mp h
        cases hGateway
        exact hMap
  obtain ⟨hNodup, hKeys, hKeyMap⟩ := createConfigMap_eq_ok.mp hMap
  refine ⟨?_, by simpa using hKeys, ?_⟩
  · have hIds : (OrderedMap.empty.entries ++ configs.map entryOf).map Prod.fst = configs.map (·.publicConfig.ID) := by
      change (configs.map entryOf).map Prod.fst = _
      rw [List.map_map]
      rfl
    rwa [hIds] at hNodup
  · rw [hKeyMap, OrderedMap.entries_foldl_set hNodup]
    rfl

theorem GatewayOf.get? {configs : List (PrivateConfig SK)} {g : OhttpGateway SK} (h : GatewayOf configs g) {id : UInt8}
    {config : PrivateConfig SK} :
    g.keyMap.get? id = some config ↔ config ∈ configs ∧ config.publicConfig.ID = id := by
  rw [OrderedMap.get?_eq_some_iff, h.maps.2.2, List.mem_map]
  constructor
  · rintro ⟨c, hc, hEntry⟩
    cases hEntry
    exact ⟨hc, rfl⟩
  · rintro ⟨hc, rfl⟩
    exact ⟨config, hc, rfl⟩

/-- What a gateway publishes, split at the lengths. -/
theorem marshalConfigs_readable {configs : List (PrivateConfig SK)} {g : OhttpGateway SK} (h : GatewayOf configs g)
    (hDerived : ∀ config ∈ configs, Derived P config) : ∃ data bodies, g.MarshalConfigs = .ok data ∧
      readMany readLengthPrefixed configs.length data = .ok (bodies, []) ∧
      List.Forall₂ (fun config body => UnmarshalPublicConfig body = .ok config.publicConfig) configs bodies := by
  have hEach : ∀ config ∈ configs, ∃ body part, config.publicConfig.Marshal = .ok body ∧
      lengthPrefixed body = .ok part ∧ marshalConfig g config.publicConfig.ID = .ok part := by
    intro config hConfig
    obtain ⟨body, hBody, hLength⟩ := (hDerived config hConfig).marshal
    have hPart := lengthPrefixed_eq_ok.mpr ⟨hLength, rfl⟩
    refine ⟨body, _, hBody, hPart, ?_⟩
    rw [marshalConfig, h.get?.mpr ⟨hConfig, rfl⟩]
    change (do let body ← config.publicConfig.Marshal; lengthPrefixed body) = _
    rw [hBody]
    exact hPart
  obtain ⟨bodies, parts, hParts, hBodies⟩ : ∃ bodies parts : List Bytes,
      List.Forall₂ (fun config part => marshalConfig g config.publicConfig.ID = .ok part) configs parts ∧
      List.Forall₂ (fun body part => lengthPrefixed body = .ok part) bodies parts ∧
      List.Forall₂ (fun config body => UnmarshalPublicConfig body = .ok config.publicConfig) configs bodies := by
    clear h
    induction configs with
    | nil => exact ⟨[], [], .nil, .nil, .nil⟩
    | cons config rest ih =>
      rw [List.forall_mem_cons] at hDerived hEach
      obtain ⟨bodies, parts, hParts, hBodies, hRead⟩ := ih hDerived.2 hEach.2
      obtain ⟨body, part, hBody, hPart, hMarshal⟩ := hEach.1
      have hReadBody : UnmarshalPublicConfig body = .ok config.publicConfig :=
        unmarshalPublicConfig_eq_ok.mpr ⟨hDerived.1.valid, body, [], hBody, (List.append_nil body).symm⟩
      exact ⟨body :: bodies, part :: parts, .cons hMarshal hParts, .cons hPart hBodies, .cons hReadBody hRead⟩
  refine ⟨parts.flatten, bodies, ?_, ?_, hBodies.2⟩
  · have hAll : mapAll (marshalConfig g) g.keys = .ok parts := by
      rw [h.maps.2.1, mapAll_eq_ok, List.forall₂_map_left_iff]
      exact hParts
    rw [OhttpGateway.MarshalConfigs, hAll]
    rfl
  · exact (reads_lengthPrefixed.many configs.length _ _ _).mpr
      ⟨parts.flatten, (List.append_nil _).symm, hBodies.2.length_eq.symm, parts, rfl, hBodies.1⟩

theorem GatewayOf.config {configs : List (PrivateConfig SK)} {g : OhttpGateway SK} (h : GatewayOf configs g)
    {config : PrivateConfig SK} (hConfig : config ∈ configs) :
    g.Config config.publicConfig.ID = .ok config.publicConfig := by
  rw [OhttpGateway.Config, h.get?.mpr ⟨hConfig, rfl⟩]

/-- What a gateway publishes is, split at the lengths, its configurations in their order, each read back as it is; and
it knows each of them under its identifier. -/
theorem published_configs_read_back {configs : List (PrivateConfig SK)} {g : OhttpGateway SK} (h : GatewayOf configs g)
    (hDerived : ∀ config ∈ configs, Derived P config) : ∃ data bodies, g.MarshalConfigs = .ok data ∧
      readMany readLengthPrefixed configs.length data = .ok (bodies, []) ∧
      List.Forall₂ (fun config body => UnmarshalPublicConfig body = .ok config.publicConfig ∧
        g.Config config.publicConfig.ID = .ok config.publicConfig) configs bodies := by
  obtain ⟨data, bodies, hData, hBodies, hRead⟩ := marshalConfigs_readable h hDerived
  refine ⟨data, bodies, hData, hBodies, ?_⟩
  have hKnown := (List.forall₂_and_left configs bodies).mpr ⟨fun config hConfig => h.config hConfig, hRead⟩
  exact hKnown.imp fun _ _ hBoth => ⟨hBoth.2, hBoth.1⟩

/-! ## Primitives for tests -/

def fill (n : Nat) (b : Bytes) : Bytes := b.take n ++ List.replicate (n - b.length) 0

theorem fill_length (n : Nat) (b : Bytes) : (fill n b).length = n := by
  rw [fill, List.length_append, List.length_take, List.length_replicate]
  omega

def testTag (key nonce aad : Bytes) : Bytes := fill 16 (key ++ nonce ++ aad)

def testPrimitives : Primitives Bytes Bytes where
  deriveKeyPair kem seed := .ok (fill (PublicKeySize kem) seed, seed)
  encapsulate kem pk random := .ok (fill (CiphertextSize kem) random, pk ++ fill (CiphertextSize kem) random)
  decapsulate kem sk enc := .ok (fill (PublicKeySize kem) sk ++ enc)
  unmarshalPublicKey _ b := .ok b
  hkdfExtract kdf secret salt := fill (ExtractSize kdf) (secret ++ salt)
  hkdfExpand _ prk info len := fill len (prk ++ info)
  aeadSeal _ key nonce pt aad := pt ++ testTag key nonce aad
  aeadOpen _ key nonce ct aad :=
    if ct.drop (ct.length - 16) = testTag key nonce aad then .ok (ct.take (ct.length - 16)) else .error (.other [])
  derive_length := by
    rintro kem seed publicKey sk ⟨⟩
    exact fill_length ..
  derive_pair := by
    rintro kem seed publicKey sk pk random enc ss ⟨⟩ ⟨⟩ ⟨⟩
    rfl
  encapsulate_length := by
    rintro kem pk seed enc ss ⟨⟩
    exact fill_length ..
  extract_length _ _ _ _ := fill_length ..
  expand_length _ _ _ _ := fill_length ..
  open_seal _ key nonce pt aad := by
    have hTag : (testTag key nonce aad).length = 16 := fill_length ..
    have hCut : (pt ++ testTag key nonce aad).length - 16 = pt.length := by
      rw [List.length_append, hTag, Nat.add_sub_cancel]
    rw [hCut, List.drop_left, List.take_left, if_pos rfl]

/-- `config` and `legacyConfig` of `main`, in their order. -/
def testConfig (keyID : UInt8) (kemID : UInt16) (seed : Bytes) : PrivateConfig Bytes :=
  ⟨⟨keyID, kemID, [⟨KDF_HKDF_SHA256, AEAD_AES128GCM⟩], fill (PublicKeySize kemID) seed⟩, seed⟩

theorem testConfig_derived (keyID : UInt8) {kemID : UInt16} (hKem : kemIsValid kemID = true) (seed : Bytes) :
    Derived testPrimitives (testConfig keyID kemID seed) :=
  ⟨keyID, kemID, _, _, seed, newConfig_eq_ok.mpr ⟨⟨hKem, rfl, rfl⟩, _, _, rfl, rfl⟩⟩

def testConfigs : List (PrivateConfig Bytes) :=
  [testConfig 0 KEM_X25519_KYBER768_DRAFT00 [1], testConfig 128 KEM_X25519_HKDF_SHA256 [2]]

theorem testConfigs_derived : ∀ config ∈ testConfigs, Derived testPrimitives config := by
  intro config hConfig
  rcases List.mem_cons.mp hConfig with rfl | hConfig
  · exact testConfig_derived 0 rfl [1]
  · obtain rfl := List.mem_singleton.mp hConfig
    exact testConfig_derived 128 rfl [2]

def testGateway : OhttpGateway Bytes :=
  ⟨defaultLabelRequest, defaultLabelResponse, [0, 128], .ofList (testConfigs.map entryOf)⟩

theorem testGateway_of : GatewayOf testConfigs testGateway := .inl rfl

theorem published_configs_read_back_two : ∃ data bodies, testGateway.MarshalConfigs = .ok data ∧
    readMany readLengthPrefixed 2 data = .ok (bodies, []) ∧
    List.Forall₂ (fun config body => UnmarshalPublicConfig body = .ok config.publicConfig ∧
      testGateway.Config config.publicConfig.ID = .ok config.publicConfig) testConfigs bodies :=
  published_configs_read_back testGateway_of testConfigs_derived

/-! ## A request and its response -/

theorem newSuite_eq_ok {kemID kdfID aeadID : UInt16} {suite : Suite} :
    NewSuite kemID kdfID aeadID = .ok suite ↔ ∃ h, suite = ⟨kemID, kdfID, aeadID, h⟩ := by
  unfold NewSuite
  split
  · rename_i hValid
    rw [Except.ok.injEq, eq_comm]
    exact ⟨fun h => ⟨hValid, h⟩, fun ⟨_, h⟩ => h⟩
  · rename_i hValid
    exact ⟨nofun, fun ⟨h, _⟩ => absurd h hValid⟩

theorem responseKeys_eq (P : Primitives SK PK) (ctx : RequestContext)
    (hExporter : ctx.context.exporterSecret.length = ExtractSize ctx.context.suite.kdfID) (responseNonce : Bytes) :
    ∃ key nonce, responseKeys P ctx responseNonce = .ok (key, nonce) ∧ aeadNew ctx.suite.aeadID key = .ok () := by
  have hSize := kdf_extractSize_pos ctx.suite.kdfID
  have hOuter := kdf_extractSize_pos ctx.context.suite.kdfID
  have hKey := keySize_bounds ctx.suite.aeadID
  obtain ⟨secret, hSecret, -⟩ := labeledExpand_eq (P := P) (text "sec") ctx.responseLabel
    (l := KeySize ctx.suite.aeadID) hExporter (by omega)
  have hExport : Export P ctx.context ctx.responseLabel (KeySize ctx.suite.aeadID) = .ok secret := by
    rw [Export, if_neg (by omega), hSecret]
  have hPrk : (P.hkdfExtract ctx.suite.kdfID secret (ctx.enc ++ responseNonce)).length = ExtractSize ctx.suite.kdfID :=
    P.extract_length _ _ _ ctx.suite.valid.2.1
  have hExpand : ∀ info len, len ≤ 255 * ExtractSize ctx.suite.kdfID →
      ∃ out, Expand P ctx.suite.kdfID (P.hkdfExtract ctx.suite.kdfID secret (ctx.enc ++ responseNonce)) info len =
        .ok out ∧ out.length = len := by
    intro info len hLen
    simp only [Expand, hPrk, lt_irrefl, if_false, if_neg (not_lt_of_ge hLen), Except.ok.injEq]
    exact ⟨_, rfl, P.expand_length ..⟩
  obtain ⟨key, hKeyOut, hKeyLength⟩ := hExpand labelResponseKey (KeySize ctx.suite.aeadID) (by omega)
  obtain ⟨nonce, hNonceOut, -⟩ := hExpand labelResponseNonce 12 (by omega)
  refine ⟨key, nonce, ?_, aeadNew_eq_ok hKeyLength⟩
  simp only [responseKeys, bind_eq_ok]
  exact ⟨secret, hExport, key, hKeyOut, nonce, hNonceOut, rfl⟩

theorem responseNonceLen_eq (suite : Suite) : responseNonceLen suite = KeySize suite.aeadID := by
  have hKey := keySize_bounds suite.aeadID
  unfold responseNonceLen
  omega

/-- Two contexts that export the same secret agree on every response. -/
theorem decapsulate_of_encapsulate {client gateway : RequestContext} (hSame : client = gateway)
    (hExporter : gateway.context.exporterSecret.length = ExtractSize gateway.context.suite.kdfID)
    {response responseNonce : Bytes} (hNonce : responseNonce.length = responseNonceLen gateway.suite) :
    ∃ raw, gateway.EncapsulateResponse P response responseNonce = .ok raw ∧
      client.DecapsulateResponse P raw = .ok response := by
  subst hSame
  obtain ⟨key, nonce, hKeys, hNew⟩ := responseKeys_eq P client hExporter responseNonce
  refine ⟨responseNonce ++ P.aeadSeal client.suite.aeadID key nonce response [], ?_, ?_⟩
  · simp only [RequestContext.EncapsulateResponse, bind_eq_ok, Prod.exists]
    exact ⟨key, nonce, hKeys, (), hNew, rfl⟩
  · have hTake : ∀ sealed, (responseNonce ++ sealed).take (responseNonceLen client.suite) = responseNonce :=
      fun _ => List.take_left' hNonce
    have hDrop : ∀ sealed, (responseNonce ++ sealed).drop (responseNonceLen client.suite) = sealed :=
      fun _ => List.drop_left' hNonce
    simp only [RequestContext.DecapsulateResponse, bind_eq_ok, Prod.exists, require_eq_ok, hTake]
    refine ⟨(), ?_, key, nonce, hKeys, (), hNew, ?_⟩
    · rw [List.length_append]
      omega
    · rw [← responseNonceLen_eq, hDrop, P.open_seal]

theorem encapsulateRequest_eq_ok {c : Client} {request seed : Bytes} {req : EncapsulatedRequest} {ctx : RequestContext} :
    c.EncapsulateRequest P request seed = .ok (req, ctx) ↔ ∃ first suite pkR enc context ct context',
      c.config.Suites.head? = some first ∧ NewSuite c.config.KEMID first.KDFID first.AEADID = .ok suite ∧
      P.unmarshalPublicKey c.config.KEMID c.config.PublicKeyBytes = .ok pkR ∧
      senderSetup P suite pkR (requestInfo c.requestLabel c.config.ID c.config.KEMID first.KDFID first.AEADID) seed =
        .ok (enc, context) ∧ Seal P context request [] = .ok (ct, context') ∧
      req = ⟨c.config.ID, c.config.KEMID, first.KDFID, first.AEADID, enc, ct⟩ ∧
      ctx = ⟨c.responseLabel, enc, suite, context'⟩ := by
  simp only [Client.EncapsulateRequest, bind_eq_ok, Prod.exists, orThrow_eq_ok, pure, Except.pure, Except.ok.injEq,
    Prod.mk.injEq]
  constructor
  · rintro ⟨first, hFirst, suite, hSuite, pkR, hKey, enc, context, hSetup, ct, context', hSeal, rfl, rfl⟩
    exact ⟨first, suite, pkR, enc, context, ct, context', hFirst, hSuite, hKey, hSetup, hSeal, rfl, rfl⟩
  · rintro ⟨first, suite, pkR, enc, context, ct, context', hFirst, hSuite, hKey, hSetup, hSeal, rfl, rfl⟩
    exact ⟨first, hFirst, suite, hSuite, pkR, hKey, enc, context, hSetup, ct, context', hSeal, rfl, rfl⟩

/-- Only the client's keys can keep it from making a request. -/
theorem encapsulateRequest_succeeds {c : Client} {first : ConfigCipherSuite} {pkR : PK} {request seed enc ss : Bytes}
    (hFirst : c.config.Suites.head? = some first) (hKem : kemIsValid c.config.KEMID = true) (hSuite : first.Valid)
    (hKey : P.unmarshalPublicKey c.config.KEMID c.config.PublicKeyBytes = .ok pkR)
    (hEnc : P.encapsulate c.config.KEMID pkR seed = .ok (enc, ss)) :
    ∃ req ctx, c.EncapsulateRequest P request seed = .ok (req, ctx) := by
  obtain ⟨context, hSchedule, -, -, -, hSequence⟩ := keySchedule_base (P := P)
    ⟨c.config.KEMID, first.KDFID, first.AEADID, hKem, hSuite⟩ ss
    (requestInfo c.requestLabel c.config.ID c.config.KEMID first.KDFID first.AEADID)
  have hSetup : senderSetup P ⟨c.config.KEMID, first.KDFID, first.AEADID, hKem, hSuite⟩ pkR
      (requestInfo c.requestLabel c.config.ID c.config.KEMID first.KDFID first.AEADID) seed = .ok (enc, context) := by
    simp only [senderSetup, bind_eq_ok, Prod.exists]
    exact ⟨enc, ss, hEnc, context, hSchedule, rfl⟩
  obtain ⟨next, hNext⟩ : ∃ next, increment context.sequenceNumber = .ok next := by
    rw [hSequence]
    exact ⟨_, rfl⟩
  exact ⟨_, _, encapsulateRequest_eq_ok.mpr ⟨first, _, pkR, enc, context, _, _, hFirst,
    newSuite_eq_ok.mpr ⟨⟨hKem, hSuite⟩, rfl⟩, hKey, hSetup, seal_eq_ok.mpr ⟨rfl, next, hNext, rfl⟩, rfl, rfl⟩⟩

/-- The gateway opens a request into the context that the client keeps. -/
theorem decapsulateRequest_of_encapsulate {configs : List (PrivateConfig SK)} {g : OhttpGateway SK}
    (h : GatewayOf configs g) (hDerived : ∀ config ∈ configs, Derived P config) {keyID : UInt8} {client : Client}
    (hClient : g.Client keyID = .ok client) {request seed : Bytes} {req : EncapsulatedRequest} {ctx : RequestContext}
    (hRequest : client.EncapsulateRequest P request seed = .ok (req, ctx)) :
    UnmarshalEncapsulatedRequest req.Marshal = .ok req ∧ g.MatchesConfig req = true ∧
      g.DecapsulateRequest P req = .ok (request, ctx) ∧
      ctx.context.exporterSecret.length = ExtractSize ctx.context.suite.kdfID := by
  obtain ⟨config, hConfig, hKnown⟩ : ∃ config, g.keyMap.get? keyID = some config ∧
      client = ⟨g.requestLabel, g.responseLabel, config.publicConfig⟩ := by
    simp only [OhttpGateway.Client, OhttpGateway.Config, bind_eq_ok, pure, Except.pure, Except.ok.injEq] at hClient
    obtain ⟨publicConfig, hPublic, rfl⟩ := hClient
    split at hPublic
    · rename_i config hGet
      cases hPublic
      exact ⟨config, hGet, rfl⟩
    · cases hPublic
  subst hKnown
  obtain ⟨hMember, rfl⟩ := h.get?.mp hConfig
  obtain ⟨first, suite, pkR, enc, context, ct, context', -, hSuite, hKey, hSetup, hSeal, rfl, rfl⟩ :=
    encapsulateRequest_eq_ok.mp hRequest
  obtain ⟨hValid, rfl⟩ := newSuite_eq_ok.mp hSuite
  simp only [senderSetup, bind_eq_ok, Prod.exists, pure, Except.pure, Except.ok.injEq, Prod.mk.injEq] at hSetup
  obtain ⟨enc, ss, hEnc, context, hSchedule, rfl, rfl⟩ := hSetup
  have hDecapsulate : P.decapsulate config.publicConfig.KEMID config.sk enc = .ok ss := by
    obtain ⟨id, kemID, kdfID, aeadID, keySeed, hConfig⟩ := hDerived config hMember
    obtain ⟨-, pkEnc, sk, hPair, rfl⟩ := newConfig_eq_ok.mp hConfig
    exact P.derive_pair _ _ _ _ _ _ _ _ hPair hKey hEnc
  obtain ⟨c, hBase, hSameSuite, hExporter, -, -⟩ := keySchedule_base (P := P)
    ⟨config.publicConfig.KEMID, first.KDFID, first.AEADID, hValid⟩ ss
    (requestInfo g.requestLabel config.publicConfig.ID config.publicConfig.KEMID first.KDFID first.AEADID)
  rw [hBase, Except.ok.injEq] at hSchedule
  subst hSchedule
  have hOpen := open_of_seal hSeal
  obtain ⟨-, next, -, rfl⟩ := seal_eq_ok.mp hSeal
  refine ⟨?_, ?_, ?_, ?_⟩
  · exact marshal_readable ⟨hValid.1, hValid.2.1, hValid.2.2, P.encapsulate_length _ _ _ _ _ hEnc⟩
  · rw [OhttpGateway.MatchesConfig, OrderedMap.has, hConfig]
    rfl
  · simp only [OhttpGateway.DecapsulateRequest, bind_eq_ok, Prod.exists, orThrow_eq_ok, require_eq_ok]
    refine ⟨config, hConfig, (), hValid, _, hSuite, c, ?_, request, _, hOpen, rfl⟩
    simp only [receiverSetup, bind_eq_ok]
    exact ⟨ss, hDecapsulate, hBase⟩
  · dsimp only
    rw [hExporter, hSameSuite]

/-- The gateway opens what a client made for one of its keys, also after the request has been on the wire, and the
client opens each response that the gateway makes for it. -/
theorem exchange_round_trip {configs : List (PrivateConfig SK)} {g : OhttpGateway SK} (h : GatewayOf configs g)
    (hDerived : ∀ config ∈ configs, Derived P config) {keyID : UInt8} {client : Client}
    (hClient : g.Client keyID = .ok client) {request seed : Bytes} {req : EncapsulatedRequest} {ctx : RequestContext}
    (hRequest : client.EncapsulateRequest P request seed = .ok (req, ctx)) :
    UnmarshalEncapsulatedRequest req.Marshal = .ok req ∧ g.MatchesConfig req = true ∧
      ∃ gatewayCtx, g.DecapsulateRequest P req = .ok (request, gatewayCtx) ∧
        ∀ response responseNonce, responseNonce.length = responseNonceLen gatewayCtx.suite →
          ∃ raw, gatewayCtx.EncapsulateResponse P response responseNonce = .ok raw ∧
            ctx.DecapsulateResponse P raw = .ok response := by
  obtain ⟨hRead, hMatches, hOpened, hExporter⟩ := decapsulateRequest_of_encapsulate h hDerived hClient hRequest
  exact ⟨hRead, hMatches, ctx, hOpened, fun _ _ hNonce => decapsulate_of_encapsulate rfl hExporter hNonce⟩

def testClient : Client :=
  ⟨defaultLabelRequest, defaultLabelResponse, (testConfig 128 KEM_X25519_HKDF_SHA256 [2]).publicConfig⟩

theorem exchange_round_trip_legacy : ∃ req ctx, testClient.EncapsulateRequest testPrimitives [1, 2] [3] = .ok (req, ctx) ∧
    UnmarshalEncapsulatedRequest req.Marshal = .ok req ∧ testGateway.MatchesConfig req = true ∧
      ∃ gatewayCtx, testGateway.DecapsulateRequest testPrimitives req = .ok ([1, 2], gatewayCtx) ∧
        ∀ response responseNonce, responseNonce.length = responseNonceLen gatewayCtx.suite →
          ∃ raw, gatewayCtx.EncapsulateResponse testPrimitives response responseNonce = .ok raw ∧
            ctx.DecapsulateResponse testPrimitives raw = .ok response := by
  obtain ⟨req, ctx, hRequest⟩ : ∃ req ctx, testClient.EncapsulateRequest testPrimitives [1, 2] [3] = .ok (req, ctx) :=
    encapsulateRequest_succeeds rfl rfl ⟨rfl, rfl⟩ rfl rfl
  have hClient : testGateway.Client 128 = .ok testClient := rfl
  exact ⟨req, ctx, hRequest, exchange_round_trip testGateway_of testConfigs_derived hClient hRequest⟩

end

end Columbia.Gateway.Ohttp
