import Columbia.Issuer.AppAttest.AuthData
import Columbia.Issuer.AppAttest.Der
import Columbia.Issuer.StateStore
import Columbia.Js.Base64

/-! # The App Attest gate

The five checks of `validateAppAttest` in the source's order. Certificates, signatures, hashes and key import are
node's: the bytes of a certificate are any that node takes for one, and a P-256 key it carries can be imported from its
coordinates.
-/
namespace Columbia.Issuer.AppAttest
open Columbia.Js Columbia.Lib
open Columbia.Issuer.StateStore (Mode)
set_option autoImplicit false

structure Jwk where
  kty : Str
  crv : Str
  x : Str
  y : Str

def Jwk.p256 (jwk : Jwk) : Prop := jwk.kty = str "EC" ∧ jwk.crv = str "P-256"

/-- An `X509Certificate`. `none` dates are `NaN`, no `jwk` is an export that throws. Of `raw` nothing is said: what
stands in a name or in the parameters of an algorithm is kept as it came. The coordinates of a P-256 key have their
full 32 bytes. -/
structure Certificate where
  raw : Bytes
  validFrom : Option Int
  validTo : Option Int
  jwk : Option Jwk
  coordinates : ∀ k, jwk = some k → k.p256 → (base64Decode k.x).length = 32 ∧ (base64Decode k.y).length = 32

structure Platform where
  sha256 : Bytes → Digest
  x509 : Bytes → Option Certificate
  checkIssued : Certificate → Certificate → Bool
  signedBy : Certificate → Certificate → Bool
  importKey : ImportKey
  createPublicKey : Str → Option EcKey
  verify : EcKey → Bytes → Bytes → Bool
  bufferFrom : Value → Option Bytes
  importKey_exported : ∀ (cert : Certificate) (k : Jwk), cert.jwk = some k → k.p256 →
    (importKey (base64Decode k.x) (base64Decode k.y)).isSome

structure Config where
  APPLE_ROOT_CA_PEM_B64 : Str
  APPLE_TEAM_ID : Str
  APPLE_BUNDLE_ID : Str
  EXPECTED_AAGUID_LABEL : Str
  CERT_CLOCK_SKEW_MS : Int

variable (platform : Platform) (config : Config)

def Config.APP_ATTEST_READY : Bool :=
  config.APPLE_ROOT_CA_PEM_B64 ≠ [] ∧ config.APPLE_TEAM_ID ≠ [] ∧ config.APPLE_BUNDLE_ID ≠ []

def appId : Str := config.APPLE_TEAM_ID ++ str "." ++ config.APPLE_BUNDLE_ID

def appIdHash : Bytes := (platform.sha256 (utf8Encode (appId config))).val

/-- The label in `ascii`, cut or zero-padded to 16 bytes. -/
def expectedAaguid : Bytes :=
  let label := (config.EXPECTED_AAGUID_LABEL.map fun c => UInt8.ofNat c.toNat).take 16
  label ++ List.replicate (16 - label.length) 0

/-- `Buffer.from(value, 'base64')`; what it does with other values than strings is node's. -/
def bufferFrom : Value → Except Thrown Bytes
  | .str s => .ok (base64Decode s)
  | value => orThrow (platform.bufferFrom value) .native

/-! ## Check 1: certificate chain -/

def readCertificate : Cbor → Except Thrown Certificate
  | .bytes der => orThrow (platform.x509 der) .native
  | _ => .error (.error "chain: x5c entry not bytes")

def rootCertificate : Option Certificate :=
  platform.x509 (utf8Encode (utf8Decode (base64Decode config.APPLE_ROOT_CA_PEM_B64)))

def checkValidity (now : Int) (c : Certificate) : Except Thrown Unit :=
  match c.validFrom, c.validTo with
  | some notBefore, some notAfter => do
    require (notBefore - config.CERT_CLOCK_SKEW_MS ≤ now) (.error "chain: cert not yet valid")
    require (now ≤ notAfter + config.CERT_CLOCK_SKEW_MS) (.error "chain: cert expired")
  | _, _ => .error (.error "chain: bad validity dates")

def checkLinks : Nat → List Certificate → Except Thrown Unit
  | i, child :: issuer :: rest => do
    require (platform.checkIssued child issuer) (.error ("chain: cert " ++ toString i ++ " not issued by next"))
    require (platform.signedBy child issuer) (.error ("chain: cert " ++ toString i ++ " signature invalid"))
    checkLinks (i + 1) (issuer :: rest)
  | _, _ => .ok ()

def verifyCertChain (now : Int) (x5c : List Cbor) : Except Thrown Certificate := do
  require (config.APPLE_ROOT_CA_PEM_B64 ≠ []) (.error "chain: no root CA configured")
  require (1 ≤ x5c.length) (.error "chain: empty x5c")
  let root ← orThrow (rootCertificate platform config) .native
  let certs ← mapAll (readCertificate platform) x5c
  forAll (checkValidity config now) (certs ++ [root])
  checkLinks platform 0 (certs ++ [root])
  require (platform.signedBy root root) (.error "chain: root not self-signed")
  orThrow certs.head? .native

/-! ## Check 2: nonce -/

def compareNonce (expected : Bytes) (found : Except Thrown (Option Bytes)) : Except Thrown Unit := do
  let found ← found
  let extnValue ← orThrow found (.error "nonce: extension missing")
  let actual ← parseAppleNonce extnValue
  require (expected = actual) (.error "nonce: mismatch")

/-- `none` when the search of the certificate does not end within the fuel. -/
def verifyNonce (fuel : Nat) (authData clientDataHash : Bytes) (credCert : Certificate) :
    Option (Except Thrown Unit) :=
  let expected := (platform.sha256 (authData ++ clientDataHash)).val
  (findExtensionValue fuel credCert.raw APPLE_NONCE_OID).map (compareNonce expected)

/-! ## Check 3: key id -/

def decodeKeyId : Value → Except Thrown Bytes
  | .str s => do
    require (s ≠ []) (.error "keyId: missing")
    .ok (base64Decode s)
  | _ => .error (.error "keyId: missing")

def verifyKeyId (credCert : Certificate) (presentedKeyId : Value) (attested : Option Credential) :
    Except Thrown Bytes := do
  let certJwk ← orThrow credCert.jwk .native
  require (certJwk.kty = str "EC" ∧ certJwk.crv = str "P-256") (.error "keyId: leaf key not P-256")
  let certPoint := 0x04 :: (base64Decode certJwk.x ++ base64Decode certJwk.y)
  let credential ← orThrow attested .native
  require (certPoint = credential.rawPoint) (.error "keyId: cert key != authData credential key")
  let computed := (platform.sha256 certPoint).val
  let presented ← decodeKeyId presentedKeyId
  require (presented.length = 32 ∧ computed = presented) (.error "keyId: presented keyId != SHA256(pubkey)")
  require (credential.credentialId.length = 32 ∧ computed = credential.credentialId)
    (.error "keyId: credentialId != SHA256(pubkey)")
  .ok computed

/-! ## Check 4: authenticator data -/

def verifyAttestationAuthData (parsed : AuthData) : Except Thrown Unit := do
  require (parsed.rpIdHash = appIdHash platform config) (.error "authData: rpIdHash != SHA256(appID)")
  require (atPresent parsed.flags) (.error "authData: AT flag not set")
  require (parsed.attested.any (·.aaguid = expectedAaguid config)) (.error "authData: aaguid mismatch")
  require (parsed.signCount = 0) (.error "authData: first attestation signCount must be 0")

/-! ## Check 5: assertion -/

def verifyAssertion (assertionBuf clientDataHash : Bytes) (storedPublicKey : EcKey) (storedCounter : Int) :
    Except Thrown Nat := do
  match (← cborDecodeFirst assertionBuf).value with
  | .map assertion =>
    let signature ← orThrow (bytesItem? (.text (str "signature")) assertion)
      (.error "assertion: missing signature/authenticatorData")
    let authData ← orThrow (bytesItem? (.text (str "authenticatorData")) assertion)
      (.error "assertion: missing signature/authenticatorData")
    let nonce := platform.sha256 (authData ++ clientDataHash)
    require (platform.verify storedPublicKey nonce.val signature) (.error "assertion: bad signature")
    let parsed ← parseAuthenticatorData platform.importKey false authData
    require (parsed.rpIdHash = appIdHash platform config) (.error "assertion: rpIdHash != SHA256(appID)")
    require (storedCounter < parsed.signCount) (.error "assertion: signCount not strictly increasing")
    .ok parsed.signCount
  | _ => .error (.error "assertion: not a CBOR map")

/-! ## The gate -/

structure Candidate where
  mode : Mode
  keyId : Str
  publicKeyPem : Str
  signCount : Nat
  deriving DecidableEq

inductive Result
  | ok (candidate : Candidate)
  | rejected (reason : String) (detail : Option Thrown)
  deriving DecidableEq

def decodeAttestation (attestationBuf : Bytes) : Except Thrown (List Cbor × Bytes) := do
  match (← cborDecodeFirst attestationBuf).value with
  | .map value =>
    require ((lookup (.text (str "fmt")) value).bind Cbor.key? = some (.text (str "apple-appattest")))
      (.error "attestation: fmt must be apple-appattest")
    match lookup (.text (str "attStmt")) value with
    | some (.map attStmt) =>
      match lookup (.text (str "x5c")) attStmt with
      | some (.array x5c) =>
        require (1 ≤ x5c.length) (.error "attestation: x5c missing")
        let authData ← orThrow (bytesItem? (.text (str "authData")) value) (.error "attestation: authData missing")
        .ok (x5c, authData)
      | _ => .error (.error "attestation: x5c missing")
    | _ => .error (.error "attestation: attStmt missing")
  | _ => .error (.error "attestation: not a CBOR map")

/-- The object and its certificates: everything before the walk. -/
def readAttestation (now : Int) (attestation : Value) : Except Thrown (Bytes × Certificate) := do
  let attestationBuf ← bufferFrom platform attestation
  let (x5c, authData) ← decodeAttestation attestationBuf
  let credCert ← verifyCertChain platform config now x5c
  .ok (authData, credCert)

def checkCredential (keyId : Value) (authData : Bytes) (credCert : Certificate) : Except Thrown Candidate := do
  let parsed ← parseAuthenticatorData platform.importKey true authData
  let canonicalKeyId ← verifyKeyId platform credCert keyId parsed.attested
  verifyAttestationAuthData platform config parsed
  let credential ← orThrow parsed.attested .native
  .ok ⟨.attestation, base64Encode canonicalKeyId, credential.publicKey.pem, parsed.signCount⟩

def validateAttestation (fuel : Nat) (now : Int) (keyId attestation : Value) (clientDataHash : Bytes) :
    Option (Except Thrown Candidate) :=
  match readAttestation platform config now attestation with
  | .error e => some (.error e)
  | .ok (authData, credCert) =>
    (verifyNonce platform fuel authData clientDataHash credCert).map fun nonce => do
      nonce
      checkCredential platform config keyId authData credCert

def closed : Except Thrown Candidate → Result
  | .ok candidate => .ok candidate
  | .error e => .rejected "verification_failed" (some e)

structure Args where
  keyId : Value
  attestation : Value
  assertion : Value
  clientDataHash : Value

/-- Where the call stands at its only await: decided, or looking a device up with the bytes it will verify. -/
inductive Validation
  | returned (result : Result)
  | lookingUp (storeKeyId : Str) (clientDataHash : Bytes)
  deriving DecidableEq

def validateAppAttest (fuel : Nat) (now : Int) (args : Args) : Option Validation :=
  if config.APP_ATTEST_READY = false then some (.returned (.rejected "app_attest_not_configured" none))
  else
    match args.clientDataHash with
    | .str (c :: s) =>
      let clientDataHash := base64Decode (c :: s)
      if clientDataHash.length ≠ 32 then some (.returned (.rejected "client_data_hash_not_32_bytes" none))
      else if args.attestation.truthy then
        (validateAttestation platform config fuel now args.keyId args.attestation clientDataHash).map fun r =>
          .returned (closed r)
      else if args.assertion.truthy then
        match decodeKeyId args.keyId with
        | .error e => some (.returned (.rejected "verification_failed" (some e)))
        | .ok keyId => some (.lookingUp (base64Encode keyId) clientDataHash)
      else some (.returned (.rejected "no_attestation_or_assertion" none))
    | _ => some (.returned (.rejected "missing_client_data_hash" none))

/-- After `getAttestedKey`: a record's key and counter, no record, or a thrown `StateUnavailable`. -/
def validateAssertion (assertion : Value) (storeKeyId : Str) (clientDataHash : Bytes)
    (record : Option (Option (Str × Int))) : Result :=
  match record with
  | none => .rejected "state_unavailable" none
  | some none => .rejected "unknown_device_key" none
  | some (some (publicKeyPem, signCount)) =>
    if publicKeyPem = [] then .rejected "unknown_device_key" none
    else closed do
      let pub ← orThrow (platform.createPublicKey publicKeyPem) .native
      let assertionBuf ← bufferFrom platform assertion
      let newCount ← verifyAssertion platform config assertionBuf clientDataHash pub signCount
      .ok ⟨.assertion, storeKeyId, publicKeyPem, newCount⟩

end Columbia.Issuer.AppAttest
