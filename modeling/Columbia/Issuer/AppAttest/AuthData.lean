import Columbia.Issuer.AppAttest.Cbor

/-! # Authenticator data

`rpIdHash | flags | signCount`, and with the AT flag `aaguid | length | credentialId | COSE key`. The parser is
the source's; `Layout` says by concatenation what it takes apart.
-/
namespace Columbia.Issuer.AppAttest
open Columbia.Js Columbia.Lib
set_option autoImplicit false

/-- A P-256 key object, by what it is exported as. -/
structure EcKey where
  pem : Str
  deriving DecidableEq

structure Credential where
  aaguid : Bytes
  credentialId : Bytes
  publicKey : EcKey
  rawPoint : Bytes
  deriving DecidableEq

/-- `attested` is what stands under the AT flag. -/
structure AuthData where
  rpIdHash : Bytes
  flags : UInt8
  signCount : Nat
  attested : Option Credential
  deriving DecidableEq

def slice (bytes : Bytes) (start count : Nat) : Bytes := (bytes.drop start).take count

def atPresent (flags : UInt8) : Bool := flags.toNat / 64 % 2 = 1

/-- `createPublicKey` of the P-256 JWK with these coordinates; `none` when it throws. -/
abbrev ImportKey := Bytes → Bytes → Option EcKey

def intItem? (n : Int) (entries : List (Cbor × Cbor)) : Option Int :=
  match lookup (.int n) entries with
  | some (.int m) => some m
  | _ => none

def bytesItem? (key : Key) (entries : List (Cbor × Cbor)) : Option Bytes :=
  match lookup key entries with
  | some (.bytes b) => some b
  | _ => none

def coseKeyToEcPublicKey (importKey : ImportKey) (coseKey : Cbor) : Except Thrown (EcKey × Bytes) :=
  match coseKey with
  | .map entries => do
    require (intItem? 1 entries = some 2) (.error "cose: kty must be EC2")
    require (intItem? 3 entries = some (-7)) (.error "cose: alg must be ES256")
    require (intItem? (-1) entries = some 1) (.error "cose: crv must be P-256")
    let x ← orThrow ((bytesItem? (.int (-2)) entries).filter (·.length = 32)) (.error "cose: bad x")
    let y ← orThrow ((bytesItem? (.int (-3)) entries).filter (·.length = 32)) (.error "cose: bad y")
    let keyObject ← orThrow (importKey x y) .native
    .ok (keyObject, 0x04 :: (x ++ y))
  | _ => .error (.error "cose: not a map")

def parseCredential (importKey : ImportKey) (authData : Bytes) : Except Thrown Credential := do
  require (37 + 18 ≤ authData.length) (.error "authData: attestedCredentialData truncated")
  let credIdLen := integerOf (slice authData 53 2)
  require (55 + credIdLen ≤ authData.length) (.error "authData: credentialId truncated")
  let coseKey ← cborDecodeFirst (authData.drop (55 + credIdLen))
  let (keyObject, rawPoint) ← coseKeyToEcPublicKey importKey coseKey.value
  .ok ⟨slice authData 37 16, slice authData 55 credIdLen, keyObject, rawPoint⟩

def parseAttested (importKey : ImportKey) (wanted : Bool) (flags : UInt8) (authData : Bytes) :
    Except Thrown (Option Credential) :=
  if wanted ∧ atPresent flags then (parseCredential importKey authData).map some else .ok none

def parseAuthenticatorData (importKey : ImportKey) (attestedCredentialData : Bool) (authData : Bytes) :
    Except Thrown AuthData := do
  require (37 ≤ authData.length) (.error "authData: too short")
  let flags := (authData.drop 32).headD 0
  let attested ← parseAttested importKey attestedCredentialData flags authData
  .ok ⟨slice authData 0 32, flags, integerOf (slice authData 33 4), attested⟩

/-! ## Layout -/

structure CoseKey (entries : List (Cbor × Cbor)) (x y : Bytes) : Prop where
  kty : intItem? 1 entries = some 2
  alg : intItem? 3 entries = some (-7)
  crv : intItem? (-1) entries = some 1
  x_bytes : bytesItem? (.int (-2)) entries = some x
  y_bytes : bytesItem? (.int (-3)) entries = some y
  x_length : x.length = 32
  y_length : y.length = 32

theorem coseKeyToEcPublicKey_eq_ok {importKey : ImportKey} {coseKey : Cbor} {key : EcKey} {rawPoint : Bytes} :
    coseKeyToEcPublicKey importKey coseKey = .ok (key, rawPoint) ↔
      ∃ entries x y, coseKey = .map entries ∧ CoseKey entries x y ∧ importKey x y = some key ∧
        rawPoint = 0x04 :: (x ++ y) := by
  cases coseKey with
  | map entries =>
    simp only [coseKeyToEcPublicKey, bind_eq_ok, require_eq_ok, orThrow_eq_ok, exists_const, Option.filter_eq_some_iff,
      decide_eq_true_eq, Except.ok.injEq, Prod.mk.injEq]
    constructor
    · rintro ⟨hKty, hAlg, hCrv, x, ⟨hx, hxLength⟩, y, ⟨hy, hyLength⟩, k, hImport, rfl, rfl⟩
      exact ⟨entries, x, y, rfl, ⟨hKty, hAlg, hCrv, hx, hy, hxLength, hyLength⟩, hImport, rfl⟩
    · rintro ⟨entries', x, y, hEntries, h, hImport, rfl⟩
      cases hEntries
      exact ⟨h.kty, h.alg, h.crv, x, ⟨h.x_bytes, h.x_length⟩, y, ⟨h.y_bytes, h.y_length⟩, key, hImport, rfl, rfl⟩
  | int | bytes | text | array => simp [coseKeyToEcPublicKey]

structure Layout (authData rpIdHash : Bytes) (flags : UInt8) (counter aaguid idLength credentialId cose : Bytes) :
    Prop where
  concat : authData = rpIdHash ++ (flags :: (counter ++ (aaguid ++ (idLength ++ (credentialId ++ cose)))))
  rpIdHash_length : rpIdHash.length = 32
  counter_length : counter.length = 4
  aaguid_length : aaguid.length = 16
  idLength_length : idLength.length = 2
  credentialId_length : credentialId.length = integerOf idLength

theorem slice_append (before part after : Bytes) (n : Nat) (h : before.length = n) :
    slice (before ++ (part ++ after)) n part.length = part := by
  rw [slice, List.drop_left' h, List.take_left]

theorem Layout.slices {authData rpIdHash counter aaguid idLength credentialId cose : Bytes} {flags : UInt8}
    (h : Layout authData rpIdHash flags counter aaguid idLength credentialId cose) :
    slice authData 0 32 = rpIdHash ∧ (authData.drop 32).headD 0 = flags ∧ slice authData 33 4 = counter ∧
    slice authData 37 16 = aaguid ∧ slice authData 53 2 = idLength ∧
    slice authData 55 (integerOf idLength) = credentialId ∧ authData.drop (55 + integerOf idLength) = cose := by
  obtain ⟨rfl, hRp, hCounter, hAaguid, hIdLength, hId⟩ := h
  refine ⟨?_, ?_, ?_, ?_, ?_, ?_, ?_⟩
  · simpa [hRp] using
      slice_append [] rpIdHash (flags :: (counter ++ (aaguid ++ (idLength ++ (credentialId ++ cose))))) 0 rfl
  · rw [List.drop_left' hRp]
    rfl
  · simpa [hCounter] using slice_append (rpIdHash ++ [flags]) counter
      (aaguid ++ (idLength ++ (credentialId ++ cose))) 33 (by simp [hRp])
  · simpa [hAaguid] using slice_append (rpIdHash ++ flags :: counter) aaguid (idLength ++ (credentialId ++ cose)) 37
      (by simp [hRp, hCounter])
  · simpa [hIdLength] using slice_append (rpIdHash ++ flags :: (counter ++ aaguid)) idLength (credentialId ++ cose) 53
      (by simp [hRp, hCounter, hAaguid])
  · simpa [hId] using slice_append (rpIdHash ++ flags :: (counter ++ (aaguid ++ idLength))) credentialId cose 55
      (by simp [hRp, hCounter, hAaguid, hIdLength])
  · have hFront : (rpIdHash ++ flags :: (counter ++ (aaguid ++ (idLength ++ credentialId)))).length =
        55 + integerOf idLength := by
      simp only [List.length_append, List.length_cons]
      omega
    have hDrop : (rpIdHash ++ flags :: (counter ++ (aaguid ++ (idLength ++ credentialId))) ++ cose).drop
        (55 + integerOf idLength) = cose := List.drop_left' hFront
    simpa using hDrop

theorem slice_length {bytes : Bytes} {start count : Nat} (h : start + count ≤ bytes.length) :
    (slice bytes start count).length = count := by
  rw [slice, List.length_take, List.length_drop]
  omega

theorem drop_eq_slice (bytes : Bytes) (start count : Nat) :
    bytes.drop start = slice bytes start count ++ bytes.drop (start + count) := by
  rw [slice, ← List.drop_drop, List.take_append_drop]

theorem layout_of_length {authData : Bytes} (h : 55 + integerOf (slice authData 53 2) ≤ authData.length) :
    Layout authData (slice authData 0 32) ((authData.drop 32).headD 0) (slice authData 33 4) (slice authData 37 16)
      (slice authData 53 2) (slice authData 55 (integerOf (slice authData 53 2)))
      (authData.drop (55 + integerOf (slice authData 53 2))) where
  concat := by
    have hFlags : authData.drop 32 = (authData.drop 32).headD 0 :: authData.drop 33 := by
      rw [List.drop_eq_getElem_cons (show 32 < authData.length by omega)]
      rfl
    rw [← drop_eq_slice authData 55, ← drop_eq_slice authData 53, ← drop_eq_slice authData 37,
      ← drop_eq_slice authData 33, ← hFlags, ← drop_eq_slice authData 0, List.drop_zero]
  rpIdHash_length := slice_length (by omega)
  counter_length := slice_length (by omega)
  aaguid_length := slice_length (by omega)
  idLength_length := slice_length (by omega)
  credentialId_length := slice_length h

theorem parseCredential_eq_ok {importKey : ImportKey} {authData : Bytes} {credential : Credential} :
    parseCredential importKey authData = .ok credential ↔ ∃ rpIdHash flags counter idLength cose entries x y,
      Layout authData rpIdHash flags counter credential.aaguid idLength credential.credentialId cose ∧
      Decodes cose (.map entries) ∧ CoseKey entries x y ∧ importKey x y = some credential.publicKey ∧
      credential.rawPoint = 0x04 :: (x ++ y) := by
  simp only [parseCredential, bind_eq_ok, require_eq_ok, exists_const, Prod.exists, coseKeyToEcPublicKey_eq_ok,
    Except.ok.injEq]
  constructor
  · rintro ⟨-, hLength, decoded, hDecoded, key, point, ⟨entries, x, y, hMap, hCose, hImport, rfl⟩, rfl⟩
    exact ⟨_, _, _, _, _, entries, x, y, layout_of_length hLength, decodes_iff.mpr ⟨decoded, hDecoded, hMap⟩, hCose,
      hImport, rfl⟩
  · rintro ⟨rpIdHash, flags, counter, idLength, cose, entries, x, y, hLayout, hDecodes, hCose, hImport, hPoint⟩
    obtain ⟨-, -, -, hAaguid, hIdLength, hId, hRest⟩ := hLayout.slices
    have hLength := congrArg List.length hLayout.concat
    simp only [List.length_append, List.length_cons, hLayout.rpIdHash_length, hLayout.counter_length,
      hLayout.aaguid_length, hLayout.idLength_length, hLayout.credentialId_length] at hLength
    obtain ⟨decoded, hDecoded, hMap⟩ := decodes_iff.mp hDecodes
    rw [hIdLength, hRest]
    refine ⟨by omega, by omega, decoded, hDecoded, _, _, ⟨entries, x, y, hMap, hCose, hImport, rfl⟩, ?_⟩
    rw [hAaguid, hId, ← hPoint]

theorem parseAuthenticatorData_eq_ok_some {importKey : ImportKey} {authData rpIdHash : Bytes} {flags : UInt8}
    {signCount : Nat} {credential : Credential} :
    parseAuthenticatorData importKey true authData = .ok ⟨rpIdHash, flags, signCount, some credential⟩ ↔
      ∃ counter idLength cose entries x y,
        Layout authData rpIdHash flags counter credential.aaguid idLength credential.credentialId cose ∧
        atPresent flags ∧ signCount = integerOf counter ∧ Decodes cose (.map entries) ∧ CoseKey entries x y ∧
        importKey x y = some credential.publicKey ∧ credential.rawPoint = 0x04 :: (x ++ y) := by
  simp only [parseAuthenticatorData, parseAttested, bind_eq_ok, require_eq_ok, exists_const, true_and]
  constructor
  · rintro ⟨-, attested, hAttested, hEq⟩
    cases hEq
    split at hAttested
    · rename_i hFlag
      obtain ⟨c, hCredential, hSome⟩ := map_eq_ok.mp hAttested
      cases hSome
      obtain ⟨rp, fl, counter, idLength, cose, entries, x, y, hLayout, hRest⟩ := parseCredential_eq_ok.mp hCredential
      obtain ⟨rfl, rfl, rfl, -⟩ := hLayout.slices
      exact ⟨_, idLength, cose, entries, x, y, hLayout, hFlag, rfl, hRest⟩
    · cases hAttested
  · rintro ⟨counter, idLength, cose, entries, x, y, hLayout, hFlag, rfl, hRest⟩
    have hCredential := parseCredential_eq_ok.mpr ⟨rpIdHash, flags, counter, idLength, cose, entries, x, y, hLayout, hRest⟩
    obtain ⟨rfl, rfl, rfl, -⟩ := hLayout.slices
    have hLength := congrArg List.length hLayout.concat
    simp only [List.length_append, List.length_cons, hLayout.rpIdHash_length, hLayout.counter_length] at hLength
    refine ⟨by omega, some credential, ?_, rfl⟩
    rw [if_pos hFlag, hCredential]
    rfl

end Columbia.Issuer.AppAttest
