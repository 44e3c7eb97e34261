import Columbia.Issuer.AppAttest.DerTermination
import Columbia.Issuer.AppAttest.Validate

/-! # What the attestation gate lets through

`Genuine` is the gate's purpose, said of the object, the certificates and the authenticator data themselves.
Each check of the source is turned into the part of it that it decides. The gate answers unless the walk of a leaf,
whose bytes need not be DER throughout, goes round for ever.
-/
namespace Columbia.Issuer.AppAttest
open Columbia.Js Columbia.Lib
set_option autoImplicit false

/-- The bytes are an `apple-appattest` object with these certificates and this authenticator data. -/
def IsAttestation (buf : Bytes) (x5c : List Bytes) (authData : Bytes) : Prop :=
  x5c ≠ [] ∧ ∃ value attStmt, Decodes buf (.map value) ∧
    lookup (.text (str "fmt")) value = some (.text (str "apple-appattest")) ∧
    lookup (.text (str "attStmt")) value = some (.map attStmt) ∧
    lookup (.text (str "x5c")) attStmt = some (.array (x5c.map .bytes)) ∧
    lookup (.text (str "authData")) value = some (.bytes authData)

variable (platform : Platform) (config : Config)

def InWindow (now : Int) (c : Certificate) : Prop :=
  ∃ notBefore notAfter, c.validFrom = some notBefore ∧ c.validTo = some notAfter ∧
    notBefore - config.CERT_CLOCK_SKEW_MS ≤ now ∧ now ≤ notAfter + config.CERT_CLOCK_SKEW_MS

/-- The certificates lead from the leaf to the pinned root, which signed itself. -/
structure Chained (now : Int) (certs : List Certificate) (root : Certificate) : Prop where
  window : ∀ c ∈ certs ++ [root], InWindow config now c
  links : (certs ++ [root]).IsChain fun child issuer => platform.checkIssued child issuer ∧ platform.signedBy child issuer
  selfSigned : platform.signedBy root root

def Anchored (now : Int) (x5c : List Bytes) (leaf : Certificate) : Prop :=
  ∃ certs root, List.Forall₂ (fun der cert => platform.x509 der = some cert) x5c certs ∧
    rootCertificate platform config = some root ∧ Chained platform config now certs root ∧ certs.head? = some leaf

def appleNonceOid : Bytes := [42, 134, 72, 134, 247, 99, 100, 8, 2]

/-- What the search finds in the leaf under Apple's OID is this nonce. -/
def HasNonce (leaf : Certificate) (nonce : Bytes) : Prop :=
  ∃ enough extnValue, (∀ fuel, enough ≤ fuel →
    findExtensionValue fuel leaf.raw APPLE_NONCE_OID = some (.ok (some extnValue))) ∧ parseAppleNonce extnValue = .ok nonce

/-- The first 16 characters, a byte each, with zeros after them. -/
def label16 (label : Str) : Bytes := ((label.map fun c : UInt16 => UInt8.ofNat c.toNat) ++ List.replicate 16 0).take 16

/-- The authenticator data is of this app on a fresh key with these coordinates. -/
def FreshCredential (authData x y : Bytes) : Prop :=
  ∃ flags counter idLength cose entries,
    Layout authData (platform.sha256 (utf8Encode (config.APPLE_TEAM_ID ++ str "." ++ config.APPLE_BUNDLE_ID))).val
      flags counter (label16 config.EXPECTED_AAGUID_LABEL) idLength (platform.sha256 (0x04 :: (x ++ y))).val cose ∧
    atPresent flags ∧ integerOf counter = 0 ∧ Decodes cose (.map entries) ∧ CoseKey entries x y

def CarriesKey (leaf : Certificate) (x y : Bytes) : Prop :=
  ∃ jwk, leaf.jwk = some jwk ∧ jwk.p256 ∧ base64Decode jwk.x = x ∧ base64Decode jwk.y = y

/-- An attestation of the key `x, y`, for this key id and this client data. -/
structure Genuine (now : Int) (keyId attestation : Value) (clientDataHash x y : Bytes) : Prop where
  attested : ∃ buf x5c authData leaf, bufferFrom platform attestation = .ok buf ∧ IsAttestation buf x5c authData ∧
    Anchored platform config now x5c leaf ∧ HasNonce leaf (platform.sha256 (authData ++ clientDataHash)).val ∧
    CarriesKey leaf x y ∧ FreshCredential platform config authData x y
  keyId : decodeKeyId keyId = .ok (platform.sha256 (0x04 :: (x ++ y))).val

/-- The gate returns: `ok` on the genuine attestations, with the canonical key id, and a rejection on all others. -/
def Answers (now : Int) (args : Args) (clientDataHash : Bytes) : Prop :=
  ∃ enough result, (∀ fuel, enough ≤ fuel →
      validateAppAttest platform config fuel now args = some (.returned result)) ∧
    ((∃ c, result = .ok c ∧ c.mode = .attestation) ↔
      ∃ x y, Genuine platform config now args.keyId args.attestation clientDataHash x y) ∧
    ((¬∃ x y, Genuine platform config now args.keyId args.attestation clientDataHash x y) →
      ∃ reason detail, result = .rejected reason detail) ∧
    ∀ c, result = .ok c → ∃ x y, Genuine platform config now args.keyId args.attestation clientDataHash x y ∧
      c.keyId = base64Encode (platform.sha256 (0x04 :: (x ++ y))).val ∧ c.signCount = 0

/-- The certificate that the nonce is looked up in, if the object and its chain are good, has such bytes. -/
def LeafHas (now : Int) (attestation : Value) (P : Bytes → Prop) : Prop :=
  ∀ buf x5c authData leaf, bufferFrom platform attestation = .ok buf → IsAttestation buf x5c authData →
    Anchored platform config now x5c leaf → P leaf.raw

variable {platform config}

/-! ## The object -/

theorem bytesItem?_eq_some {key : Key} {entries : List (Cbor × Cbor)} {b : Bytes} :
    bytesItem? key entries = some b ↔ lookup key entries = some (.bytes b) := by
  unfold bytesItem?
  split
  · rename_i hLookup
    simp [hLookup]
  · rename_i hLookup
    exact ⟨nofun, fun h => absurd h (hLookup b)⟩

theorem text_eq_some {item : Option Cbor} {s : Str} :
    item.bind Cbor.key? = some (.text s) ↔ item = some (.text s) := by
  constructor
  · intro h
    obtain ⟨c, rfl, hKey⟩ := Option.bind_eq_some_iff.mp h
    cases c with
    | text t =>
      cases hKey
      rfl
    | int | bytes | array | map => cases hKey
  · rintro rfl
    rfl

theorem decodeAttestation_eq_ok {buf authData : Bytes} {x5c : List Cbor} :
    decodeAttestation buf = .ok (x5c, authData) ↔ x5c ≠ [] ∧ ∃ value attStmt, Decodes buf (.map value) ∧
      lookup (.text (str "fmt")) value = some (.text (str "apple-appattest")) ∧
      lookup (.text (str "attStmt")) value = some (.map attStmt) ∧
      lookup (.text (str "x5c")) attStmt = some (.array x5c) ∧
      lookup (.text (str "authData")) value = some (.bytes authData) := by
  simp only [decodeAttestation, bind_eq_ok]
  constructor
  · rintro ⟨decoded, hDecoded, h⟩
    split at h
    · rename_i value hMap
      have hDecodes : Decodes buf (.map value) := decodes_iff.mpr ⟨decoded, hDecoded, hMap⟩
      simp only [bind_eq_ok, require_eq_ok, exists_const, text_eq_some] at h
      obtain ⟨hFmt, h⟩ := h
      split at h
      · rename_i attStmt hStmt
        split at h
        · rename_i items hX5c
          simp only [bind_eq_ok, require_eq_ok, exists_const, orThrow_eq_ok, bytesItem?_eq_some, Except.ok.injEq,
            Prod.mk.injEq] at h
          obtain ⟨hLength, data, hAuthData, rfl, rfl⟩ := h
          exact ⟨List.length_pos_iff.mp hLength, value, attStmt, hDecodes, hFmt, hStmt, hX5c, hAuthData⟩
        · cases h
      · cases h
    · cases h
  · rintro ⟨hNonempty, value, attStmt, hDecodes, hFmt, hStmt, hX5c, hAuthData⟩
    obtain ⟨decoded, hDecoded, hMap⟩ := decodes_iff.mp hDecodes
    refine ⟨decoded, hDecoded, ?_⟩
    simp only [hMap, bind_eq_ok, require_eq_ok, exists_const, text_eq_some, hStmt, hX5c, orThrow_eq_ok,
      bytesItem?_eq_some]
    exact ⟨hFmt, List.length_pos_iff.mpr hNonempty, authData, hAuthData, rfl⟩

/-! ## The certificates -/

theorem checkValidity_eq_ok {now : Int} {c : Certificate} {u : Unit} :
    checkValidity config now c = .ok u ↔ InWindow config now c := by
  unfold checkValidity
  split
  · rename_i notBefore notAfter hFrom hTo
    simp only [bind_eq_ok, require_eq_ok, exists_const]
    constructor
    · rintro ⟨hStart, hEnd⟩
      exact ⟨notBefore, notAfter, hFrom, hTo, hStart, hEnd⟩
    · rintro ⟨b, a, hb, ha, hStart, hEnd⟩
      cases hFrom.symm.trans hb
      cases hTo.symm.trans ha
      exact ⟨hStart, hEnd⟩
  · rename_i hDates
    exact ⟨nofun, fun ⟨b, a, hb, ha, _⟩ => absurd ha (hDates b a hb)⟩

theorem checkLinks_eq_ok {i : Nat} {chain : List Certificate} {u : Unit} :
    checkLinks platform i chain = .ok u ↔
      chain.IsChain fun child issuer => platform.checkIssued child issuer ∧ platform.signedBy child issuer := by
  fun_induction checkLinks platform i chain with
  | case1 i child issuer rest ih =>
    simp only [bind_eq_ok, require_eq_ok, exists_const, ih, List.isChain_cons_cons, and_assoc]
  | case2 chain _ hShort =>
    refine ⟨fun _ => ?_, fun _ => rfl⟩
    cases chain with
    | nil => exact .nil
    | cons child rest =>
      cases rest with
      | nil => exact .singleton child
      | cons issuer rest => exact absurd rfl (hShort child issuer rest)

theorem readCertificate_eq_ok {item : Cbor} {cert : Certificate} :
    readCertificate platform item = .ok cert ↔ ∃ der, item = .bytes der ∧ platform.x509 der = some cert := by
  cases item <;> simp [readCertificate]

theorem mapAll_readCertificate {items : List Cbor} {certs : List Certificate} :
    mapAll (readCertificate platform) items = .ok certs ↔ ∃ x5c : List Bytes, items = x5c.map .bytes ∧
      List.Forall₂ (fun der cert => platform.x509 der = some cert) x5c certs := by
  simp only [mapAll_eq_ok, readCertificate_eq_ok]
  constructor
  · intro h
    induction h with
    | nil => exact ⟨[], rfl, .nil⟩
    | cons hItem _ ih =>
      obtain ⟨der, rfl, hCert⟩ := hItem
      obtain ⟨x5c, rfl, hRest⟩ := ih
      exact ⟨der :: x5c, rfl, .cons hCert hRest⟩
  · rintro ⟨x5c, rfl, h⟩
    induction h with
    | nil => exact .nil
    | cons hCert _ ih => exact .cons ⟨_, rfl, hCert⟩ ih

theorem verifyCertChain_iff {now : Int} {items : List Cbor} {leaf : Certificate} :
    verifyCertChain platform config now items = .ok leaf ↔ config.APPLE_ROOT_CA_PEM_B64 ≠ [] ∧
      ∃ x5c : List Bytes, items = x5c.map .bytes ∧ Anchored platform config now x5c leaf := by
  simp only [verifyCertChain, bind_eq_ok, require_eq_ok, exists_const, orThrow_eq_ok, mapAll_readCertificate,
    forAll_eq_ok, checkValidity_eq_ok, checkLinks_eq_ok]
  constructor
  · rintro ⟨hPem, -, root, hRoot, certs, ⟨x5c, rfl, hCerts⟩, hWindow, hLinks, hSelf, hLeaf⟩
    exact ⟨hPem, x5c, rfl, certs, root, hCerts, hRoot, ⟨hWindow, hLinks, hSelf⟩, hLeaf⟩
  · rintro ⟨hPem, x5c, rfl, certs, root, hCerts, hRoot, hChained, hLeaf⟩
    have hLength : 1 ≤ (x5c.map Cbor.bytes).length := by
      rw [List.length_map, hCerts.length_eq]
      cases certs with
      | nil => cases hLeaf
      | cons cert rest => exact Nat.le_add_left 1 _
    exact ⟨hPem, hLength, root, hRoot, certs, ⟨x5c, rfl, hCerts⟩, hChained.window, hChained.links, hChained.selfSigned,
      hLeaf⟩

theorem verifyCertChain_eq_ok {now : Int} {items : List Cbor} {leaf : Certificate}
    (hReady : config.APP_ATTEST_READY = true) :
    verifyCertChain platform config now items = .ok leaf ↔
      ∃ x5c : List Bytes, items = x5c.map .bytes ∧ Anchored platform config now x5c leaf := by
  simp only [Config.APP_ATTEST_READY, decide_eq_true_eq] at hReady
  rw [verifyCertChain_iff, and_iff_right hReady.1]

theorem readAttestation_eq_ok {now : Int} {attestation : Value} {authData : Bytes} {leaf : Certificate}
    (hReady : config.APP_ATTEST_READY = true) :
    readAttestation platform config now attestation = .ok (authData, leaf) ↔
      ∃ buf x5c, bufferFrom platform attestation = .ok buf ∧ IsAttestation buf x5c authData ∧
        Anchored platform config now x5c leaf := by
  simp only [readAttestation, bind_eq_ok, Prod.exists, decodeAttestation_eq_ok, Except.ok.injEq, Prod.mk.injEq]
  constructor
  · rintro ⟨buf, hBuf, items, data, ⟨hItems, hObject⟩, cert, hChain, rfl, rfl⟩
    obtain ⟨x5c, rfl, hAnchored⟩ := (verifyCertChain_eq_ok hReady).mp hChain
    exact ⟨buf, x5c, hBuf, ⟨by simpa using hItems, hObject⟩, hAnchored⟩
  · rintro ⟨buf, x5c, hBuf, ⟨hX5c, hObject⟩, hAnchored⟩
    have hItems : x5c.map Cbor.bytes ≠ [] := by simpa using hX5c
    exact ⟨buf, hBuf, _, authData, ⟨hItems, hObject⟩, leaf, (verifyCertChain_eq_ok hReady).mpr
      ⟨x5c, rfl, hAnchored⟩, rfl, rfl⟩

/-! ## The nonce -/

theorem encodeOid_apple : encodeOid APPLE_NONCE_OID = .ok appleNonceOid := by rfl

theorem compareNonce_eq_ok {leaf : Certificate} {enough : Nat} {found : Except Thrown (Option Bytes)}
    (hFound : ∀ fuel, enough ≤ fuel → findExtensionValue fuel leaf.raw APPLE_NONCE_OID = some found) {expected : Bytes}
    {u : Unit} : compareNonce expected found = .ok u ↔ HasNonce leaf expected := by
  simp only [compareNonce, bind_eq_ok, orThrow_eq_ok, require_eq_ok]
  constructor
  · rintro ⟨found, rfl, extnValue, rfl, nonce, hNonce, rfl⟩
    exact ⟨enough, extnValue, hFound, hNonce⟩
  · rintro ⟨enough', extnValue, hFound', hNonce⟩
    have hSame := (hFound _ (le_max_left enough enough')).symm.trans (hFound' _ (le_max_right enough enough'))
    exact ⟨some extnValue, Option.some.inj hSame, extnValue, rfl, expected, hNonce, rfl⟩

/-- In a leaf that is DER the nonce is that of the first extension of its trees. -/
theorem hasNonce_encoded {leaf : Certificate} {ds : List Der} (h : AllEncoded ds leaf.raw) (nonce : Bytes) :
    HasNonce leaf nonce ↔
      ∃ extnValue, searchAll appleNonceOid 25 ds = some extnValue ∧ parseAppleNonce extnValue = .ok nonce := by
  have hFound : ∀ fuel, leaf.raw.length + 1 ≤ fuel →
      findExtensionValue fuel leaf.raw APPLE_NONCE_OID = some (.ok (searchAll appleNonceOid 25 ds)) :=
    fun fuel hFuel => findExtensionValue_encoded h encodeOid_apple hFuel
  constructor
  · rintro ⟨enough, extnValue, hSome, hNonce⟩
    have hSame := (hFound _ (le_max_left _ enough)).symm.trans (hSome _ (le_max_right _ enough))
    exact ⟨extnValue, Except.ok.inj (Option.some.inj hSame), hNonce⟩
  · rintro ⟨extnValue, hSearch, hNonce⟩
    rw [hSearch] at hFound
    exact ⟨_, extnValue, hFound, hNonce⟩

/-! ## The credential -/

theorem verifyKeyId_eq_ok {leaf : Certificate} {keyId : Value} {attested : Option Credential} {computed : Bytes} :
    verifyKeyId platform leaf keyId attested = .ok computed ↔ ∃ jwk credential, leaf.jwk = some jwk ∧ jwk.p256 ∧
      attested = some credential ∧ 0x04 :: (base64Decode jwk.x ++ base64Decode jwk.y) = credential.rawPoint ∧
      computed = (platform.sha256 credential.rawPoint).val ∧ decodeKeyId keyId = .ok computed ∧
      credential.credentialId = computed := by
  simp only [verifyKeyId, bind_eq_ok, require_eq_ok, exists_const, orThrow_eq_ok, Except.ok.injEq]
  constructor
  · rintro ⟨jwk, hJwk, hP256, credential, rfl, hPoint, presented, hPresented, ⟨-, rfl⟩, ⟨-, hId⟩, rfl⟩
    exact ⟨jwk, credential, hJwk, hP256, rfl, hPoint, by rw [hPoint], hPresented, hId.symm⟩
  · rintro ⟨jwk, credential, hJwk, hP256, rfl, hPoint, rfl, hPresented, hId⟩
    have hLength := (platform.sha256 credential.rawPoint).property
    refine ⟨jwk, hJwk, hP256, credential, rfl, hPoint, _, hPresented, ⟨hLength, by rw [hPoint]⟩,
      ⟨by rw [hId, hLength], ?_⟩, ?_⟩
    · rw [hId, hPoint]
    · rw [hPoint]

theorem expectedAaguid_eq : expectedAaguid config = label16 config.EXPECTED_AAGUID_LABEL := by
  simp only [expectedAaguid, label16, List.take_append, List.take_replicate, List.length_take]
  congr 2
  omega

theorem verifyAttestationAuthData_eq_ok {parsed : AuthData} {u : Unit} :
    verifyAttestationAuthData platform config parsed = .ok u ↔ parsed.rpIdHash = appIdHash platform config ∧
      atPresent parsed.flags ∧ (∃ credential, parsed.attested = some credential ∧
        credential.aaguid = expectedAaguid config) ∧ parsed.signCount = 0 := by
  simp only [verifyAttestationAuthData, bind_eq_ok, require_eq_ok, exists_const, Option.any_eq_true, decide_eq_true_eq]

theorem checkCredential_eq_ok {keyId : Value} {authData : Bytes} {leaf : Certificate} {c : Candidate} :
    checkCredential platform config keyId authData leaf = .ok c ↔ ∃ x y key, CarriesKey leaf x y ∧
      FreshCredential platform config authData x y ∧ platform.importKey x y = some key ∧
      decodeKeyId keyId = .ok (platform.sha256 (0x04 :: (x ++ y))).val ∧
      c = ⟨.attestation, base64Encode (platform.sha256 (0x04 :: (x ++ y))).val, key.pem, 0⟩ := by
  simp only [checkCredential, bind_eq_ok, exists_const, orThrow_eq_ok, verifyKeyId_eq_ok, verifyAttestationAuthData_eq_ok,
    Except.ok.injEq]
  constructor
  · rintro ⟨⟨rpIdHash, flags, signCount, attested⟩, hParsed, computed, ⟨jwk, credential, hJwk, hP256, rfl, hPoint, rfl,
      hPresented, hId⟩, ⟨rfl, hFlags, ⟨credential', hSame, hAaguid⟩, rfl⟩, credential'', hSame', rfl⟩
    cases hSame
    cases hSame'
    obtain ⟨counter, idLength, cose, entries, x, y, hLayout, -, hCounter, hDecodes, hCose, hImport, hRaw⟩ :=
      parseAuthenticatorData_eq_ok_some.mp hParsed
    obtain ⟨hx, hy⟩ := leaf.coordinates jwk hJwk hP256
    obtain ⟨rfl, rfl⟩ := List.append_inj (List.cons.inj (hPoint.trans hRaw)).2 (hx.trans hCose.x_length.symm)
    rw [hRaw] at hId hPresented ⊢
    rw [hAaguid, hId, expectedAaguid_eq] at hLayout
    exact ⟨_, _, credential.publicKey, ⟨jwk, hJwk, hP256, rfl, rfl⟩,
      ⟨flags, counter, idLength, cose, entries, hLayout, hFlags, hCounter.symm, hDecodes, hCose⟩, hImport, hPresented, rfl⟩
  · rintro ⟨x, y, key, ⟨jwk, hJwk, hP256, rfl, rfl⟩, ⟨flags, counter, idLength, cose, entries, hLayout, hFlags, hCounter,
      hDecodes, hCose⟩, hImport, hPresented, rfl⟩
    rw [← expectedAaguid_eq] at hLayout
    have hParsed : parseAuthenticatorData platform.importKey true authData = .ok ⟨appIdHash platform config, flags, 0,
        some ⟨expectedAaguid config, _, key, 0x04 :: (base64Decode jwk.x ++ base64Decode jwk.y)⟩⟩ :=
      parseAuthenticatorData_eq_ok_some.mpr ⟨counter, idLength, cose, entries, _, _, hLayout, hFlags, hCounter.symm,
        hDecodes, hCose, hImport, rfl⟩
    exact ⟨_, hParsed, _, ⟨jwk, _, hJwk, hP256, rfl, rfl, rfl, hPresented, rfl⟩, ⟨rfl, hFlags, ⟨_, rfl, rfl⟩, rfl⟩, _,
      rfl, rfl⟩

/-! ## The gate -/

theorem validateAttestation_returns {now : Int} {keyId attestation : Value} {clientDataHash : Bytes}
    (hReady : config.APP_ATTEST_READY = true)
    (hLeaf : LeafHas platform config now attestation (Terminates · APPLE_NONCE_OID)) :
    ∃ enough result, (∀ fuel, enough ≤ fuel →
      validateAttestation platform config fuel now keyId attestation clientDataHash = some result) ∧
    ∀ c, result = .ok c ↔ ∃ x y key, Genuine platform config now keyId attestation clientDataHash x y ∧
      platform.importKey x y = some key ∧
      c = ⟨.attestation, base64Encode (platform.sha256 (0x04 :: (x ++ y))).val, key.pem, 0⟩ := by
  unfold validateAttestation
  cases hRead : readAttestation platform config now attestation with
  | error e =>
    refine ⟨0, .error e, fun _ _ => rfl, fun c => ⟨nofun, ?_⟩⟩
    rintro ⟨x, y, key, h, -⟩
    obtain ⟨buf, x5c, authData, leaf, hBuf, hObject, hAnchored, -⟩ := h.attested
    cases hRead.symm.trans ((readAttestation_eq_ok hReady).mpr ⟨buf, x5c, hBuf, hObject, hAnchored⟩)
  | ok read =>
    obtain ⟨authData, leaf⟩ := read
    obtain ⟨buf, x5c, hBuf, hObject, hAnchored⟩ := (readAttestation_eq_ok hReady).mp hRead
    obtain ⟨enough, found, hFound⟩ := hLeaf buf x5c authData leaf hBuf hObject hAnchored
    let nonce := compareNonce (platform.sha256 (authData ++ clientDataHash)).val found
    refine ⟨enough, nonce >>= fun _ => checkCredential platform config keyId authData leaf, fun fuel hFuel => ?_,
      fun c => ?_⟩
    · simp only [verifyNonce, hFound fuel hFuel, Option.map_some, nonce]
    · rw [bind_eq_ok]
      simp only [nonce, compareNonce_eq_ok hFound, checkCredential_eq_ok, exists_const]
      constructor
      · rintro ⟨hNonce, x, y, key, hCarries, hFresh, hImport, hKeyId, rfl⟩
        exact ⟨x, y, key, ⟨⟨buf, x5c, authData, leaf, hBuf, hObject, hAnchored, hNonce, hCarries, hFresh⟩, hKeyId⟩,
          hImport, rfl⟩
      · rintro ⟨x, y, key, h, hImport, rfl⟩
        obtain ⟨buf', x5c', authData', leaf', hBuf', hObject', hAnchored', hNonce, hCarries, hFresh⟩ := h.attested
        cases hRead.symm.trans ((readAttestation_eq_ok hReady).mpr ⟨buf', x5c', hBuf', hObject', hAnchored'⟩)
        exact ⟨hNonce, x, y, key, hCarries, hFresh, hImport, h.keyId, rfl⟩

/-- A result says that the search of the leaf has ended. -/
theorem leafHas_of_returns {fuel : Nat} {now : Int} {keyId attestation : Value} {clientDataHash : Bytes}
    {result : Except Thrown Candidate} (hReady : config.APP_ATTEST_READY = true)
    (h : validateAttestation platform config fuel now keyId attestation clientDataHash = some result) :
    LeafHas platform config now attestation (Terminates · APPLE_NONCE_OID) := by
  intro buf x5c authData leaf hBuf hObject hAnchored
  have hRead := (readAttestation_eq_ok hReady).mpr ⟨buf, x5c, hBuf, hObject, hAnchored⟩
  simp only [validateAttestation, hRead] at h
  obtain ⟨nonce, hNonce, -⟩ := Option.map_eq_some_iff.mp h
  obtain ⟨found, hFound, -⟩ := Option.map_eq_some_iff.mp hNonce
  exact ⟨fuel, found, fun more hMore => findExtensionValue_mono hMore hFound⟩

theorem genuine_importKey {now : Int} {keyId attestation : Value} {clientDataHash x y : Bytes}
    (h : Genuine platform config now keyId attestation clientDataHash x y) :
    ∃ key, platform.importKey x y = some key := by
  obtain ⟨-, -, -, leaf, -, -, -, -, ⟨jwk, hJwk, hP256, rfl, rfl⟩, -⟩ := h.attested
  exact Option.isSome_iff_exists.mp (platform.importKey_exported leaf jwk hJwk hP256)

theorem closed_eq_ok {r : Except Thrown Candidate} {c : Candidate} : closed r = .ok c ↔ r = .ok c := by
  cases r <;> simp [closed]

theorem closed_eq_rejected {r : Except Thrown Candidate} (h : ∀ c, r ≠ .ok c) :
    ∃ reason detail, closed r = .rejected reason detail := by
  cases r with
  | error e => exact ⟨_, _, rfl⟩
  | ok c => exact absurd rfl (h c)

theorem validateAppAttest_eq {now : Int} {args : Args} {hash : Str} (hReady : config.APP_ATTEST_READY = true)
    (hAttestation : args.attestation.truthy = true) (hHash : args.clientDataHash = .str hash)
    (hLength : (base64Decode hash).length = 32) (fuel : Nat) : validateAppAttest platform config fuel now args =
      (validateAttestation platform config fuel now args.keyId args.attestation (base64Decode hash)).map fun r =>
        .returned (closed r) := by
  cases hash with
  | nil => cases hLength
  | cons c s =>
    simp only [validateAppAttest, hReady, hHash, hLength, hAttestation]
    rfl

theorem answers_of_leafHas {now : Int} {args : Args} {hash : Str} (hReady : config.APP_ATTEST_READY = true)
    (hAttestation : args.attestation.truthy = true) (hHash : args.clientDataHash = .str hash)
    (hLength : (base64Decode hash).length = 32)
    (hLeaf : LeafHas platform config now args.attestation (Terminates · APPLE_NONCE_OID)) :
    Answers platform config now args (base64Decode hash) := by
  obtain ⟨enough, result, hReturns, hOk⟩ := @validateAttestation_returns platform config now args.keyId args.attestation
    (base64Decode hash) hReady hLeaf
  have hAccepts : (∃ c, closed result = .ok c ∧ c.mode = .attestation) ↔
      ∃ x y, Genuine platform config now args.keyId args.attestation (base64Decode hash) x y := by
    constructor
    · rintro ⟨c, hClosed, -⟩
      obtain ⟨x, y, -, h, -⟩ := (hOk c).mp (closed_eq_ok.mp hClosed)
      exact ⟨x, y, h⟩
    · rintro ⟨x, y, h⟩
      obtain ⟨key, hImport⟩ := genuine_importKey h
      exact ⟨_, closed_eq_ok.mpr ((hOk _).mpr ⟨x, y, key, h, hImport, rfl⟩), rfl⟩
  refine ⟨enough, closed result, fun fuel hFuel => ?_, hAccepts, fun hNone => ?_, fun c hClosed => ?_⟩
  · rw [validateAppAttest_eq hReady hAttestation hHash hLength, hReturns fuel hFuel, Option.map_some]
  · refine closed_eq_rejected fun c hResult => hNone ?_
    obtain ⟨x, y, -, h, -⟩ := (hOk c).mp hResult
    exact ⟨x, y, h⟩
  · obtain ⟨x, y, key, h, -, rfl⟩ := (hOk c).mp (closed_eq_ok.mp hClosed)
    exact ⟨x, y, h, rfl, rfl⟩

variable (platform config) in
/-- The gate answers an attestation if and only if the search of its leaf comes to an end, which it does when no length
there is negative. -/
theorem validateAppAttest_attestation (now : Int) (args : Args) {hash : Str}
    (hReady : config.APP_ATTEST_READY = true) (hAttestation : args.attestation.truthy = true)
    (hHash : args.clientDataHash = .str hash) (hLength : (base64Decode hash).length = 32) :
    (Answers platform config now args (base64Decode hash) ↔
      LeafHas platform config now args.attestation (Terminates · APPLE_NONCE_OID)) ∧
    (LeafHas platform config now args.attestation (fun raw => ∀ off, ¬NegativeLength raw off) →
      Answers platform config now args (base64Decode hash)) := by
  refine ⟨⟨fun hAnswers => ?_, answers_of_leafHas hReady hAttestation hHash hLength⟩, fun hLengths => ?_⟩
  · obtain ⟨enough, result, hReturns, -⟩ := hAnswers
    have hReturned := hReturns enough le_rfl
    rw [validateAppAttest_eq hReady hAttestation hHash hLength] at hReturned
    obtain ⟨r, hResult, -⟩ := Option.map_eq_some_iff.mp hReturned
    exact leafHas_of_returns hReady hResult
  · refine answers_of_leafHas hReady hAttestation hHash hLength fun buf x5c authData leaf hBuf hObject hAnchored => ?_
    exact terminates_of_lengths (hLengths buf x5c authData leaf hBuf hObject hAnchored) APPLE_NONCE_OID

/-- More fuel does not change an answer. -/
theorem validateAppAttest_mono {fuel more : Nat} (hMore : fuel ≤ more) {now : Int} {args : Args} {v : Validation}
    (h : validateAppAttest platform config fuel now args = some v) :
    validateAppAttest platform config more now args = some v := by
  have hAttestation : ∀ {clientDataHash r}, validateAttestation platform config fuel now args.keyId args.attestation
      clientDataHash = some r → validateAttestation platform config more now args.keyId args.attestation
      clientDataHash = some r := by
    intro clientDataHash r hResult
    unfold validateAttestation at hResult ⊢
    split
    · rename_i e hRead
      rw [hRead] at hResult
      exact hResult
    · rename_i authData leaf hRead
      simp only [hRead] at hResult
      obtain ⟨nonce, hNonce, rfl⟩ := Option.map_eq_some_iff.mp hResult
      obtain ⟨found, hFound, rfl⟩ := Option.map_eq_some_iff.mp hNonce
      rw [verifyNonce, findExtensionValue_mono hMore hFound]
      rfl
  unfold validateAppAttest at h ⊢
  split at h
  · rw [if_pos (by assumption)]
    exact h
  · rw [if_neg (by assumption)]
    split
    · rename_i c s hHash
      simp only [hHash] at h
      split at h
      · rw [if_pos (by assumption)]
        exact h
      · rw [if_neg (by assumption)]
        split at h
        · rw [if_pos (by assumption)]
          obtain ⟨r, hResult, rfl⟩ := Option.map_eq_some_iff.mp h
          rw [hAttestation hResult]
          rfl
        · rw [if_neg (by assumption)]
          exact h
    · rename_i hOther
      split at h
      · rename_i c s hHash
        exact absurd hHash (hOther c s)
      · exact h

/-! ## The other outcomes -/

theorem validateAppAttest_lookingUp {fuel : Nat} {now : Int} {args : Args} {storeKeyId : Str} {clientDataHash : Bytes}
    (h : validateAppAttest platform config fuel now args = some (.lookingUp storeKeyId clientDataHash)) :
    ∃ hash keyId, args.clientDataHash = .str hash ∧ clientDataHash = base64Decode hash ∧
      decodeKeyId args.keyId = .ok keyId ∧ storeKeyId = base64Encode keyId := by
  unfold validateAppAttest at h
  split at h
  · cases h
  · split at h
    · rename_i c s hHash
      dsimp only at h
      split at h
      · cases h
      · split at h
        · obtain ⟨r, -, hReturned⟩ := Option.map_eq_some_iff.mp h
          cases hReturned
        · split at h
          · split at h
            · cases h
            · rename_i keyId hKeyId
              cases h
              exact ⟨_, keyId, hHash, rfl, hKeyId, rfl⟩
          · cases h
    · cases h

theorem validateAppAttest_ok {fuel : Nat} {now : Int} {args : Args} {c : Candidate}
    (h : validateAppAttest platform config fuel now args = some (.returned (.ok c))) : c.mode = .attestation := by
  unfold validateAppAttest at h
  split at h
  · cases h
  · split at h
    · dsimp only at h
      split at h
      · cases h
      · split at h
        · obtain ⟨r, hResult, hReturned⟩ := Option.map_eq_some_iff.mp h
          obtain rfl := closed_eq_ok.mp (Validation.returned.inj hReturned)
          unfold validateAttestation at hResult
          split at hResult
          · cases hResult
          · obtain ⟨nonce, -, hChecked⟩ := Option.map_eq_some_iff.mp hResult
            obtain ⟨-, -, hCredential⟩ := bind_eq_ok.mp hChecked
            obtain ⟨x, y, key, -, -, -, -, rfl⟩ := checkCredential_eq_ok.mp hCredential
            rfl
        · split at h
          · split at h <;> cases h
          · cases h
    · cases h

/-! ## One genuine attestation -/

def testX : Bytes := List.replicate 32 1
def testY : Bytes := List.replicate 32 2
def testHash (bytes : Bytes) : Digest := first32 bytes
def testKeyId : Bytes := (testHash (0x04 :: (testX ++ testY))).val

def testConfig : Config := ⟨str "Ag==", str "TEAM", str "app", str "appattest", 300000⟩

/-- `TEAM.app`, AT, counter 0, `appattest`, the key id and the COSE key. -/
def testAuthData : Bytes :=
  (testHash (utf8Encode (appId testConfig))).val ++ [0x40, 0, 0, 0, 0] ++ expectedAaguid testConfig ++ [0, 32] ++
    testKeyId ++ [0xa5, 1, 2, 3, 0x26, 0x20, 1, 0x21, 0x58, 32] ++ testX ++ [0x22, 0x58, 32] ++ testY

def testClientDataHash : Bytes := List.replicate 32 7

def testExtension : Der :=
  .constructed sequenceTag [.primitive oidTag appleNonceOid,
    .primitive octetStringTag ([0x30, 36, 0xa1, 34, 0x04, 32] ++ (testHash (testAuthData ++ testClientDataHash)).val)]

def testLeafDer : Der := .constructed sequenceTag [.constructed context3Tag [testExtension]]

def testLeaf : Certificate where
  raw := testLeafDer.encode
  validFrom := some 0
  validTo := some 10
  jwk := some ⟨str "EC", str "P-256", base64Encode testX, base64Encode testY⟩
  coordinates := by
    rintro k ⟨⟩ -
    simp [base64Decode_base64Encode, testX, testY]

def testRoot : Certificate where
  raw := element 0x30 []
  validFrom := some 0
  validTo := some 10
  jwk := none
  coordinates := nofun

def testPlatform : Platform where
  sha256 := testHash
  x509 bytes := if bytes = [1] then some testLeaf else if bytes = [2] then some testRoot else none
  checkIssued _ _ := true
  signedBy _ _ := true
  importKey x y := some ⟨(x ++ y).map fun b => UInt16.ofNat b.toNat⟩
  createPublicKey pem := some ⟨pem⟩
  verify _ _ _ := true
  bufferFrom _ := none
  importKey_exported _ _ _ _ := rfl

def testAttestation : Bytes :=
  [0xa3, 0x63] ++ utf8Encode (str "fmt") ++ [0x6f] ++ utf8Encode (str "apple-appattest") ++
    [0x67] ++ utf8Encode (str "attStmt") ++ [0xa1, 0x63] ++ utf8Encode (str "x5c") ++ [0x81, 0x41, 1] ++
    [0x68] ++ utf8Encode (str "authData") ++ [0x58, 164] ++ testAuthData

def testArgs : Args :=
  ⟨.str (base64Encode testKeyId), .str (base64Encode testAttestation), .undefined, .str (base64Encode testClientDataHash)⟩

def testCandidate : Candidate :=
  ⟨.attestation, base64Encode testKeyId, (testX ++ testY).map fun b => UInt16.ofNat b.toNat, 0⟩

theorem validateAppAttest_testArgs :
    validateAppAttest testPlatform testConfig 2147483648 5 testArgs = some (.returned (.ok testCandidate)) := by
  decide +kernel

theorem testPlatform_terminates {der : Bytes} {cert : Certificate} (h : testPlatform.x509 der = some cert) :
    Terminates cert.raw APPLE_NONCE_OID := by
  have hTree : ∃ d : Der, cert.raw = d.encode ∧ d.encode.length < 2147483648 := by
    change (if der = [1] then some testLeaf else if der = [2] then some testRoot else none) = some cert at h
    split at h
    · cases h
      exact ⟨testLeafDer, rfl, by decide +kernel⟩
    · split at h
      · cases h
        exact ⟨.constructed sequenceTag [], rfl, by decide +kernel⟩
      · cases h
  obtain ⟨d, hRaw, hSize⟩ := hTree
  rw [hRaw]
  exact ⟨_, _, fun fuel hFuel => findExtensionValue_encode encodeOid_apple hSize hFuel⟩

theorem validateAppAttest_attestation_genuine : ∃ x y, Genuine testPlatform testConfig 5 testArgs.keyId
    testArgs.attestation (base64Decode (base64Encode testClientDataHash)) x y := by
  have hAnswers := (validateAppAttest_attestation testPlatform testConfig 5 testArgs (by decide) (by decide +kernel) rfl
    (by simp [base64Decode_base64Encode, testClientDataHash])).1.mpr (by
      rintro buf x5c authData leaf - - ⟨certs, root, hCerts, -, -, hHead⟩
      cases hCerts with
      | nil => cases hHead
      | cons hCert _ =>
        cases hHead
        exact testPlatform_terminates hCert)
  obtain ⟨enough, result, hReturns, hAccepts, -⟩ := hAnswers
  have hMore := validateAppAttest_mono (le_max_right enough _) validateAppAttest_testArgs
  have hResult := (hReturns _ (le_max_left enough 2147483648)).symm.trans hMore
  cases hResult
  exact hAccepts.mp ⟨testCandidate, rfl, rfl⟩

/-! ## A leaf that is walked for ever -/

def testName : Bytes :=
  element 0x30 (element 0x31 (element 0x30 (element 0x06 [85, 4, 3] ++ element 0x0c (utf8Encode (str "CA")))))

/-- `ecdsa-with-SHA256`, with parameters that nobody reads: an OCTET STRING of length -6. -/
def testAlgorithm : Bytes := element 0x30 (element 0x06 [42, 134, 72, 206, 61, 4, 3, 2] ++ element 0x30 endless)

def testValidity : Bytes :=
  element 0x30 (element 0x17 (utf8Encode (str "200101000000Z")) ++ element 0x17 (utf8Encode (str "400101000000Z")))

def testPublicKey : Bytes :=
  element 0x30 (element 0x30 (element 0x06 [42, 134, 72, 206, 61, 2, 1] ++ element 0x06 [42, 134, 72, 206, 61, 3, 1, 7]) ++
    element 0x03 (0 :: 0x04 :: (testX ++ testY)))

def testTbs : Bytes :=
  element 0x30 (element 0x02 [2] ++ testAlgorithm ++ testName ++ testValidity ++ testName ++ testPublicKey)

def testEndlessLeaf : Certificate :=
  { testLeaf with raw := element 0x30 (testTbs ++ testAlgorithm ++ element 0x03 (0 :: testTbs.take 64)) }

def testEndlessPlatform : Platform := { testPlatform with
  x509 bytes :=
    if bytes = testEndlessLeaf.raw then some testEndlessLeaf else if bytes = [2] then some testRoot else none }

def testEndlessArgs : Args := { testArgs with
  attestation := .str (base64Encode ([0xa3, 0x63] ++ utf8Encode (str "fmt") ++ [0x6f] ++
    utf8Encode (str "apple-appattest") ++ [0x67] ++ utf8Encode (str "attStmt") ++ [0xa1, 0x63] ++
    utf8Encode (str "x5c") ++ [0x81, 0x59, 1, 14] ++ testEndlessLeaf.raw ++ [0x68] ++ utf8Encode (str "authData") ++
    [0x58, 164] ++ testAuthData)) }

/-- The certificate, what is signed, the algorithm and its parameters are entered one after the other. -/
theorem testEndlessLeaf_stuck : Stuck appleNonceOid testEndlessLeaf.raw 0 (some 270) 0 := by
  have hLeaf : derReadTLV testEndlessLeaf.raw 0 = .ok ⟨some 0x30, some 266, 4, 4⟩ := by decide +kernel
  have hTbs : derReadTLV testEndlessLeaf.raw 4 = .ok ⟨some 0x30, some 176, 3, 7⟩ := by decide +kernel
  have hSerial : derReadTLV testEndlessLeaf.raw 7 = .ok ⟨some 0x02, some 1, 2, 9⟩ := by decide +kernel
  have hAlgorithm : derReadTLV testEndlessLeaf.raw 10 = .ok ⟨some 0x30, some 18, 2, 12⟩ := by decide +kernel
  have hOid : derReadTLV testEndlessLeaf.raw 12 = .ok ⟨some 0x06, some 8, 2, 14⟩ := by decide +kernel
  have hParameters : derReadTLV testEndlessLeaf.raw 22 = .ok ⟨some 0x30, some 6, 2, 24⟩ := by decide +kernel
  have hEndless : derReadTLV testEndlessLeaf.raw 24 = .ok ⟨some 0x04, some (-6), 6, 30⟩ := by decide +kernel
  apply stuck_inside (by decide) rfl hLeaf rfl hTbs (.inl (by decide))
  apply stuck_inside (by decide) rfl hTbs rfl hSerial (.inl (by decide))
  apply stuck_after (by decide) rfl hSerial rfl rfl rfl
  apply stuck_inside (by decide) rfl hAlgorithm rfl hOid (.inr (by decide))
  apply stuck_after (by decide) rfl hOid rfl rfl rfl
  apply stuck_inside (by decide) rfl hParameters rfl hEndless (.inl (by decide))
  exact stuck_turning (by decide) rfl hEndless rfl rfl rfl

theorem testEndlessArgs_read : ∃ authData leaf, readAttestation testEndlessPlatform testConfig 5
    testEndlessArgs.attestation = .ok (authData, leaf) ∧ leaf.raw = testEndlessLeaf.raw := by
  have hRead : (readAttestation testEndlessPlatform testConfig 5 testEndlessArgs.attestation).toOption.map (·.2.raw) =
      some testEndlessLeaf.raw := by decide +kernel
  cases hResult : readAttestation testEndlessPlatform testConfig 5 testEndlessArgs.attestation with
  | error e =>
    rw [hResult] at hRead
    cases hRead
  | ok read =>
    rw [hResult] at hRead
    exact ⟨read.1, read.2, rfl, Option.some.inj hRead⟩

/-- The object and its chain are good, and the gate never returns. -/
theorem validateAppAttest_endless : testConfig.APP_ATTEST_READY = true ∧ testEndlessArgs.attestation.truthy = true ∧
    testEndlessArgs.clientDataHash = .str (base64Encode testClientDataHash) ∧
    (base64Decode (base64Encode testClientDataHash)).length = 32 ∧
    (∀ fuel, validateAppAttest testEndlessPlatform testConfig fuel 5 testEndlessArgs = none) ∧
    ¬Answers testEndlessPlatform testConfig 5 testEndlessArgs (base64Decode (base64Encode testClientDataHash)) := by
  have hReady : testConfig.APP_ATTEST_READY = true := by decide
  have hAttestation : testEndlessArgs.attestation.truthy = true := by decide +kernel
  have hLength : (base64Decode (base64Encode testClientDataHash)).length = 32 := by
    simp [base64Decode_base64Encode, testClientDataHash]
  have hNone : ∀ fuel, validateAppAttest testEndlessPlatform testConfig fuel 5 testEndlessArgs = none := by
    intro fuel
    obtain ⟨authData, leaf, hRead, hRaw⟩ := testEndlessArgs_read
    have hSearch : findExtensionValue fuel leaf.raw APPLE_NONCE_OID = none := by
      rw [hRaw, findExtensionValue]
      simp only [encodeOid_apple]
      rw [show ((testEndlessLeaf.raw.length : Nat) : Int) = 270 by decide +kernel, testEndlessLeaf_stuck]
      rfl
    rw [validateAppAttest_eq hReady hAttestation rfl hLength, validateAttestation]
    simp only [hRead, verifyNonce, hSearch, Option.map_none]
  refine ⟨hReady, hAttestation, rfl, hLength, hNone, ?_⟩
  rintro ⟨enough, result, hReturns, -⟩
  cases (hNone enough).symm.trans (hReturns enough le_rfl)

end Columbia.Issuer.AppAttest
