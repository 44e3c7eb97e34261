import Columbia.Issuer.AppAttest.CborEncode
import Columbia.Issuer.AppAttest.Gate

/-! # Authenticator data and attestation objects as the fixtures build them

What the builders write is read back field by field, and no part of it that is cut short is taken for the whole.
An attestation object may carry its entries in any order and others besides.
-/
namespace Columbia.Issuer.AppAttest
open Columbia.Js Columbia.Lib
set_option autoImplicit false

/-! ## The builders -/

/-- What `buildAttestationAuthData` is given, with the coordinates of the credential key. -/
structure AttestedData where
  rpIdHash : Bytes
  flags : UInt8
  signCount : Nat
  aaguid : Bytes
  credentialId : Bytes
  x : Bytes
  y : Bytes
  rpIdHash_length : rpIdHash.length = 32
  at_present : atPresent flags
  signCount_lt : signCount < 2 ^ 32
  aaguid_length : aaguid.length = 16
  credentialId_length : credentialId.length < 65536
  x_length : x.length = 32
  y_length : y.length = 32

def coseKeyFor (x y : Bytes) : Bytes :=
  cborMap [(cborUint 1, cborUint 2), (cborUint 3, cborNegInt (-7)), (cborNegInt (-1), cborUint 1),
    (cborNegInt (-2), cborBytes x), (cborNegInt (-3), cborBytes y)]

def buildAttestationAuthData (d : AttestedData) : Bytes :=
  d.rpIdHash ++ (d.flags :: (uint32BE d.signCount ++ (d.aaguid ++ (uint16BE d.credentialId.length ++
    (d.credentialId ++ coseKeyFor d.x d.y)))))

def buildAssertionAuthData (rpIdHash : Bytes) (signCount : Nat) (flags : UInt8) : Bytes :=
  rpIdHash ++ (flags :: uint32BE signCount)

/-! ## The COSE key -/

def cosePairs (x y : Bytes) : List (Cbor × Cbor) :=
  [(.int 1, .int 2), (.int 3, .int (-7)), (.int (-1), .int 1), (.int (-2), .bytes x), (.int (-3), .bytes y)]

theorem encodes_coseKeyFor {x y : Bytes} (hx : x.length = 32) (hy : y.length = 32) (levels : Nat) :
    Encodes (levels + 2) (.map (mapOf (cosePairs x y))) (coseKeyFor x y) := by
  have hUint : ∀ n : Nat, n < 24 → Encodes (levels + 1) (.int n) (cborUint n) := fun n hn => encodes_uint (by omega)
  have hNegInt : ∀ n : Int, n < 0 → -24 ≤ n → Encodes (levels + 1) (.int n) (cborNegInt n) :=
    fun n hNeg hn => encodes_negInt hNeg (by omega)
  apply encodes_map
  · simp [cosePairs]
  · refine .cons ⟨hUint 1 (by decide), hUint 2 (by decide)⟩ (.cons ⟨hUint 3 (by decide), ?_⟩ (.cons ⟨?_, ?_⟩
      (.cons ⟨?_, ?_⟩ (.cons ⟨?_, ?_⟩ .nil))))
    · exact hNegInt (-7) (by decide) (by decide)
    · exact hNegInt (-1) (by decide) (by decide)
    · exact hUint 1 (by decide)
    · exact hNegInt (-2) (by decide) (by decide)
    · exact encodes_bytes (by omega)
    · exact hNegInt (-3) (by decide) (by decide)
    · exact encodes_bytes (by omega)

theorem coseKey_cosePairs {x y : Bytes} (hx : x.length = 32) (hy : y.length = 32) :
    CoseKey (mapOf (cosePairs x y)) x y where
  kty := rfl
  alg := rfl
  crv := rfl
  x_bytes := rfl
  y_bytes := rfl
  x_length := hx
  y_length := hy

/-! ## Authenticator data -/

theorem AttestedData.layout (d : AttestedData) (trailing : Bytes) :
    Layout (buildAttestationAuthData d ++ trailing) d.rpIdHash d.flags (uint32BE d.signCount) d.aaguid
      (uint16BE d.credentialId.length) d.credentialId (coseKeyFor d.x d.y ++ trailing) where
  concat := by simp [buildAttestationAuthData]
  rpIdHash_length := d.rpIdHash_length
  counter_length := rfl
  aaguid_length := d.aaguid_length
  idLength_length := rfl
  credentialId_length := (integerOf_uint16BE d.credentialId_length).symm

theorem parseAuthenticatorData_build (d : AttestedData) {importKey : ImportKey} {key : EcKey}
    (hImport : importKey d.x d.y = some key) (trailing : Bytes) :
    parseAuthenticatorData importKey true (buildAttestationAuthData d ++ trailing) =
      .ok ⟨d.rpIdHash, d.flags, d.signCount, some ⟨d.aaguid, d.credentialId, key, 0x04 :: (d.x ++ d.y)⟩⟩ := by
  apply parseAuthenticatorData_eq_ok_some.mpr
  refine ⟨_, _, _, _, d.x, d.y, d.layout trailing, d.at_present, ?_, ?_, coseKey_cosePairs d.x_length d.y_length,
    hImport, rfl⟩
  · exact (integerOf_uint32BE d.signCount_lt).symm
  · exact ⟨_, trailing, rfl, encodes_coseKeyFor d.x_length d.y_length 15⟩

theorem parseAuthenticatorData_attested {importKey : ImportKey} {authData : Bytes} {parsed : AuthData}
    (h : parseAuthenticatorData importKey true authData = .ok parsed) (hFlag : atPresent ((authData.drop 32).headD 0)) :
    37 ≤ authData.length ∧ ∃ credential, parseCredential importKey authData = .ok credential := by
  simp only [parseAuthenticatorData, parseAttested, bind_eq_ok, require_eq_ok, exists_const, true_and, if_pos hFlag] at h
  obtain ⟨hLength, attested, hAttested, -⟩ := h
  obtain ⟨credential, hCredential, -⟩ := map_eq_ok.mp hAttested
  exact ⟨hLength, credential, hCredential⟩

/-- An item is no part of a longer one. -/
theorem not_decodes_of_append {front rest : Bytes} {value other : Cbor}
    (h : Encodes (CBOR_MAX_DEPTH + 1) value (front ++ rest))
    (hRest : rest ≠ []) : ¬Decodes front other := by
  rintro ⟨item, after, rfl, hItem⟩
  have hWhole := (reads_item _ _ value []).mpr ⟨_, (List.append_nil _).symm, h⟩
  have hPart := (reads_item _ (item ++ after ++ rest) other (after ++ rest)).mpr ⟨item, List.append_assoc .., hItem⟩
  have hNone : after ++ rest = [] := congrArg Prod.snd (Except.ok.inj (hPart.symm.trans hWhole))
  exact hRest (List.append_eq_nil_iff.mp hNone).2

theorem Layout.append {authData rpIdHash counter aaguid idLength credentialId cose : Bytes} {flags : UInt8}
    (h : Layout authData rpIdHash flags counter aaguid idLength credentialId cose) (after : Bytes) :
    Layout (authData ++ after) rpIdHash flags counter aaguid idLength credentialId (cose ++ after) :=
  { h with concat := by simp [h.concat] }

/-- Cut short anywhere, the data is refused. -/
theorem parseAuthenticatorData_take (d : AttestedData) (importKey : ImportKey) {n : Nat}
    (hn : n < (buildAttestationAuthData d).length) :
    ∃ error, parseAuthenticatorData importKey true ((buildAttestationAuthData d).take n) = .error error := by
  rw [exists_error_iff]
  rintro ⟨parsed, hParsed⟩
  have hWhole := d.layout []
  rw [List.append_nil, List.append_nil] at hWhole
  have hLength : 37 ≤ ((buildAttestationAuthData d).take n).length := by
    simp only [parseAuthenticatorData, bind_eq_ok, require_eq_ok, exists_const] at hParsed
    exact hParsed.1
  rw [List.length_take] at hLength
  have hFlag : (((buildAttestationAuthData d).take n).drop 32).headD 0 = d.flags := by
    rw [← hWhole.slices.2.1, List.drop_take]
    obtain ⟨m, hm⟩ : ∃ m, n - 32 = m + 1 := ⟨n - 33, by omega⟩
    rw [hm]
    cases (buildAttestationAuthData d).drop 32 <;> rfl
  obtain ⟨-, credential, hCredential⟩ := parseAuthenticatorData_attested hParsed (by rw [hFlag]; exact d.at_present)
  obtain ⟨rpIdHash, flags, counter, idLength, cose, entries, x, y, hLayout, hDecodes, -⟩ :=
    parseCredential_eq_ok.mp hCredential
  -- put back what was cut off: both layouts of the whole have the same COSE key
  have hAgain := hLayout.append ((buildAttestationAuthData d).drop n)
  rw [List.take_append_drop] at hAgain
  obtain ⟨-, -, -, -, hId, -, hKey⟩ := hWhole.slices
  obtain ⟨-, -, -, -, hId', -, hKey'⟩ := hAgain.slices
  obtain rfl := hId'.symm.trans hId
  have hCose : coseKeyFor d.x d.y = cose ++ (buildAttestationAuthData d).drop n := hKey.symm.trans hKey'
  have hEncodes := encodes_coseKeyFor d.x_length d.y_length 15
  rw [hCose] at hEncodes
  refine not_decodes_of_append hEncodes ?_ hDecodes
  intro hNone
  have hEnd := List.drop_eq_nil_iff.mp hNone
  omega

theorem parseAuthenticatorData_assertion {rpIdHash : Bytes} {signCount : Nat} (hRp : rpIdHash.length = 32)
    (hCount : signCount < 2 ^ 32) (flags : UInt8) (importKey : ImportKey) (after : Bytes) :
    parseAuthenticatorData importKey false (buildAssertionAuthData rpIdHash signCount flags ++ after) =
      .ok ⟨rpIdHash, flags, signCount, none⟩ := by
  have hConcat : buildAssertionAuthData rpIdHash signCount flags ++ after =
      rpIdHash ++ (flags :: (uint32BE signCount ++ after)) := by simp [buildAssertionAuthData]
  have hLength : 37 ≤ (buildAssertionAuthData rpIdHash signCount flags ++ after).length := by
    simp only [hConcat, List.length_append, List.length_cons, hRp, uint32BE, List.length_nil]
    omega
  have hHash : slice (buildAssertionAuthData rpIdHash signCount flags ++ after) 0 32 = rpIdHash := by
    have hSlice := slice_append [] rpIdHash (flags :: (uint32BE signCount ++ after)) 0 rfl
    rwa [hRp, List.nil_append, ← hConcat] at hSlice
  have hFlags : ((buildAssertionAuthData rpIdHash signCount flags ++ after).drop 32).headD 0 = flags := by
    rw [hConcat, List.drop_left' hRp]
    rfl
  have hCounter : slice (buildAssertionAuthData rpIdHash signCount flags ++ after) 33 4 = uint32BE signCount := by
    have hSlice := slice_append (rpIdHash ++ [flags]) (uint32BE signCount) after 33 (by simp [hRp])
    rwa [List.append_assoc, List.singleton_append, ← hConcat] at hSlice
  rw [parseAuthenticatorData, require_bind hLength, hHash, hFlags, hCounter, integerOf_uint32BE hCount]
  rfl

theorem uint32BE_integerOf {bytes : Bytes} (h : bytes.length = 4) : uint32BE (integerOf bytes) = bytes := by
  have hBound := integerOf_lt bytes
  rw [h] at hBound
  apply integerOf_injective
  · rw [h]
    rfl
  · exact integerOf_uint32BE hBound

/-- Every buffer of 37 bytes or more begins like an assertion's data. -/
theorem exists_assertionAuthData {authData : Bytes} (h : 37 ≤ authData.length) :
    ∃ rpIdHash signCount flags after, rpIdHash.length = 32 ∧ signCount < 2 ^ 32 ∧
      authData = buildAssertionAuthData rpIdHash signCount flags ++ after := by
  have hCounter : (slice authData 33 4).length = 4 := slice_length (by omega)
  refine ⟨slice authData 0 32, integerOf (slice authData 33 4), (authData.drop 32).headD 0, authData.drop 37,
    slice_length (by omega), ?_, ?_⟩
  · have hBound := integerOf_lt (slice authData 33 4)
    rwa [hCounter] at hBound
  · have hFlags : authData.drop 32 = (authData.drop 32).headD 0 :: authData.drop 33 := by
      rw [List.drop_eq_getElem_cons (show 32 < authData.length by omega)]
      rfl
    rw [buildAssertionAuthData, uint32BE_integerOf hCounter, List.append_assoc, List.cons_append,
      ← drop_eq_slice authData 33, ← hFlags, ← drop_eq_slice authData 0, List.drop_zero]

/-! ## Attestation objects -/

/-- The pairs of a map in any order: the named ones, and others under other text keys. -/
def Entries (pairs : List (Cbor × Cbor)) (named : List (Str × Cbor)) : Prop :=
  ∃ others, pairs.Perm (named.map (fun e => (.text e.1, e.2)) ++ others) ∧
    ∀ e ∈ others, ∃ s, e.1 = .text s ∧ s ∉ named.map Prod.fst

theorem lookup_eq_some_of_mem {key : Key} {pairs : List (Cbor × Cbor)} {k v : Cbor} (hMem : (k, v) ∈ pairs)
    (hKey : k.key? = some key) (hOnly : ∀ e ∈ pairs, e.1.key? = some key → e.2 = v) : lookup key pairs = some v := by
  unfold lookup
  cases hFind : pairs.reverse.find? fun e => e.1.key? = some key with
  | none =>
    have hNone := List.find?_eq_none.mp hFind (k, v) (List.mem_reverse.mpr hMem)
    exact absurd (decide_eq_true hKey) hNone
  | some e =>
    have hFound := List.mem_reverse.mp (List.mem_of_find?_eq_some hFind)
    have hSame : e.1.key? = some key := by simpa using List.find?_some hFind
    rw [Option.map_some, hOnly e hFound hSame]

theorem Entries.lookup_named {pairs : List (Cbor × Cbor)} {named : List (Str × Cbor)} (h : Entries pairs named)
    (hNodup : (named.map Prod.fst).Nodup) {s : Str} {v : Cbor} (hMem : (s, v) ∈ named) :
    lookup (.text s) (mapOf pairs) = some v := by
  obtain ⟨others, hPerm, hOthers⟩ := h
  have hNamed : ((.text s, v) : Cbor × Cbor) ∈ named.map fun e => (Cbor.text e.1, e.2) := List.mem_map_of_mem hMem
  rw [lookup_mapOf]
  refine lookup_eq_some_of_mem (hPerm.mem_iff.mpr (List.mem_append_left _ hNamed)) rfl fun e he hKey => ?_
  rcases List.mem_append.mp (hPerm.mem_iff.mp he) with hOne | hOther
  · obtain ⟨⟨t, w⟩, hd, rfl⟩ := List.mem_map.mp hOne
    cases hKey
    exact congrArg Prod.snd (List.inj_on_of_nodup_map hNodup hd hMem rfl)
  · obtain ⟨t, hText, hNot⟩ := hOthers e hOther
    rw [hText] at hKey
    cases hKey
    exact absurd (List.mem_map_of_mem hMem) hNot

/-- `{ fmt, attStmt, authData, ... }`. -/
def AttestationPairs (pairs stmt : List (Cbor × Cbor)) (authData : Bytes) : Prop :=
  Entries pairs [(str "fmt", .text (str "apple-appattest")), (str "attStmt", .map (mapOf stmt)),
    (str "authData", .bytes authData)]

/-- `{ x5c, ... }`. -/
def StatementPairs (stmt : List (Cbor × Cbor)) (x5c : List Bytes) : Prop :=
  Entries stmt [(str "x5c", .array (x5c.map .bytes))]

theorem decodeAttestation_pairs {pairs stmt : List (Cbor × Cbor)} {x5c : List Bytes} {authData front : Bytes}
    (hPairs : AttestationPairs pairs stmt authData) (hStmt : StatementPairs stmt x5c) (hX5c : x5c ≠ [])
    (h : Encodes (CBOR_MAX_DEPTH + 1) (.map (mapOf pairs)) front) (after : Bytes) :
    decodeAttestation (front ++ after) = .ok (x5c.map .bytes, authData) := by
  have hNames : [str "fmt", str "attStmt", str "authData"].Nodup := by decide
  have hName : [str "x5c"].Nodup := by decide
  apply decodeAttestation_eq_ok.mpr
  refine ⟨by simpa using hX5c, mapOf pairs, mapOf stmt, ⟨front, after, rfl, h⟩, ?_, ?_, ?_, ?_⟩
  · exact Entries.lookup_named hPairs hNames (by simp)
  · exact Entries.lookup_named hPairs hNames (by simp)
  · exact Entries.lookup_named hStmt hName (by simp)
  · exact Entries.lookup_named hPairs hNames (by simp)

/-! ## Everything that was encoded is decoded -/

theorem authData_and_attestation_decode (importKey : ImportKey) :
    (∀ (d : AttestedData) (key : EcKey), importKey d.x d.y = some key →
      (∀ trailing, parseAuthenticatorData importKey true (buildAttestationAuthData d ++ trailing) =
        .ok ⟨d.rpIdHash, d.flags, d.signCount, some ⟨d.aaguid, d.credentialId, key, 0x04 :: (d.x ++ d.y)⟩⟩) ∧
      ∀ n, n < (buildAttestationAuthData d).length →
        ∃ error, parseAuthenticatorData importKey true ((buildAttestationAuthData d).take n) = .error error) ∧
    (∀ authData : Bytes, 37 ≤ authData.length →
      ∃ rpIdHash signCount flags after, rpIdHash.length = 32 ∧ signCount < 2 ^ 32 ∧
        authData = buildAssertionAuthData rpIdHash signCount flags ++ after ∧
        parseAuthenticatorData importKey false authData = .ok ⟨rpIdHash, flags, signCount, none⟩) ∧
    ∀ (x5c : List Bytes) (authData : Bytes) (pairs stmt : List (Cbor × Cbor)) (front after : Bytes), x5c ≠ [] →
      AttestationPairs pairs stmt authData → StatementPairs stmt x5c →
      Encodes (CBOR_MAX_DEPTH + 1) (.map (mapOf pairs)) front →
      decodeAttestation (front ++ after) = .ok (x5c.map .bytes, authData) := by
  refine ⟨?_, ?_, ?_⟩
  · intro d key hImport
    constructor
    · exact parseAuthenticatorData_build d hImport
    · intro n hn
      exact parseAuthenticatorData_take d importKey hn
  · intro authData hLength
    obtain ⟨rpIdHash, signCount, flags, after, hRp, hCount, rfl⟩ := exists_assertionAuthData hLength
    exact ⟨rpIdHash, signCount, flags, after, hRp, hCount, rfl,
      parseAuthenticatorData_assertion hRp hCount flags importKey after⟩
  · intro x5c authData pairs stmt front after hX5c hPairs hStmt hEncodes
    exact decodeAttestation_pairs hPairs hStmt hX5c hEncodes after

/-- The entries in another order, with a receipt and an entry that no one reads. -/
def shuffled : Item :=
  .map [(.text (str "authData"), .bytes [1, 2]), (.text (str "extra"), .array [.negInt (-5)]),
    (.text (str "attStmt"),
      .map [(.text (str "receipt"), .bytes []), (.text (str "x5c"), .array [.bytes [7], .bytes [8]])]),
    (.text (str "fmt"), .text (str "apple-appattest"))]

theorem authData_and_attestation_decode_shuffled :
    decodeAttestation shuffled.encode = .ok ([.bytes [7], .bytes [8]], [1, 2]) := by
  have hFits : shuffled.Fits (CBOR_MAX_DEPTH + 1) := by
    simp only [shuffled, CBOR_MAX_DEPTH, Item.Fits, List.forall_mem_cons, List.not_mem_nil, false_implies, implies_true]
    decide +kernel
  let stmt : List (Cbor × Cbor) :=
    [(.text (str "receipt"), .bytes []), (.text (str "x5c"), .array [.bytes [7], .bytes [8]])]
  let pairs : List (Cbor × Cbor) :=
    [(.text (str "authData"), .bytes [1, 2]), (.text (str "extra"), .array [.int (-5)]),
      (.text (str "attStmt"), .map (mapOf stmt)), (.text (str "fmt"), .text (str "apple-appattest"))]
  have hValue : shuffled.value = .map (mapOf pairs) := by
    simp only [shuffled, Item.value, valuePairs, valueItems, utf8Decode_utf8Encode (isWellFormed_str _), pairs, stmt]
  have hStmt : StatementPairs stmt [[7], [8]] := by
    refine ⟨[(.text (str "receipt"), .bytes [])], List.Perm.swap _ _ _, ?_⟩
    intro e he
    obtain rfl := List.mem_singleton.mp he
    exact ⟨_, rfl, by decide⟩
  have hPairs : AttestationPairs pairs stmt [1, 2] := by
    refine ⟨[(.text (str "extra"), .array [.int (-5)])], ?_, ?_⟩
    · apply List.Perm.symm
      refine (@List.perm_middle _ _ [_, _] [_]).trans (.cons _ ?_)
      refine (@List.perm_middle _ _ [_, _] []).trans (.cons _ ?_)
      exact .swap _ _ _
    · intro e he
      obtain rfl := List.mem_singleton.mp he
      exact ⟨_, rfl, by decide⟩
  have hEncodes := Item.encodes hFits
  rw [hValue] at hEncodes
  have hDecoded := (authData_and_attestation_decode fun _ _ => none).2.2 [[7], [8]] [1, 2] pairs stmt _ [] (by decide)
    hPairs hStmt hEncodes
  rwa [List.append_nil] at hDecoded

end Columbia.Issuer.AppAttest
