import Columbia.Issuer.AppAttest.Gate

/-! # The DER walk as a search in pre-order

The walk mixes matching with recursion and stops below depth 24. On trees that are not deeper it is the first
extension among all nodes, outer nodes before inner ones and earlier ones before later ones.
-/
namespace Columbia.Issuer.AppAttest
open Columbia.Js Columbia.Lib
set_option autoImplicit false

mutual

/-- All nodes of a tree in pre-order. -/
def Der.nodes : Der → List Der
  | .primitive tag content => [.primitive tag content]
  | .constructed tag children => .constructed tag children :: nodesAll children

def nodesAll : List Der → List Der
  | [] => []
  | d :: rest => d.nodes ++ nodesAll rest

end

mutual

/-- The depth of the deepest node; the root is at depth 0. -/
def Der.depth : Der → Nat
  | .primitive _ _ => 0
  | .constructed _ children => levelsOf children

def levelsOf : List Der → Nat
  | [] => 0
  | d :: rest => max (d.depth + 1) (levelsOf rest)

end

theorem levelsOf_le {ds : List Der} {levels : Nat} (h : ∀ d ∈ ds, d.depth < levels) : levelsOf ds ≤ levels := by
  induction ds with
  | nil => exact Nat.zero_le _
  | cons d rest ih =>
    rw [levelsOf]
    exact max_le (h d List.mem_cons_self) (ih fun c hc => h c (List.mem_cons_of_mem _ hc))

mutual

theorem Der.search_eq_nodes (oid : Bytes) : (d : Der) → (levels : Nat) → d.depth < levels →
    d.search oid levels = d.nodes.findSome? (Der.extension oid)
  | .primitive _ _, _, _ => rfl
  | .constructed tag children, levels, h => by
    rw [Der.depth] at h
    rw [Der.search, searchAll_eq_nodes oid children (levels - 1) (by omega), Der.nodes, List.findSome?_cons,
      Der.extension]
    cases extensionOf oid tag children <;> rfl

theorem searchAll_eq_nodes (oid : Bytes) : (ds : List Der) → (levels : Nat) → levelsOf ds ≤ levels →
    searchAll oid levels ds = (nodesAll ds).findSome? (Der.extension oid)
  | [], _, _ => rfl
  | d :: rest, levels, h => by
    rw [levelsOf] at h
    have hFirst := (le_max_left _ _).trans h
    have hRest := (le_max_right _ _).trans h
    rw [searchAll, if_neg (by omega), Der.search_eq_nodes oid d levels hFirst, searchAll_eq_nodes oid rest levels hRest,
      nodesAll, List.findSome?_append]

end

/-! ## The nonce -/

/-- `SEQUENCE { [1] { OCTET STRING nonce } }`. -/
def nonceTree (nonce : Bytes) : Der :=
  .constructed sequenceTag [.constructed context1Tag [.primitive octetStringTag nonce]]

theorem allEncoded_singleton {d : Der} {bytes : Bytes} (h : AllEncoded [d] bytes) :
    ∃ e : Element, bytes = e.encode ∧ d.Encoded e := by
  cases h with
  | cons hEncoded hRest =>
    cases hRest
    exact ⟨_, List.append_nil _, hEncoded⟩

theorem Element.tlv_contentStart (e : Element) (before : Bytes) :
    (e.tlv before.length).contentStart = ((before ++ e.header).length : Int) := by
  simp [Element.tlv]

theorem parseAppleNonce_encoded {nonce : Bytes} {e : Element} (hLength : nonce.length = 32)
    (h : (nonceTree nonce).Encoded e) : parseAppleNonce e.encode = .ok nonce := by
  obtain _ | ⟨hTag, hContext⟩ := h
  obtain ⟨context, hInside, hEncoded⟩ := allEncoded_singleton hContext
  obtain _ | ⟨hContextTag, hOctets⟩ := hEncoded
  obtain ⟨octets, hInner, hOctetString⟩ := allEncoded_singleton hOctets
  obtain ⟨hOctetTag, hNonce⟩ | _ := hOctetString
  have hFirst : e.encode = [] ++ (e.encode ++ []) := (List.append_nil _).symm
  have hSecond : e.encode = ([] ++ e.header) ++ (context.encode ++ []) := by
    rw [Element.encode, hInside, List.append_nil, List.nil_append]
  have hThird : e.encode = ([] ++ e.header ++ context.header) ++ (octets.encode ++ []) := by
    rw [Element.encode, hInside, Element.encode, hInner, List.append_nil, List.nil_append, List.append_assoc]
  have hSequence : derReadTLV e.encode 0 = .ok (e.tlv 0) := derReadTLV_encode hFirst
  have hStart : (e.tlv 0).contentStart = (([] ++ e.header).length : Int) := e.tlv_contentStart []
  have hRead : derReadTLV e.encode (e.tlv 0).contentStart = .ok (context.tlv ([] ++ e.header).length) := by
    rw [hStart]
    exact derReadTLV_encode hSecond
  have hRead' : derReadTLV e.encode (context.tlv ([] ++ e.header).length).contentStart =
      .ok (octets.tlv ([] ++ e.header ++ context.header).length) := by
    rw [context.tlv_contentStart]
    exact derReadTLV_encode hThird
  have hContent := octets.subarray_tlv hThird
  rw [hNonce, hLength] at hContent
  simp only [parseAppleNonce, bind_eq_ok, require_eq_ok, exists_const]
  refine ⟨_, hSequence, congrArg some hTag, _, hRead, congrArg some hContextTag, _, hRead', congrArg some hOctetTag,
    ?_, ?_⟩
  · simp [Element.tlv, hNonce, hLength]
  · exact congrArg Except.ok hContent

/-- The search finds the first extension with the nonce's OID, in pre-order, and its nonce is read. -/
theorem findExtensionValue_first_in_preorder {ds : List Der} {bytes : Bytes} (h : AllEncoded ds bytes)
    (hDepth : ∀ d ∈ ds, d.depth ≤ 24) {fuel : Nat} (hFuel : bytes.length < fuel) :
    findExtensionValue fuel bytes APPLE_NONCE_OID =
      some (.ok ((nodesAll ds).findSome? (Der.extension appleNonceOid))) ∧
    ∀ (nonce : Bytes) (e : Element), nonce.length = 32 → (nonceTree nonce).Encoded e →
      parseAppleNonce e.encode = .ok nonce := by
  constructor
  · have hLevels : levelsOf ds ≤ 25 := levelsOf_le fun d hd => Nat.lt_succ_of_le (hDepth d hd)
    rw [findExtensionValue_encoded h encodeOid_apple hFuel, searchAll_eq_nodes appleNonceOid ds 25 hLevels]
  · intro nonce e hLength hEncoded
    exact parseAppleNonce_encoded hLength hEncoded

/-! ## Two extensions, the first of them without a value -/

def testNonce : Bytes := List.replicate 32 9

def nonceElement : Element :=
  shortest 0x30 (element 0xa1 (element 0x04 testNonce)) (by decide +kernel)

def testOid : Element := shortest 0x06 appleNonceOid (by decide)

def critical : Element := shortest 0x01 [0xff] (by decide)

/-- Two bytes of length where one would do. -/
def testValue : Element where
  tag := 0x04
  lengthOctets := [0x82, 0, 38]
  content := nonceElement.encode
  form := @LengthForm.long _ [0, 38] (by decide) rfl (by decide)

def withoutValue : Element := shortest 0x30 testOid.encode (by decide +kernel)

def withValue : Element where
  tag := 0x30
  lengthOctets := [0x81, 56]
  content := testOid.encode ++ (critical.encode ++ testValue.encode)
  form := @LengthForm.long _ [56] (by decide) (by decide +kernel) (by decide +kernel)

def testExtensions : List Der :=
  [.constructed sequenceTag [.primitive oidTag appleNonceOid],
   .constructed sequenceTag [.primitive oidTag appleNonceOid, .primitive booleanTag [0xff],
     .primitive octetStringTag nonceElement.encode]]

theorem nonceTree_encoded : (nonceTree testNonce).Encoded nonceElement := by
  have hOctets : AllEncoded [.primitive octetStringTag testNonce] (element 0x04 testNonce) :=
    @AllEncoded.cons _ (shortest 0x04 testNonce (by decide)) _ [] (.primitive rfl rfl) .nil
  have hContext : AllEncoded [.constructed context1Tag [.primitive octetStringTag testNonce]]
      (element 0xa1 (element 0x04 testNonce)) :=
    @AllEncoded.cons _ (shortest 0xa1 (element 0x04 testNonce) (by decide +kernel)) _ [] (.constructed rfl hOctets) .nil
  exact .constructed rfl hContext

theorem findExtensionValue_first_in_preorder_testExtensions :
    findExtensionValue 100 (withoutValue.encode ++ withValue.encode) APPLE_NONCE_OID =
      some (.ok (some nonceElement.encode)) ∧
    parseAppleNonce nonceElement.encode = .ok testNonce := by
  have hFirst : AllEncoded [.primitive oidTag appleNonceOid] testOid.encode :=
    @AllEncoded.cons _ testOid _ [] (.primitive rfl rfl) .nil
  have hSecond : AllEncoded [.primitive oidTag appleNonceOid, .primitive booleanTag [0xff],
      .primitive octetStringTag nonceElement.encode] (testOid.encode ++ (critical.encode ++ (testValue.encode ++ []))) :=
    .cons (.primitive rfl rfl) (.cons (.primitive rfl rfl) (.cons (.primitive rfl rfl) .nil))
  rw [List.append_nil] at hSecond
  have hAll : AllEncoded testExtensions (withoutValue.encode ++ (withValue.encode ++ [])) :=
    .cons (.constructed rfl hFirst) (.cons (.constructed rfl hSecond) .nil)
  rw [List.append_nil] at hAll
  have hTheorem := @findExtensionValue_first_in_preorder _ _ hAll (by decide) 100 (by decide +kernel)
  exact ⟨hTheorem.1, hTheorem.2 testNonce nonceElement rfl nonceTree_encoded⟩

end Columbia.Issuer.AppAttest
