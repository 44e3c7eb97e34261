import Columbia.Issuer.AppAttest.Gate
import Mathlib.Logic.Relation

/-! # Who may extend the certificate chain

`verifyCertChain` asks of an issuer its names, what its key usage says if it says anything, its signature and its
dates. Nothing asks whether it is a certificate authority: the chain is a path of signatures from the pinned root.
-/
namespace Columbia.Issuer.AppAttest
open Columbia.Js Columbia.Lib
set_option autoImplicit false

/-! ## What a certificate says of itself -/

structure Part where
  tag : UInt8
  content : Bytes
  encoding : Bytes

/-- The elements that the bytes begin with, at most so many. -/
def parts : Nat → Bytes → List Part
  | 0, _ => []
  | fuel + 1, bytes =>
    match derReadTLV bytes 0 with
    | .ok ⟨some tag, some (.ofNat len), _, .ofNat start⟩ =>
      ⟨tag, (bytes.drop start).take len, bytes.take (start + len)⟩ :: parts fuel (bytes.drop (start + len))
    | _ => []

def Part.parts (part : Part) : List Part := AppAttest.parts part.content.length part.content

def Certificate.parts (cert : Certificate) : List Part :=
  ((AppAttest.parts 1 cert.raw).head?.map Part.parts).getD []

/-- The part that is signed. -/
def Certificate.tbs (cert : Certificate) : Option Part := cert.parts[0]?

def Certificate.signature (cert : Certificate) : Option Bytes := cert.parts[2]?.map (·.content)

/-- The fields from the serial number on; the version before it may be missing. -/
def Certificate.fields (cert : Certificate) : List Part :=
  (cert.tbs.elim [] Part.parts).dropWhile fun field => field.tag = 0xa0

def Certificate.issuerName (cert : Certificate) : Option Bytes := cert.fields[2]?.map (·.encoding)

def Certificate.subjectName (cert : Certificate) : Option Bytes := cert.fields[4]?.map (·.encoding)

def Certificate.publicKey (cert : Certificate) : Option Bytes := cert.fields[5]?.map (·.encoding)

/-- `[3] { SEQUENCE { SEQUENCE { OID, critical?, OCTET STRING }, ... } }`. -/
def Certificate.extensionValue (oid : Bytes) (cert : Certificate) : Option Bytes :=
  (((cert.fields.drop 6).filter (·.tag = 0xa3)).flatMap Part.parts).flatMap Part.parts |>.findSome? fun extension =>
    match extension.parts with
    | id :: rest => if id.tag = 0x06 ∧ id.content = oid then (rest.find? (·.tag = 0x04)).map (·.content) else none
    | [] => none

/-- `basicConstraints`, 2.5.29.19: `SEQUENCE { cA BOOLEAN DEFAULT FALSE, ... }`. -/
def Certificate.isCA (cert : Certificate) : Bool :=
  match cert.extensionValue [85, 29, 19] with
  | some (0x30 :: _ :: 0x01 :: 0x01 :: 0xff :: _) => true
  | _ => false

/-- `keyUsage`, 2.5.29.15: a BIT STRING whose bit 5 is `keyCertSign`. Without it every use is allowed. -/
def Certificate.maySign (cert : Certificate) : Bool :=
  match cert.extensionValue [85, 29, 15] with
  | none => true
  | some (0x03 :: _ :: _ :: bits :: _) => bits.toNat / 4 % 2 = 1
  | some _ => false

/-- `checkIssued` compares names, and key usage when there is one; `verify` is about key and signature only. -/
structure NodeChecks (platform : Platform) : Prop where
  checkIssued : ∀ child issuer, platform.checkIssued child issuer = true ↔
    child.issuerName = issuer.subjectName ∧ issuer.maySign = true
  verify : ∃ verify : Option Bytes → Option Bytes → Option Bytes → Bool, ∀ child issuer,
    platform.signedBy child issuer = verify issuer.publicKey (child.tbs.map (·.encoding)) child.signature

/-! ## The chain as a path from the root -/

section
variable (platform : Platform) (config : Config)

/-- The certificate of every issuer in the chain has `cA` set. -/
def IssuersAreCAs (x5c : List Bytes) : Prop :=
  ∀ certs root, List.Forall₂ (fun der cert => platform.x509 der = some cert) x5c certs →
    rootCertificate platform config = some root → ∀ cert ∈ certs.tail ++ [root], cert.isCA = true

structure Vouches (now : Int) (issuer child : Certificate) : Prop where
  issued : platform.checkIssued child issuer = true
  signed : platform.signedBy child issuer = true
  issuerWindow : InWindow config now issuer
  childWindow : InWindow config now child

variable {platform config}

theorem isChain_vouches {now : Int} {chain : List Certificate} (hWindow : ∀ c ∈ chain, InWindow config now c)
    (hLinks : chain.IsChain fun child issuer => platform.checkIssued child issuer ∧ platform.signedBy child issuer) :
    chain.IsChain fun child issuer => Vouches platform config now issuer child := by
  induction hLinks with
  | nil => exact .nil
  | singleton c => exact .singleton c
  | @cons_cons child issuer rest hLink _ ih =>
    obtain ⟨hChild, hRest⟩ := List.forall_mem_cons.mp hWindow
    exact .cons_cons ⟨hLink.1, hLink.2, hRest issuer List.mem_cons_self, hChild⟩ (ih hRest)

theorem window_of_vouches {now : Int} {certs : List Certificate} {root : Certificate} (hNonempty : certs ≠ [])
    (h : (certs ++ [root]).IsChain fun child issuer => Vouches platform config now issuer child) :
    ∀ c ∈ certs ++ [root], InWindow config now c := by
  induction certs with
  | nil => exact absurd rfl hNonempty
  | cons cert rest ih =>
    cases rest with
    | nil =>
      obtain ⟨hLink, -⟩ := List.isChain_cons_cons.mp h
      intro c hc
      rcases List.mem_pair.mp hc with rfl | rfl
      · exact hLink.childWindow
      · exact hLink.issuerWindow
    | cons next rest =>
      obtain ⟨hLink, hRest⟩ := List.isChain_cons_cons.mp h
      exact List.forall_mem_cons.mpr ⟨hLink.childWindow, ih (List.cons_ne_nil _ _) hRest⟩

/-- From the end of a chain every earlier element is reached. -/
theorem transGen_of_isChain {now : Int} {certs : List Certificate} {root : Certificate}
    (h : (certs ++ [root]).IsChain fun child issuer => Vouches platform config now issuer child) :
    ∀ cert ∈ certs, Relation.TransGen (Vouches platform config now) root cert := by
  induction certs with
  | nil => nofun
  | cons cert rest ih =>
    cases rest with
    | nil =>
      obtain ⟨hLink, -⟩ := List.isChain_cons_cons.mp h
      intro c hc
      obtain rfl := List.mem_singleton.mp hc
      exact .single hLink
    | cons next rest =>
      obtain ⟨hLink, hRest⟩ := List.isChain_cons_cons.mp h
      exact List.forall_mem_cons.mpr ⟨(ih hRest next List.mem_cons_self).tail hLink, ih hRest⟩

/-- A leaf is returned exactly when the entries are certificates of which each is vouched for by the next one and the
last one by the pinned root, which signed itself. Every entry is then reached from the root by such steps. -/
theorem verifyCertChain_path_of_signatures (now : Int) (items : List Cbor) (leaf : Certificate) :
    verifyCertChain platform config now items = .ok leaf ↔ config.APPLE_ROOT_CA_PEM_B64 ≠ [] ∧
      ∃ x5c certs root, items = x5c.map .bytes ∧
        List.Forall₂ (fun der cert => platform.x509 der = some cert) x5c certs ∧
        rootCertificate platform config = some root ∧ certs.head? = some leaf ∧ platform.signedBy root root = true ∧
        ((certs ++ [root]).IsChain fun child issuer => Vouches platform config now issuer child) ∧
        ∀ cert ∈ certs, Relation.TransGen (Vouches platform config now) root cert := by
  rw [verifyCertChain_iff]
  apply and_congr_right
  intro _
  constructor
  · rintro ⟨x5c, rfl, certs, root, hCerts, hRoot, hChained, hLeaf⟩
    have hChain := isChain_vouches hChained.window hChained.links
    exact ⟨x5c, certs, root, rfl, hCerts, hRoot, hLeaf, hChained.selfSigned, hChain, transGen_of_isChain hChain⟩
  · rintro ⟨x5c, certs, root, rfl, hCerts, hRoot, hLeaf, hSelf, hChain, -⟩
    have hNonempty : certs ≠ [] := by
      rintro rfl
      cases hLeaf
    exact ⟨x5c, rfl, certs, root, hCerts, hRoot, ⟨window_of_vouches hNonempty hChain,
      hChain.imp fun _ _ hLink => ⟨hLink.issued, hLink.signed⟩, hSelf⟩, hLeaf⟩

end

/-! ## A device's own certificate as an issuer -/

def derSeq (children : List Der) : Der := .constructed sequenceTag children

def derOid (oid : Bytes) : Der := .primitive oidTag oid

def derName (commonName : String) : Der :=
  derSeq [.constructed ⟨0x31, rfl⟩ [derSeq [derOid [85, 4, 3], .primitive ⟨0x0c, rfl⟩ (utf8Encode (str commonName))]]]

def ecdsaWithSha256AlgId : Der := derSeq [derOid [42, 134, 72, 206, 61, 4, 3, 2]]

/-- The key with all these bytes in both coordinates. -/
def testPoint (key : UInt8) : Bytes := 0x04 :: (List.replicate 32 key ++ List.replicate 32 key)

def testSpki (key : UInt8) : Der :=
  derSeq [derSeq [derOid [42, 134, 72, 206, 61, 2, 1], derOid [42, 134, 72, 206, 61, 3, 1, 7]],
    .primitive ⟨0x03, rfl⟩ (0 :: testPoint key)]

/-- A signature that shows its key and what it signs. -/
def testSign (publicKey tbs : Bytes) : Bytes := 0 :: (publicKey ++ tbs)

/-- From the first day of the epoch to the next. -/
def buildCert (subjectCN issuerCN : String) (subjectKey issuerKey serial : UInt8) (extensions : List Der) : Der :=
  let time (text : String) : Der := .primitive ⟨0x17, rfl⟩ (utf8Encode (str text))
  let tbs := derSeq [.constructed ⟨0xa0, rfl⟩ [.primitive ⟨0x02, rfl⟩ [2]], .primitive ⟨0x02, rfl⟩ [serial],
    ecdsaWithSha256AlgId, derName issuerCN, derSeq [time "700101000000Z", time "700102000000Z"], derName subjectCN,
    testSpki subjectKey, .constructed context3Tag [derSeq extensions]]
  derSeq [tbs, ecdsaWithSha256AlgId, .primitive ⟨0x03, rfl⟩ (testSign (testSpki issuerKey).encode tbs.encode)]

def testBasicConstraints (value : Bytes) : Der :=
  derSeq [derOid [85, 29, 19], .primitive booleanTag [0xff], .primitive octetStringTag value]

def testKeyUsage (bits : UInt8) : Der :=
  derSeq [derOid [85, 29, 15], .primitive booleanTag [0xff], .primitive octetStringTag [0x03, 2, 1, bits]]

def testCertificate (key : UInt8) (der : Der) : Certificate where
  raw := der.encode
  validFrom := some 0
  validTo := some 86400000
  jwk := some ⟨str "EC", str "P-256", base64Encode (List.replicate 32 key), base64Encode (List.replicate 32 key)⟩
  coordinates := by
    rintro k ⟨⟩ -
    simp [base64Decode_base64Encode]

def testAuthority : List Der := [testBasicConstraints [0x30, 3, 0x01, 1, 0xff], testKeyUsage 0x06]

def testRootCA : Certificate := testCertificate 1 (buildCert "Root CA" "Root CA" 1 1 1 testAuthority)

def testIntermediateCA : Certificate := testCertificate 2 (buildCert "CA 1" "Root CA" 2 1 100 testAuthority)

/-- `cA` is left at its default. -/
def testDevice : Certificate := testCertificate 3 (buildCert "Device" "CA 1" 3 2 2 [testBasicConstraints [0x30, 0]])

def testForged : Certificate := testCertificate 4 (buildCert "Forged" "Device" 4 3 3 [])

def testRootPem : Str :=
  str "-----BEGIN CERTIFICATE-----\n" ++ base64Encode testRootCA.raw ++ str "\n-----END CERTIFICATE-----\n"

def testChainConfig : Config := { testConfig with APPLE_ROOT_CA_PEM_B64 := base64Encode (utf8Encode testRootPem) }

def testChainPlatform : Platform := { testPlatform with
  x509 bytes := ([testForged, testDevice, testIntermediateCA].find? fun cert => cert.raw = bytes).or
    (if bytes ∈ [testRootCA.raw, utf8Encode testRootPem] then some testRootCA else none)
  checkIssued child issuer := child.issuerName = issuer.subjectName ∧ issuer.maySign = true
  signedBy child issuer := child.signature =
    (issuer.publicKey.bind fun key => child.tbs.map fun tbs => testSign key tbs.encoding) }

theorem testChainPlatform_x509 (bytes : Bytes) :
    testChainPlatform.x509 bytes = ([testForged, testDevice, testIntermediateCA].find? fun cert => cert.raw = bytes).or
      (if bytes ∈ [testRootCA.raw, utf8Encode testRootPem] then some testRootCA else none) := rfl

theorem testChainPlatform_nodeChecks : NodeChecks testChainPlatform where
  checkIssued child issuer := decide_eq_true_iff
  verify := by
    refine ⟨fun key tbs signature => signature = key.bind fun key => tbs.map (testSign key), fun child issuer => ?_⟩
    simp [testChainPlatform, Option.map_map, Function.comp_def]

def testX5c : List Bytes := [testForged.raw, testDevice.raw, testIntermediateCA.raw]

theorem testX5c_read : List.Forall₂ (fun der cert => testChainPlatform.x509 der = some cert) testX5c
    [testForged, testDevice, testIntermediateCA] := by
  refine .cons ?_ (.cons ?_ (.cons ?_ .nil))
  · rw [testChainPlatform_x509, List.find?_cons_of_pos (by decide +kernel), Option.some_or]
  · rw [testChainPlatform_x509, List.find?_cons_of_neg (by decide +kernel),
      List.find?_cons_of_pos (by decide +kernel), Option.some_or]
  · rw [testChainPlatform_x509, List.find?_cons_of_neg (by decide +kernel),
      List.find?_cons_of_neg (by decide +kernel), List.find?_cons_of_pos (by decide +kernel), Option.some_or]

theorem testRootCA_read : rootCertificate testChainPlatform testChainConfig = some testRootCA := by
  have hText : utf8Encode (utf8Decode (base64Decode testChainConfig.APPLE_ROOT_CA_PEM_B64)) = utf8Encode testRootPem := by
    rw [testChainConfig, base64Decode_base64Encode]
    decide +kernel
  rw [rootCertificate, hText, testChainPlatform_x509, List.find?_eq_none.mpr (by decide +kernel), Option.none_or,
    if_pos (List.mem_cons_of_mem _ List.mem_cons_self)]

/-- The forged leaf is signed by a device, and the device's certificate by an authority under the root. -/
theorem testForged_chained :
    Chained testChainPlatform testChainConfig 5 [testForged, testDevice, testIntermediateCA] testRootCA where
  window c hc := by
    refine ⟨0, 86400000, ?_, ?_, by decide, by decide⟩
    · simp only [List.cons_append, List.nil_append, List.mem_cons, List.not_mem_nil, or_false] at hc
      rcases hc with rfl | rfl | rfl | rfl <;> rfl
    · simp only [List.cons_append, List.nil_append, List.mem_cons, List.not_mem_nil, or_false] at hc
      rcases hc with rfl | rfl | rfl | rfl <;> rfl
  links := .cons_cons (by decide +kernel) (.cons_cons (by decide +kernel) (.cons_cons (by decide +kernel) (.singleton _)))
  selfSigned := by decide +kernel

theorem end_entity_extends_chain :
    NodeChecks testChainPlatform ∧
    verifyCertChain testChainPlatform testChainConfig 5 (testX5c.map .bytes) = .ok testForged ∧
    ¬ IssuersAreCAs testChainPlatform testChainConfig testX5c := by
  refine ⟨testChainPlatform_nodeChecks, verifyCertChain_iff.mpr ⟨by decide +kernel, testX5c, rfl, _, _, testX5c_read,
    testRootCA_read, testForged_chained, rfl⟩, fun h => ?_⟩
  have hDevice := h _ _ testX5c_read testRootCA_read testDevice (by simp)
  exact absurd hDevice (by decide +kernel)

end Columbia.Issuer.AppAttest
