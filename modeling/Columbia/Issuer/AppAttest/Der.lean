import Columbia.Js.Bytes
import Columbia.Lib.Reader
import Mathlib.Data.List.Induction
import Mathlib.Tactic.Ring

/-! # The DER walk for one certificate extension

`derReadTLV` is the source's, at any offset and with its 32-bit signed length; outside of the buffer a byte is
`undefined` and arithmetic on it is `NaN`. The walk is run with fuel, since a negative length can send it back.
On encoded trees, whatever form their lengths take, it terminates and finds what the search of the trees finds.
-/
namespace Columbia.Issuer.AppAttest
open Columbia.Js Columbia.Lib
set_option autoImplicit false

def byteAt (buf : Bytes) (i : Int) : Option UInt8 := if 0 ≤ i then buf[i.toNat]? else none

def toInt32 (n : Int) : Int := (n + 2147483648) % 4294967296 - 2147483648

/-- `len = (len << 8) | b` over the bytes of a long form. -/
def longLength (bytes : Bytes) : Int := bytes.foldl (fun len b => toInt32 (len * 256) + b.toNat) 0

structure Tlv where
  tag : Option UInt8
  len : Option Int
  headerLen : Int
  contentStart : Int
  deriving DecidableEq

/-- `contentStart + len`; `none` is `NaN`. -/
def Tlv.stop (tlv : Tlv) : Option Int := tlv.len.map (tlv.contentStart + ·)

def derReadTLV (buf : Bytes) (off : Int) : Except Thrown Tlv := do
  require (off + 1 ≤ buf.length) (.error "der: truncated tag")
  let tag := byteAt buf off
  require (off + 1 < buf.length) (.error "der: truncated length")
  match byteAt buf (off + 1) with
  | none => .ok ⟨tag, none, 2, off + 2⟩
  | some first =>
    if first.toNat / 128 = 1 then
      let nBytes := first.toNat % 128
      require (nBytes ≠ 0 ∧ nBytes ≤ 4) (.error "der: bad long-form length")
      require (off + 2 + nBytes ≤ buf.length) (.error "der: truncated long length")
      let len := longLength ((buf.drop (off + 2).toNat).take nBytes)
      require (off + 2 + nBytes + len ≤ buf.length) (.error "der: content overruns")
      .ok ⟨tag, some len, 2 + nBytes, off + 2 + nBytes⟩
    else
      let len : Int := first.toNat
      require (off + 2 + len ≤ buf.length) (.error "der: content overruns")
      .ok ⟨tag, some len, 2, off + 2⟩

def adjustOffset (length : Nat) (i : Int) : Nat := if i < 0 then (i + length).toNat else min i.toNat length

def subarray (buf : Bytes) (start stop : Int) : Bytes :=
  (buf.drop (adjustOffset buf.length start)).take (adjustOffset buf.length stop - adjustOffset buf.length start)

def base128 : Nat → Nat → List UInt8 → List UInt8
  | 0, _, stack => stack
  | fuel + 1, v, stack => if v = 0 then stack else base128 fuel (v / 128) (UInt8.ofNat (v % 128 + 128) :: stack)

def encodeOid : List Nat → Except Thrown Bytes
  | first :: second :: rest =>
    .ok (UInt8.ofNat (40 * first + second) ::
      rest.flatMap fun v => base128 v (v / 128) [UInt8.ofNat (v % 128)])
  | _ => .error (.error "oid: too short")

def APPLE_NONCE_OID : List Nat := [1, 2, 840, 113635, 100, 8, 2]

def within (off stop : Option Int) : Option Int :=
  off.bind fun o => stop.bind fun s => if o < s then some o else none

/-- Go on when nothing was found; running out of fuel stays what it is. -/
def unlessFound (first : Option (Option Bytes)) (next : Unit → Option (Option Bytes)) : Option (Option Bytes) :=
  match first with
  | some none => next ()
  | result => result

/-- The sibling loop: the first OCTET STRING after the OID. A read that throws ends it. -/
def siblings (buf : Bytes) : Nat → Option Int → Option Int → Option (Option Bytes)
  | 0, _, _ => none
  | fuel + 1, sib, stop =>
    match within sib stop with
    | none => some none
    | some off =>
      match derReadTLV buf off with
      | .error _ => some none
      | .ok s =>
        if s.tag = some 0x04 then some (some (subarray buf s.contentStart (s.stop.getD 0)))
        else siblings buf fuel s.stop stop

/-- Is this a SEQUENCE that begins with the OID? Then the value of the extension. -/
def extensionValue (oid buf : Bytes) (fuel : Nat) (tlv : Tlv) : Option (Option Bytes) :=
  if tlv.tag = some 0x30 then
    match derReadTLV buf tlv.contentStart with
    | .error _ => some none
    | .ok inner =>
      if inner.tag = some 0x06 ∧ inner.len = some (oid.length : Int) ∧
          subarray buf inner.contentStart (inner.contentStart + oid.length) = oid then
        siblings buf fuel inner.stop tlv.stop
      else some none
  else some none

def walk (oid buf : Bytes) : Nat → Option Int → Option Int → Nat → Option (Option Bytes)
  | 0, _, _, _ => none
  | fuel + 1, start, stop, depth =>
    if 24 < depth then some none
    else
      match within start stop with
      | none => some none
      | some off =>
        match derReadTLV buf off with
        | .error _ => some none
        | .ok tlv =>
          unlessFound (extensionValue oid buf fuel tlv) fun _ =>
            unlessFound
              (if tlv.tag.any fun tag => tag.toNat / 32 % 2 = 1 then
                walk oid buf fuel (some tlv.contentStart) tlv.stop (depth + 1)
              else some none)
              fun _ => walk oid buf fuel tlv.stop stop depth

/-- `none` when the fuel does not last. -/
def findExtensionValue (fuel : Nat) (certDer : Bytes) (oidDotted : List Nat) : Option (Except Thrown (Option Bytes)) :=
  match encodeOid oidDotted with
  | .error e => some (.error e)
  | .ok oid => (walk oid certDer fuel (some 0) (some certDer.length) 0).map .ok

def parseAppleNonce (extnValueDer : Bytes) : Except Thrown Bytes := do
  let seq ← derReadTLV extnValueDer 0
  require (seq.tag = some 0x30) (.error "nonce: outer not SEQUENCE")
  let ctx ← derReadTLV extnValueDer seq.contentStart
  require (ctx.tag = some 0xa1) (.error "nonce: expected [1] context tag")
  let oct ← derReadTLV extnValueDer ctx.contentStart
  require (oct.tag = some 0x04) (.error "nonce: inner not OCTET STRING")
  require (oct.len = some 32) (.error "nonce: not 32 bytes")
  .ok (subarray extnValueDer oct.contentStart (oct.contentStart + 32))

/-! ## DER trees -/

/-- Bit 0x20 of the identifier octet says whether the content is a sequence of elements. -/
inductive Der
  | primitive (tag : { t : UInt8 // t.toNat / 32 % 2 = 0 }) (content : Bytes)
  | constructed (tag : { t : UInt8 // t.toNat / 32 % 2 = 1 }) (children : List Der)

/-! Some tags by name. -/

def booleanTag : { t : UInt8 // t.toNat / 32 % 2 = 0 } := ⟨0x01, rfl⟩
def octetStringTag : { t : UInt8 // t.toNat / 32 % 2 = 0 } := ⟨0x04, rfl⟩
def oidTag : { t : UInt8 // t.toNat / 32 % 2 = 0 } := ⟨0x06, rfl⟩
def sequenceTag : { t : UInt8 // t.toNat / 32 % 2 = 1 } := ⟨0x30, rfl⟩
def context1Tag : { t : UInt8 // t.toNat / 32 % 2 = 1 } := ⟨0xa1, rfl⟩
def context3Tag : { t : UInt8 // t.toNat / 32 % 2 = 1 } := ⟨0xa3, rfl⟩

def lengthBytes (n : Nat) : Bytes :=
  if n < 128 then [UInt8.ofNat n]
  else if n < 256 then [0x81, UInt8.ofNat n]
  else if n < 65536 then [0x82, UInt8.ofNat (n / 256), UInt8.ofNat n]
  else if n < 16777216 then [0x83, UInt8.ofNat (n / 65536), UInt8.ofNat (n / 256), UInt8.ofNat n]
  else [0x84, UInt8.ofNat (n / 16777216), UInt8.ofNat (n / 65536), UInt8.ofNat (n / 256), UInt8.ofNat n]

def element (tag : UInt8) (content : Bytes) : Bytes := tag :: (lengthBytes content.length ++ content)

mutual

def Der.encode : Der → Bytes
  | .primitive tag content => element tag content
  | .constructed tag children => element tag (encodeAll children)

def encodeAll : List Der → Bytes
  | [] => []
  | d :: rest => d.encode ++ encodeAll rest

end

def Der.tag : Der → UInt8
  | .primitive tag _ => tag
  | .constructed tag _ => tag

def Der.content : Der → Bytes
  | .primitive _ content => content
  | .constructed _ children => encodeAll children

/-- `Extension ::= SEQUENCE { OID, ..., OCTET STRING }` with this OID: the octets. -/
def extensionOf (oid : Bytes) (tag : UInt8) : List Der → Option Bytes
  | [] => none
  | first :: rest =>
    if tag = 0x30 ∧ first.tag = 0x06 ∧ first.content = oid then (rest.find? (·.tag = 0x04)).map Der.content else none

mutual

/-- The first extension with this OID, outer ones before inner ones, not deeper than so many levels. -/
def Der.search (oid : Bytes) : Nat → Der → Option Bytes
  | _, .primitive _ _ => none
  | levels, .constructed tag children => (extensionOf oid tag children).or (searchAll oid (levels - 1) children)

def searchAll (oid : Bytes) : Nat → List Der → Option Bytes
  | _, [] => none
  | levels, d :: rest => if levels = 0 then none else (d.search oid levels).or (searchAll oid levels rest)

end

/-! ## Encoded trees -/

/-- The octets that stand for a length: the short form, or a long form of up to four bytes, not always the fewest. -/
inductive LengthForm (n : Nat) : Bytes → Prop
  | short : n < 128 → LengthForm n [UInt8.ofNat n]
  | long {digits : Bytes} : digits.length ≠ 0 ∧ digits.length ≤ 4 → integerOf digits = n → n < 2147483648 →
    LengthForm n (UInt8.ofNat (128 + digits.length) :: digits)

structure Element where
  tag : UInt8
  lengthOctets : Bytes
  content : Bytes
  form : LengthForm content.length lengthOctets

def Element.header (e : Element) : Bytes := e.tag :: e.lengthOctets

def Element.encode (e : Element) : Bytes := e.header ++ e.content

mutual

/-- The element is an encoding of the tree. -/
inductive Der.Encoded : Der → Element → Prop
  | primitive {tag : { t : UInt8 // t.toNat / 32 % 2 = 0 }} {content : Bytes} {e : Element} : e.tag = tag →
    e.content = content → Der.Encoded (.primitive tag content) e
  | constructed {tag : { t : UInt8 // t.toNat / 32 % 2 = 1 }} {children : List Der} {e : Element} : e.tag = tag →
    AllEncoded children e.content → Der.Encoded (.constructed tag children) e

inductive AllEncoded : List Der → Bytes → Prop
  | nil : AllEncoded [] []
  | cons {d : Der} {e : Element} {ds : List Der} {rest : Bytes} : d.Encoded e → AllEncoded ds rest →
    AllEncoded (d :: ds) (e.encode ++ rest)

end

theorem Der.Encoded.tag_eq {d : Der} {e : Element} (h : d.Encoded e) : e.tag = d.tag := by
  cases h with
  | primitive hTag _ => exact hTag
  | constructed hTag _ => exact hTag

/-- Identifier octets without the bit for constructed elements are those of primitive ones. -/
theorem Der.Encoded.content_eq {d : Der} {e : Element} (h : d.Encoded e) (hTag : d.tag.toNat / 32 % 2 = 0) :
    e.content = d.content := by
  cases h with
  | primitive _ hContent => exact hContent
  | @constructed tag children _ _ _ =>
    have hBit := tag.property
    change tag.val.toNat / 32 % 2 = 0 at hTag
    omega

theorem lengthForm_lengthBytes {n : Nat} (h : n < 2147483648) : LengthForm n (lengthBytes n) := by
  unfold lengthBytes
  split_ifs with h1 h2 h3 h4
  · exact .short h1
  · refine @LengthForm.long n [UInt8.ofNat n] (by simp) ?_ h
    simp only [integerOf_cons, integerOf_nil, List.length_nil, UInt8.toNat_ofNat']
    omega
  · refine @LengthForm.long n (uint16BE n) (by simp [uint16BE]) ?_ h
    exact integerOf_uint16BE h3
  · refine @LengthForm.long n [UInt8.ofNat (n / 65536), UInt8.ofNat (n / 256), UInt8.ofNat n] (by simp) ?_ h
    simp only [integerOf_cons, integerOf_nil, List.length_cons, List.length_nil, UInt8.toNat_ofNat']
    omega
  · refine @LengthForm.long n (uint32BE n) (by simp [uint32BE]) ?_ h
    exact integerOf_uint32BE (by omega)

/-- The shortest length octets. -/
def shortest (tag : UInt8) (content : Bytes) (h : content.length < 2147483648) : Element :=
  ⟨tag, lengthBytes content.length, content, lengthForm_lengthBytes h⟩

theorem element_length (tag : UInt8) (content : Bytes) :
    (element tag content).length = 1 + (lengthBytes content.length).length + content.length := by
  simp [element]
  omega

mutual

theorem Der.encoded_encode : (d : Der) → d.encode.length < 2147483648 → ∃ e : Element, e.encode = d.encode ∧ d.Encoded e
  | .primitive tag content, h => by
    rw [Der.encode, element_length] at h
    exact ⟨shortest tag content (by omega), rfl, .primitive rfl rfl⟩
  | .constructed tag children, h => by
    rw [Der.encode, element_length] at h
    have hAll := allEncoded_encodeAll children (by omega)
    exact ⟨shortest tag (encodeAll children) (by omega), rfl, .constructed rfl hAll⟩

theorem allEncoded_encodeAll : (ds : List Der) → (encodeAll ds).length < 2147483648 → AllEncoded ds (encodeAll ds)
  | [], _ => .nil
  | d :: rest, h => by
    rw [encodeAll, List.length_append] at h
    obtain ⟨e, hEncode, hEncoded⟩ := d.encoded_encode (by omega)
    rw [encodeAll, ← hEncode]
    exact .cons hEncoded (allEncoded_encodeAll rest (by omega))

end

/-! ## Reading an encoded element -/

theorem byteAt_append (before after : Bytes) (k : Nat) : byteAt (before ++ after) (before.length + k) = after[k]? := by
  unfold byteAt
  rw [if_pos (by omega), List.getElem?_append_right (by omega)]
  congr 1
  omega

theorem drop_append (before after : Bytes) (k : Nat) :
    (before ++ after).drop ((before.length : Int) + k).toNat = after.drop k := by
  rw [show ((before.length : Int) + k).toNat = before.length + k by omega, ← List.drop_drop, List.drop_left]

theorem subarray_append (before content after : Bytes) :
    subarray (before ++ content ++ after) before.length ((before.length : Int) + content.length) = content := by
  have hStart : adjustOffset (before ++ content ++ after).length before.length = before.length := by
    unfold adjustOffset
    rw [if_neg (by omega)]
    simp
  have hStop : adjustOffset (before ++ content ++ after).length ((before.length : Int) + content.length) =
      before.length + content.length := by
    unfold adjustOffset
    rw [if_neg (by omega)]
    simp only [List.length_append]
    omega
  rw [subarray, hStart, hStop, List.append_assoc, List.drop_left, Nat.add_sub_cancel_left, List.take_left]

theorem toInt32_of_small {n : Int} (hLow : 0 ≤ n) (hHigh : n < 2147483648) : toInt32 n = n := by
  unfold toInt32
  rw [Int.emod_eq_of_lt (by omega) (by omega)]
  omega

theorem longLength_eq {digits : Bytes} {n : Nat} (hValue : integerOf digits = n) (h : n < 2147483648) :
    longLength digits = n := by
  induction digits using List.reverseRecOn generalizing n with
  | nil =>
    subst hValue
    rfl
  | append_singleton rest b ih =>
    have hByte := b.toNat_lt
    have hSum := integerOf_append rest [b]
    have hLast : integerOf [b] = b.toNat := by simp [integerOf]
    rw [hValue, hLast, List.length_singleton, Nat.pow_one] at hSum
    have hRest := ih rfl (by omega)
    rw [longLength] at hRest
    rw [longLength, List.foldl_append, hRest, List.foldl_cons, List.foldl_nil,
      toInt32_of_small (by omega) (by omega), hSum]
    push_cast
    ring

namespace Element
variable (e : Element)

theorem encode_length : e.encode.length = e.header.length + e.content.length := by
  rw [encode, List.length_append]

theorem header_length : e.header.length = 1 + e.lengthOctets.length := by
  rw [header, List.length_cons]
  omega

theorem encode_pos : 0 < e.encode.length := by
  rw [e.encode_length, e.header_length]
  omega

def tlv (start : Nat) : Tlv := ⟨some e.tag, some e.content.length, e.header.length, start + e.header.length⟩

theorem tlv_tag_iff (start : Nat) (tag : UInt8) : (e.tlv start).tag = some tag ↔ e.tag = tag :=
  ⟨Option.some.inj, congrArg some⟩

theorem tlv_stop (start : Nat) : (e.tlv start).stop = some ((start + e.encode.length : Nat) : Int) := by
  simp only [Tlv.stop, tlv, Option.map_some, e.encode_length]
  push_cast
  ring_nf

end Element

theorem derReadTLV_encode {buf before after : Bytes} {e : Element} (hBuf : buf = before ++ (e.encode ++ after)) :
    derReadTLV buf before.length = .ok (e.tlv before.length) := by
  have hByte : ∀ k : Nat, byteAt buf (before.length + k) = (e.encode ++ after)[k]? := by
    intro k
    rw [hBuf, byteAt_append]
  have hTag : byteAt buf before.length = some e.tag := by simpa [Element.encode, Element.header] using hByte 0
  have hLength := congrArg List.length hBuf
  rw [List.length_append, List.length_append, e.encode_length] at hLength
  obtain ⟨tag, octets, content, hForm⟩ := e
  cases hForm with
  | short hSmall =>
    have hFirst : byteAt buf (before.length + 1) = some (UInt8.ofNat content.length) := by
      simpa [Element.encode, Element.header] using hByte 1
    have hNat : (UInt8.ofNat content.length).toNat = content.length := by
      rw [UInt8.toNat_ofNat']
      omega
    simp only [Element.header, List.length_cons, List.length_nil] at hLength
    rw [derReadTLV, require_bind (by omega), require_bind (by omega), hTag, hFirst]
    simp only [hNat]
    rw [if_neg (by omega), require_bind (by omega)]
    rfl
  | @long digits hDigits hValue hBound =>
    have hCount : (UInt8.ofNat (128 + digits.length)).toNat = 128 + digits.length := by
      rw [UInt8.toNat_ofNat']
      omega
    have hFirst : byteAt buf (before.length + 1) = some (UInt8.ofNat (128 + digits.length)) := by
      simpa [Element.encode, Element.header] using hByte 1
    have hDrop : (buf.drop ((before.length : Int) + 2).toNat).take digits.length = digits := by
      have hAfter : buf.drop ((before.length : Int) + 2).toNat = digits ++ content ++ after := by
        rw [hBuf]
        exact (drop_append before _ 2).trans (by simp [Element.encode, Element.header])
      rw [hAfter, List.append_assoc, List.take_left]
    simp only [Element.header, List.length_cons] at hLength
    rw [derReadTLV, require_bind (by omega), require_bind (by omega), hTag, hFirst]
    simp only [hCount]
    rw [if_pos (by omega), show (128 + digits.length) % 128 = digits.length by omega, require_bind hDigits,
      require_bind (by omega), hDrop, longLength_eq hValue hBound, require_bind (by omega), Element.tlv]
    simp only [Element.header, List.length_cons]
    congr 2 <;> push_cast <;> ring

theorem within_lt {start stop : Nat} (h : start < stop) :
    within (some (start : Int)) (some (stop : Int)) = some (start : Int) :=
  if_pos (by omega)

theorem within_ge {start stop : Int} (h : stop ≤ start) : within (some start) (some stop) = none :=
  if_neg (by omega)

theorem Element.subarray_tlv (e : Element) {buf before after : Bytes} (hBuf : buf = before ++ (e.encode ++ after)) :
    subarray buf (e.tlv before.length).contentStart ((e.tlv before.length).contentStart + e.content.length) =
      e.content := by
  have hSub := subarray_append (before ++ e.header) e.content after
  rw [Element.encode] at hBuf
  simp only [hBuf, Element.tlv, List.length_append, List.append_assoc, Nat.cast_add] at hSub ⊢
  exact hSub

/-! ## The loops on encoded trees -/

theorem siblings_encoded {buf : Bytes} {ds : List Der} {bytes : Bytes} (h : AllEncoded ds bytes) {before after : Bytes}
    (hBuf : buf = before ++ (bytes ++ after)) {fuel : Nat} (hFuel : bytes.length < fuel) :
    siblings buf fuel (some (before.length : Int)) (some ((before.length + bytes.length : Nat) : Int)) =
      some ((ds.find? (·.tag = 0x04)).map Der.content) := by
  induction ds generalizing before bytes fuel with
  | nil =>
    cases h
    obtain ⟨fuel, rfl⟩ := Nat.exists_eq_add_of_lt hFuel
    simp [siblings, within_ge]
  | cons d rest ih =>
    obtain ⟨fuel, rfl⟩ : ∃ n, fuel = n + 1 := ⟨fuel - 1, by omega⟩
    cases h with
    | @cons _ e _ bytes hEncoded hRest =>
      have hPos := e.encode_pos
      rw [List.length_append] at hFuel ⊢
      rw [List.append_assoc] at hBuf
      rw [siblings, within_lt (by omega)]
      simp only [derReadTLV_encode hBuf, Element.tlv_tag_iff, hEncoded.tag_eq]
      by_cases hTag : d.tag = 0x04
      · have hContent : subarray buf (e.tlv before.length).contentStart ((e.tlv before.length).stop.getD 0) = e.content :=
          e.subarray_tlv hBuf
        rw [if_pos hTag, List.find?_cons_of_pos (by simpa using hTag), Option.map_some, hContent,
          hEncoded.content_eq (by rw [hTag]; rfl)]
      · have hNext := ih hRest (hBuf.trans (List.append_assoc ..).symm) (show bytes.length < fuel by omega)
        rw [if_neg hTag, List.find?_cons_of_neg (by simpa using hTag), ← hNext, Element.tlv_stop]
        simp [Nat.add_assoc]

theorem derReadTLV_contentStart {buf : Bytes} {off : Int} {tlv : Tlv} (h : derReadTLV buf off = .ok tlv) :
    off + 2 ≤ tlv.contentStart := by
  simp only [derReadTLV, bind_eq_ok, require_eq_ok, exists_const] at h
  obtain ⟨-, -, h⟩ := h
  split at h
  · cases h
    exact le_rfl
  · split at h
    · simp only [bind_eq_ok, require_eq_ok, exists_const] at h
      obtain ⟨-, -, -, h⟩ := h
      cases h
      change off + 2 ≤ off + 2 + _
      omega
    · simp only [bind_eq_ok, require_eq_ok, exists_const] at h
      obtain ⟨-, h⟩ := h
      cases h
      exact le_rfl

def Der.extension (oid : Bytes) : Der → Option Bytes
  | .primitive _ _ => none
  | .constructed tag children => extensionOf oid tag children

/-- Whatever is read in an empty sequence lies after it. -/
theorem extensionValue_empty {oid buf : Bytes} {fuel : Nat} {tlv : Tlv} (hStop : tlv.stop = some tlv.contentStart) :
    extensionValue oid buf (fuel + 1) tlv = some none := by
  unfold extensionValue
  split
  · cases hInner : derReadTLV buf tlv.contentStart with
    | error e => rfl
    | ok inner =>
      have hAfter := derReadTLV_contentStart hInner
      simp only
      split
      · rename_i hOid
        have hInnerStop : inner.stop = some (inner.contentStart + oid.length) := by simp [Tlv.stop, hOid.2.1]
        rw [hInnerStop, hStop, siblings, within_ge (by omega)]
      · rfl
  · rfl

theorem Der.Encoded.isOid_iff {oid buf before after : Bytes} {d : Der} {e : Element} (h : d.Encoded e)
    (hBuf : buf = before ++ (e.encode ++ after)) :
    d.tag = 0x06 ∧ (e.tlv before.length).len = some (oid.length : Int) ∧
      subarray buf (e.tlv before.length).contentStart ((e.tlv before.length).contentStart + oid.length) = oid ↔
      d.tag = 0x06 ∧ d.content = oid := by
  have hContent := e.subarray_tlv hBuf
  apply and_congr_right
  intro hTag
  have hSame := h.content_eq (by rw [hTag]; rfl)
  constructor
  · rintro ⟨hLength, hSub⟩
    rwa [← Option.some.inj hLength, hContent, hSame] at hSub
  · rintro rfl
    rw [← hSame]
    exact ⟨rfl, hContent⟩

theorem extensionValue_encoded {oid buf before after : Bytes} {d : Der} {e : Element} (h : d.Encoded e) {fuel : Nat}
    (hBuf : buf = before ++ (e.encode ++ after)) (hFuel : e.content.length < fuel) :
    extensionValue oid buf fuel (e.tlv before.length) = some (d.extension oid) := by
  have hStart : (e.tlv before.length).contentStart = ((before ++ e.header).length : Int) := by
    simp [Element.tlv]
  obtain ⟨fuel, rfl⟩ : ∃ n, fuel = n + 1 := ⟨fuel - 1, by omega⟩
  cases h with
  | @primitive tag _ _ hTag _ =>
    have hNot : e.tag ≠ 0x30 := fun hSequence => by
      have hBit := tag.property
      rw [← hTag, hSequence] at hBit
      cases hBit
    rw [extensionValue, if_neg (by rwa [Element.tlv_tag_iff])]
    rfl
  | @constructed tag children _ hTag hChildren =>
    generalize hBody : e.content = body at hChildren
    cases hChildren with
    | nil =>
      rw [extensionValue_empty]
      · rfl
      · rw [hStart, Element.tlv_stop, Element.encode, hBody, List.append_nil, List.length_append]
    | @cons c first rest body hFirst hRest =>
      have hChild : buf = (before ++ e.header) ++ (first.encode ++ (body ++ after)) := by
        rw [hBuf, Element.encode, hBody]
        simp
      have hSiblings := siblings_encoded hRest (hChild.trans (List.append_assoc ..).symm)
        (show body.length < fuel + 1 by
          rw [hBody, List.length_append] at hFuel
          omega)
      have hStop : before.length + e.encode.length = (before ++ e.header ++ first.encode).length + body.length := by
        rw [Element.encode, hBody]
        simp only [List.length_append]
        omega
      simp only [extensionValue, Element.tlv_tag_iff, hStart, derReadTLV_encode hChild, hFirst.tag_eq,
        hFirst.isOid_iff hChild, hTag]
      rw [Der.extension, extensionOf]
      by_cases hSequence : tag.val = 0x30
      · rw [if_pos hSequence]
        simp only [hSequence, true_and]
        by_cases hOid : c.tag = 0x06 ∧ c.content = oid
        · rw [if_pos hOid, if_pos hOid]
          simp only [Element.tlv_stop, hStop, List.length_append] at hSiblings ⊢
          exact hSiblings
        · rw [if_neg hOid, if_neg hOid]
      · rw [if_neg hSequence, if_neg fun h => hSequence h.1]

theorem unlessFound_some (found : Option Bytes) {next : Unit → Option (Option Bytes)} {rest : Option Bytes}
    (h : next () = some rest) : unlessFound (some found) next = some (found.or rest) := by
  cases found with
  | none => exact h
  | some value => rfl

def Der.inner (oid : Bytes) (levels : Nat) : Der → Option Bytes
  | .primitive _ _ => none
  | .constructed _ children => searchAll oid levels children

theorem Der.search_eq (oid : Bytes) (levels : Nat) (d : Der) :
    d.search oid levels = (d.extension oid).or (d.inner oid (levels - 1)) := by
  cases d <;> rfl

/-- On encoded elements the walk ends, with the result of the search. Every step is paid by a byte. -/
theorem walk_encoded {oid buf : Bytes} (fuel : Nat) {ds : List Der} {bytes : Bytes} (h : AllEncoded ds bytes)
    (depth : Nat) {before after : Bytes} (hBuf : buf = before ++ (bytes ++ after)) (hFuel : bytes.length < fuel) :
    walk oid buf fuel (some (before.length : Int)) (some ((before.length + bytes.length : Nat) : Int)) depth =
      some (searchAll oid (25 - depth) ds) := by
  induction fuel generalizing ds bytes before after depth with
  | zero => omega
  | succ fuel ih =>
    rw [walk]
    cases h with
    | nil =>
      rw [List.length_nil, Nat.add_zero, within_ge le_rfl]
      split <;> rfl
    | @cons d e ds rest hEncoded hRest =>
      rw [List.length_append] at hFuel ⊢
      rw [List.append_assoc] at hBuf
      have hPos := e.encode_pos
      by_cases hDepth : 24 < depth
      · rw [if_pos hDepth, searchAll, if_pos (by omega)]
      · have hHeader : 0 < e.header.length := by rw [e.header_length]; omega
        have hContent := e.encode_length
        have hStart : (e.tlv before.length).contentStart = ((before ++ e.header).length : Int) := by
          simp [Element.tlv]
        have hInner : (if (e.tlv before.length).tag.any fun tag => tag.toNat / 32 % 2 = 1 then
            walk oid buf fuel (some (e.tlv before.length).contentStart)
              (some ((before.length + e.encode.length : Nat) : Int)) (depth + 1)
            else some none) = some (d.inner oid (25 - depth - 1)) := by
          cases hEncoded with
          | @primitive tag _ _ hTag _ =>
            rw [if_neg (by simp [Element.tlv, hTag, tag.property])]
            rfl
          | @constructed tag children _ hTag hChildren =>
            have hInside : buf = (before ++ e.header) ++ (e.content ++ (rest ++ after)) := by
              rw [hBuf, Element.encode]
              simp
            have hWalk := ih hChildren (depth + 1) hInside (by omega)
            rw [if_pos (by simp [Element.tlv, hTag, tag.property]), hStart, hContent, Der.inner,
              ← Nat.sub_add_eq, ← hWalk]
            simp only [List.length_append, Nat.add_assoc]
        have hNext := ih hRest depth (hBuf.trans (List.append_assoc ..).symm) (show rest.length < fuel by omega)
        rw [List.length_append, Nat.add_assoc] at hNext
        rw [if_neg hDepth, within_lt (by omega)]
        simp only [derReadTLV_encode hBuf, Element.tlv_stop,
          extensionValue_encoded hEncoded hBuf (show e.content.length < fuel by omega)]
        have hSearch : searchAll oid (25 - depth) (d :: ds) =
            (d.extension oid).or ((d.inner oid (25 - depth - 1)).or (searchAll oid (25 - depth) ds)) := by
          rw [searchAll, if_neg (by omega), Der.search_eq, Option.or_assoc]
        rw [hSearch]
        refine unlessFound_some _ ?_
        rw [hInner]
        exact unlessFound_some _ hNext

theorem findExtensionValue_encoded {ds : List Der} {bytes : Bytes} (h : AllEncoded ds bytes) {oidDotted : List Nat}
    {oid : Bytes} (hOid : encodeOid oidDotted = .ok oid) {fuel : Nat} (hFuel : bytes.length < fuel) :
    findExtensionValue fuel bytes oidDotted = some (.ok (searchAll oid 25 ds)) := by
  have hWalk := @walk_encoded oid bytes fuel ds bytes h 0 [] [] (List.append_nil bytes).symm hFuel
  rw [List.length_nil, Nat.zero_add] at hWalk
  simp only [findExtensionValue, hOid]
  rw [show some (0 : Int) = some ((0 : Nat) : Int) from rfl, hWalk]
  rfl

theorem findExtensionValue_encode {d : Der} {oidDotted : List Nat} {oid : Bytes} {fuel : Nat}
    (hOid : encodeOid oidDotted = .ok oid) (hSize : d.encode.length < 2147483648) (hFuel : d.encode.length < fuel) :
    findExtensionValue fuel d.encode oidDotted = some (.ok (d.search oid 25)) := by
  obtain ⟨e, hEncode, hEncoded⟩ := d.encoded_encode hSize
  have hAll : AllEncoded [d] d.encode := by
    rw [← hEncode, ← List.append_nil e.encode]
    exact .cons hEncoded .nil
  have hSearch : searchAll oid 25 [d] = d.search oid 25 := by
    simp [searchAll]
  rw [findExtensionValue_encoded hAll hOid hFuel, hSearch]

end Columbia.Issuer.AppAttest
