import Columbia.Issuer.AppAttest.Cbor

/-! # The fixtures' CBOR encoders

Each encoder writes the shortest head that holds its argument. They work on parts that are encoded already;
`Item` is what a whole call tree of them writes. The decoder reads every such item back, and in general
exactly what the grammar describes.
-/
namespace Columbia.Issuer.AppAttest
open Columbia.Js Columbia.Lib
set_option autoImplicit false

def cborUint (n : Nat) : Bytes :=
  if n < 24 then [UInt8.ofNat n]
  else if n < 256 then [0x18, UInt8.ofNat n]
  else if n < 65536 then 0x19 :: uint16BE n
  else 0x1a :: uint32BE n

/-- `head[0] = (head[0] & 0x1f) | major`. -/
def withMajor (major : UInt8) : Bytes → Bytes
  | [] => []
  | b :: rest => (b &&& 0x1f ||| major) :: rest

def cborNegInt (n : Int) : Bytes := withMajor 0x20 (cborUint (-1 - n).toNat)

def cborBytes (buf : Bytes) : Bytes := withMajor 0x40 (cborUint buf.length) ++ buf

def cborText (s : Str) : Bytes := withMajor 0x60 (cborUint (utf8Encode s).length) ++ utf8Encode s

def cborArray (items : List Bytes) : Bytes := withMajor 0x80 (cborUint items.length) ++ items.flatten

def cborMap (pairs : List (Bytes × Bytes)) : Bytes :=
  withMajor 0xa0 (cborUint pairs.length) ++ (pairs.flatMap fun e => [e.1, e.2]).flatten

/-! ## Heads -/

theorem cborUint_eq {n : Nat} (h : n < 2 ^ 32) :
    ∃ ib bs, cborUint n = ib :: bs ∧ ib.toNat < 32 ∧ Argument ib.toNat n bs := by
  unfold cborUint
  split_ifs with h1 h2 h3
  · have hByte : (UInt8.ofNat n).toNat = n := by
      rw [UInt8.toNat_ofNat']
      omega
    refine ⟨_, _, rfl, by omega, ?_⟩
    rw [hByte]
    exact .direct h1
  · have hByte : integerOf [UInt8.ofNat n] = n := by
      simp only [integerOf, List.reverse_singleton, List.map_singleton, Nat.ofDigits_singleton, UInt8.toNat_ofNat']
      omega
    have hArgument : Argument 24 (integerOf [UInt8.ofNat n]) [UInt8.ofNat n] := .one rfl
    rw [hByte] at hArgument
    exact ⟨_, _, rfl, by decide, hArgument⟩
  · have hArgument : Argument 25 (integerOf (uint16BE n)) (uint16BE n) := .two rfl
    rw [integerOf_uint16BE h3] at hArgument
    exact ⟨_, _, rfl, by decide, hArgument⟩
  · have hArgument : Argument 26 (integerOf (uint32BE n)) (uint32BE n) := .four rfl
    rw [integerOf_uint32BE h] at hArgument
    exact ⟨_, _, rfl, by decide, hArgument⟩

theorem toNat_withMajor {major : Nat} (b : UInt8) (hMajor : major < 8) :
    (b &&& 0x1f ||| UInt8.ofNat (32 * major)).toNat = 32 * major + b.toNat % 32 := by
  have hLow : (b &&& 0x1f).toNat = b.toNat % 32 := by
    rw [UInt8.toNat_and]
    exact Nat.and_two_pow_sub_one_eq_mod b.toNat 5
  have hHigh : (UInt8.ofNat (32 * major)).toNat = 32 * major := by
    rw [UInt8.toNat_ofNat']
    omega
  rw [UInt8.toNat_or, hLow, hHigh, Nat.or_comm]
  exact (Nat.two_pow_add_eq_or_of_lt (i := 5) (by omega) major).symm

/-- A head with its major type, and the item it begins. -/
theorem encodes_withMajor {levels major n : Nat} {value : Cbor} {body : Bytes} (hMajor : major < 8) (h : n < 2 ^ 32)
    (hContent : Content (Encodes levels) major n value body) :
    Encodes (levels + 1) value (withMajor (UInt8.ofNat (32 * major)) (cborUint n) ++ body) := by
  obtain ⟨ib, bs, hUint, hSmall, hArgument⟩ := cborUint_eq h
  have hByte := toNat_withMajor ib hMajor
  refine ⟨ib &&& 0x1f ||| UInt8.ofNat (32 * major), bs, body, n, ?_, ?_, ?_⟩
  · rw [hUint]
    rfl
  · rwa [hByte, Nat.mul_add_mod, Nat.mod_mod, Nat.mod_eq_of_lt hSmall]
  · have hDiv : (32 * major + ib.toNat % 32) / 32 = major := by omega
    rwa [hByte, hDiv]

theorem encodes_uint {levels n : Nat} (h : n < 2 ^ 32) : Encodes (levels + 1) (.int n) (cborUint n) := by
  obtain ⟨ib, bs, hUint, hSmall, hArgument⟩ := cborUint_eq h
  refine ⟨ib, bs, [], n, ?_, ?_, rfl, .inl ⟨?_, rfl⟩⟩
  · rw [hUint, List.append_nil]
  · rwa [Nat.mod_eq_of_lt hSmall]
  · exact Nat.div_eq_of_lt hSmall

theorem encodes_negInt {levels : Nat} {n : Int} (hNeg : n < 0) (h : -2 ^ 32 ≤ n) :
    Encodes (levels + 1) (.int n) (cborNegInt n) := by
  have hEncodes := @encodes_withMajor levels 1 (-1 - n).toNat (.int n) [] (by decide) (by omega)
    ⟨rfl, .inr ⟨rfl, by omega⟩⟩
  rwa [List.append_nil] at hEncodes

theorem encodes_bytes {levels : Nat} {b : Bytes} (h : b.length < 2 ^ 32) :
    Encodes (levels + 1) (.bytes b) (cborBytes b) :=
  @encodes_withMajor _ 2 _ _ _ (by decide) h ⟨rfl, rfl, rfl⟩

theorem encodes_text {levels : Nat} {s : Str} (h : (utf8Encode s).length < 2 ^ 32) :
    Encodes (levels + 1) (.text (utf8Decode (utf8Encode s))) (cborText s) :=
  @encodes_withMajor _ 3 _ _ _ (by decide) h ⟨rfl, rfl, rfl⟩

theorem encodes_array {levels : Nat} {items : List Cbor} {parts : List Bytes} (h : items.length < 2 ^ 32)
    (hParts : List.Forall₂ (Encodes levels) items parts) : Encodes (levels + 1) (.array items) (cborArray parts) := by
  rw [hParts.length_eq] at h
  exact @encodes_withMajor _ 4 _ _ _ (by decide) h ⟨rfl, hParts.length_eq, parts, rfl, hParts⟩

theorem encodes_map {levels : Nat} {pairs : List (Cbor × Cbor)} {parts : List (Bytes × Bytes)}
    (h : pairs.length < 2 ^ 32)
    (hParts : List.Forall₂ (fun e part => Encodes levels e.1 part.1 ∧ Encodes levels e.2 part.2) pairs parts) :
    Encodes (levels + 1) (.map (mapOf pairs)) (cborMap parts) := by
  have hFlat : (parts.flatMap fun e => [e.1, e.2]).flatten = (parts.map fun e => e.1 ++ e.2).flatten := by
    clear hParts
    induction parts with
    | nil => rfl
    | cons e rest ih => simp [List.flatMap_cons, ih]
  rw [hParts.length_eq] at h
  refine @encodes_withMajor _ 5 _ _ _ (by decide) h ⟨rfl, pairs, rfl, hParts.length_eq, _, hFlat, ?_⟩
  rw [List.forall₂_map_right_iff]
  exact hParts.imp fun e part hPart => ⟨part.1, part.2, rfl, hPart⟩

/-! ## Items -/

inductive Item
  | uint (n : Nat)
  | negInt (n : Int)
  | bytes (b : Bytes)
  | text (s : Str)
  | array (items : List Item)
  | map (pairs : List (Item × Item))

mutual

def Item.encode : Item → Bytes
  | .uint n => cborUint n
  | .negInt n => cborNegInt n
  | .bytes b => cborBytes b
  | .text s => cborText s
  | .array items => cborArray (encodeItems items)
  | .map pairs => cborMap (encodePairs pairs)

def encodeItems : List Item → List Bytes
  | [] => []
  | item :: rest => item.encode :: encodeItems rest

def encodePairs : List (Item × Item) → List (Bytes × Bytes)
  | [] => []
  | (k, v) :: rest => (k.encode, v.encode) :: encodePairs rest

end

mutual

/-- What an item stands for; text is what its UTF-8 is read as. -/
def Item.value : Item → Cbor
  | .uint n => .int n
  | .negInt n => .int n
  | .bytes b => .bytes b
  | .text s => .text (utf8Decode (utf8Encode s))
  | .array items => .array (valueItems items)
  | .map pairs => .map (mapOf (valuePairs pairs))

def valueItems : List Item → List Cbor
  | [] => []
  | item :: rest => item.value :: valueItems rest

def valuePairs : List (Item × Item) → List (Cbor × Cbor)
  | [] => []
  | (k, v) :: rest => (k.value, v.value) :: valuePairs rest

end

theorem Item.value_text {s : Str} (h : isWellFormed s = true) : (Item.text s).value = .text s := by
  rw [Item.value, utf8Decode_utf8Encode h]

/-- At most so many levels, and no number or length of 2^32 or more. -/
def Item.Fits : Nat → Item → Prop
  | 0, _ => False
  | _ + 1, .uint n => n < 2 ^ 32
  | _ + 1, .negInt n => n < 0 ∧ -2 ^ 32 ≤ n
  | _ + 1, .bytes b => b.length < 2 ^ 32
  | _ + 1, .text s => (utf8Encode s).length < 2 ^ 32
  | levels + 1, .array items => items.length < 2 ^ 32 ∧ ∀ item ∈ items, item.Fits levels
  | levels + 1, .map pairs => pairs.length < 2 ^ 32 ∧ ∀ e ∈ pairs, e.1.Fits levels ∧ e.2.Fits levels

theorem valueItems_eq (items : List Item) : valueItems items = items.map Item.value := by
  induction items with
  | nil => rfl
  | cons item rest ih => rw [valueItems, ih, List.map_cons]

theorem encodeItems_eq (items : List Item) : encodeItems items = items.map Item.encode := by
  induction items with
  | nil => rfl
  | cons item rest ih => rw [encodeItems, ih, List.map_cons]

theorem valuePairs_eq (pairs : List (Item × Item)) : valuePairs pairs = pairs.map fun e => (e.1.value, e.2.value) := by
  induction pairs with
  | nil => rfl
  | cons e rest ih => rw [valuePairs, ih, List.map_cons]

theorem encodePairs_eq (pairs : List (Item × Item)) :
    encodePairs pairs = pairs.map fun e => (e.1.encode, e.2.encode) := by
  induction pairs with
  | nil => rfl
  | cons e rest ih => rw [encodePairs, ih, List.map_cons]

theorem Item.encodes {levels : Nat} {item : Item} (h : item.Fits levels) : Encodes levels item.value item.encode := by
  induction levels generalizing item with
  | zero => exact h.elim
  | succ levels ih =>
    cases item with
    | uint n => exact encodes_uint h
    | negInt n => exact encodes_negInt h.1 h.2
    | bytes b => exact encodes_bytes h
    | text s => exact encodes_text h
    | array items =>
      rw [Item.value, Item.encode, valueItems_eq, encodeItems_eq]
      apply encodes_array
      · rw [List.length_map]
        exact h.1
      · rw [List.forall₂_map_left_iff, List.forall₂_map_right_iff, List.forall₂_same]
        intro item hMem
        exact ih (h.2 item hMem)
    | map pairs =>
      rw [Item.value, Item.encode, valuePairs_eq, encodePairs_eq]
      apply encodes_map
      · rw [List.length_map]
        exact h.1
      · rw [List.forall₂_map_left_iff, List.forall₂_map_right_iff, List.forall₂_same]
        intro e hMem
        exact ⟨ih (h.2 e hMem).1, ih (h.2 e hMem).2⟩

/-! ## The decoder -/

theorem cborDecodeFirst_append {front : Bytes} {value : Cbor} (h : Encodes (CBOR_MAX_DEPTH + 1) value front)
    (after : Bytes) : cborDecodeFirst (front ++ after) = .ok ⟨value, front.length⟩ := by
  apply cborDecodeFirst_eq_ok.mpr
  constructor
  · rw [List.length_append]
    exact Nat.le_add_right _ _
  · rwa [List.take_left]

theorem exists_error_iff {ε α : Type} {x : Except ε α} : (∃ e, x = .error e) ↔ ¬∃ a, x = .ok a := by
  cases x <;> simp

/-- The decoder accepts exactly its grammar, at the root item of depth 0 down to depth 16. -/
theorem cborDecodeFirst_accepts_exactly (buf : Bytes) :
    (∀ value stop, cborDecodeFirst buf = .ok ⟨value, stop⟩ ↔
      stop ≤ buf.length ∧ Encodes (CBOR_MAX_DEPTH + 1) value (buf.take stop)) ∧
    ((∃ error, cborDecodeFirst buf = .error error) ↔
      ¬∃ value stop, stop ≤ buf.length ∧ Encodes (CBOR_MAX_DEPTH + 1) value (buf.take stop)) ∧
    (∀ value stop, cborDecodeFirst buf = .ok ⟨value, stop⟩ →
      ∀ after, cborDecodeFirst (buf.take stop ++ after) = .ok ⟨value, stop⟩) ∧
    (∀ item : Item, item.Fits (CBOR_MAX_DEPTH + 1) →
      cborDecodeFirst item.encode = .ok ⟨item.value, item.encode.length⟩) ∧
    ∀ pairs, (scalarKeys (mapOf pairs)).Nodup ∧ ∀ key, lookup key (mapOf pairs) = lookup key pairs := by
  refine ⟨fun _ _ => cborDecodeFirst_eq_ok, ?_, ?_, ?_, ?_⟩
  · rw [exists_error_iff, not_iff_not]
    constructor
    · rintro ⟨⟨value, stop⟩, hDecoded⟩
      exact ⟨value, stop, cborDecodeFirst_eq_ok.mp hDecoded⟩
    · rintro ⟨value, stop, hEncodes⟩
      exact ⟨⟨value, stop⟩, cborDecodeFirst_eq_ok.mpr hEncodes⟩
  · intro value stop hDecoded after
    obtain ⟨hStop, hEncodes⟩ := cborDecodeFirst_eq_ok.mp hDecoded
    rw [cborDecodeFirst_append hEncodes, List.length_take_of_le hStop]
  · intro item hFits
    have hDecoded := cborDecodeFirst_append (Item.encodes hFits) []
    rwa [List.append_nil] at hDecoded
  · intro pairs
    exact ⟨nodup_scalarKeys_mapOf pairs, fun key => lookup_mapOf key pairs⟩

end Columbia.Issuer.AppAttest
