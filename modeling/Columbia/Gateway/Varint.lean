import Columbia.Js.Bytes
import Columbia.Lib.Reader

/-! # QUIC variable-length integers

A number takes 1, 2, 4 or 8 bytes; the two top bits of the first byte say how many. `write` picks the shortest form,
`writeWithLen` a given one, and `read` takes whatever form is there. A call of Go code ends with its result, with one
of its errors, or in a panic.
-/
namespace Columbia.Gateway.Varint
open Columbia.Js Columbia.Lib
set_option autoImplicit false

/-- How Go code ends without a result. `endless` is a loop that is still running. -/
inductive Failure
  | EOF
  | errTruncated
  | errProhibitedField
  | errInformationalNotSupported
  | other (message : Bytes)
  | panicked
  | endless
  deriving DecidableEq

def maxVarInt1 : Nat := 63
def maxVarInt2 : Nat := 16383
def maxVarInt4 : Nat := 1073741823
def maxVarInt8 : Nat := 4611686018427387903

def readByte : Bytes → Except Failure (UInt8 × Bytes)
  | [] => .error .EOF
  | b :: rest => .ok (b, rest)

/-- `Read`. -/
def read (b : Bytes) : Except Failure (Nat × Bytes) := do
  let (firstByte, b) ← readByte b
  let len := 1 <<< ((firstByte &&& 0xc0) >>> 6).toNat
  let b1 := (firstByte &&& (0xff - 0xc0)).toNat
  if len = 1 then return (b1, b)
  let (b2, b) ← readByte b
  if len = 2 then return (b2.toNat + b1 <<< 8, b)
  let (b3, b) ← readByte b
  let (b4, b) ← readByte b
  if len = 4 then return (b4.toNat + b3.toNat <<< 8 + b2.toNat <<< 16 + b1 <<< 24, b)
  let (b5, b) ← readByte b
  let (b6, b) ← readByte b
  let (b7, b) ← readByte b
  let (b8, b) ← readByte b
  return (b8.toNat + b7.toNat <<< 8 + b6.toNat <<< 16 + b5.toNat <<< 24 + b4.toNat <<< 32 + b3.toNat <<< 40 +
    b2.toNat <<< 48 + b1 <<< 56, b)

/-- `uint8(i >> shift)`. -/
def byteAt (i shift : Nat) : UInt8 := UInt8.ofNat (i >>> shift)

/-- `Write`, with what it appends to the buffer. -/
def write (i : Nat) : Except Failure Bytes :=
  if i ≤ maxVarInt1 then .ok [byteAt i 0]
  else if i ≤ maxVarInt2 then .ok [byteAt i 8 ||| 0x40, byteAt i 0]
  else if i ≤ maxVarInt4 then .ok [byteAt i 24 ||| 0x80, byteAt i 16, byteAt i 8, byteAt i 0]
  else if i ≤ maxVarInt8 then
    .ok [byteAt i 56 ||| 0xc0, byteAt i 48, byteAt i 40, byteAt i 32, byteAt i 24, byteAt i 16, byteAt i 8, byteAt i 0]
  else .error .panicked

/-- `Len`. -/
def len (i : Nat) : Except Failure Nat :=
  if i ≤ maxVarInt1 then .ok 1
  else if i ≤ maxVarInt2 then .ok 2
  else if i ≤ maxVarInt4 then .ok 4
  else if i ≤ maxVarInt8 then .ok 8
  else .error .panicked

def bigEndian (i l : Nat) : Bytes := (List.range l).map fun j => byteAt i (8 * (l - 1 - j))

/-- The first byte of a number that is written longer than it needs to be. -/
def longForm (length : Nat) : Bytes :=
  if length = 2 then [0x40] else if length = 4 then [0x80] else if length = 8 then [0xc0] else []

/-- `WriteWithLen`. -/
def writeWithLen (i length : Nat) : Except Failure Bytes := do
  if length ≠ 1 ∧ length ≠ 2 ∧ length ≠ 4 ∧ length ≠ 8 then throw .panicked
  let l ← len i
  if l = length then write i
  else if length < l then throw .panicked
  else return longForm length ++ List.replicate (length - l - 1) 0 ++ bigEndian i l

/-! ## Reading -/

/-- `v` in `2 ^ k` bytes, which say so in their first two bits. -/
def Form (k v : Nat) (front : Bytes) : Prop :=
  front.length = 2 ^ k ∧ v < 2 ^ (8 * 2 ^ k - 2) ∧ integerOf front = k * 2 ^ (8 * 2 ^ k - 2) + v

def Encodes (v : Nat) (front : Bytes) : Prop := ∃ k < 4, Form k v front

theorem topBits (b : UInt8) : ((b &&& 0xc0) >>> 6).toNat = b.toNat / 64 := by
  have hBound := b.toNat_lt
  rw [UInt8.toNat_shiftRight, UInt8.toNat_and]
  change (b.toNat &&& 192) >>> 6 = _
  rw [Nat.shiftRight_and_distrib]
  change b.toNat >>> 6 &&& 2 ^ 2 - 1 = _
  rw [Nat.and_two_pow_sub_one_eq_mod, Nat.shiftRight_eq_div_pow]
  omega

theorem lowBits (b : UInt8) : (b &&& (0xff - 0xc0)).toNat = b.toNat % 64 := by
  rw [UInt8.toNat_and]
  change b.toNat &&& 2 ^ 6 - 1 = _
  rw [Nat.and_two_pow_sub_one_eq_mod]

/-- The rest of a number, by the first byte that announces it. -/
def readRest (first : UInt8) (b : Bytes) : Except Failure (Nat × Bytes) := do
  let (more, b) ← readExactly (2 ^ (first.toNat / 64) - 1) .EOF b
  return (first.toNat % 64 * 256 ^ more.length + integerOf more, b)

theorem read_cons (first : UInt8) (rest : Bytes) : read (first :: rest) = readRest first rest := by
  have hBound := first.toNat_lt
  simp only [read, readByte, readRest, topBits, lowBits, Nat.shiftLeft_eq, bind, Except.bind, pure, Except.pure]
  obtain h | h | h | h : first.toNat / 64 = 0 ∨ first.toNat / 64 = 1 ∨ first.toNat / 64 = 2 ∨ first.toNat / 64 = 3 := by
    omega
  all_goals rw [h]
  · have hMore : readExactly (2 ^ 0 - 1) Failure.EOF rest = .ok ([], rest) := readExactly_eq_ok.mpr ⟨rfl, rfl⟩
    rw [hMore]
    simp [integerOf_nil]
  · rcases rest with _ | ⟨b2, rest⟩
    · simp [readExactly]
    · have hMore : readExactly (2 ^ 1 - 1) Failure.EOF (b2 :: rest) = .ok ([b2], rest) :=
        readExactly_eq_ok.mpr ⟨rfl, rfl⟩
      rw [hMore]
      simp [integerOf_cons, integerOf_nil]
      omega
  · rcases rest with _ | ⟨b2, _ | ⟨b3, _ | ⟨b4, rest⟩⟩⟩
    · simp [readExactly]
    · simp [readExactly]
    · simp [readExactly]
    · have hMore : readExactly (2 ^ 2 - 1) Failure.EOF (b2 :: b3 :: b4 :: rest) = .ok ([b2, b3, b4], rest) :=
        readExactly_eq_ok.mpr ⟨rfl, rfl⟩
      rw [hMore]
      simp [integerOf_cons, integerOf_nil]
      omega
  · rcases rest with _ | ⟨b2, _ | ⟨b3, _ | ⟨b4, _ | ⟨b5, _ | ⟨b6, _ | ⟨b7, _ | ⟨b8, rest⟩⟩⟩⟩⟩⟩⟩
    · simp [readExactly]
    · simp [readExactly]
    · simp [readExactly]
    · simp [readExactly]
    · simp [readExactly]
    · simp [readExactly]
    · simp [readExactly]
    · have hMore : readExactly (2 ^ 3 - 1) Failure.EOF (b2 :: b3 :: b4 :: b5 :: b6 :: b7 :: b8 :: rest) =
          .ok ([b2, b3, b4, b5, b6, b7, b8], rest) := readExactly_eq_ok.mpr ⟨rfl, rfl⟩
      rw [hMore]
      simp [integerOf_cons, integerOf_nil]
      omega

theorem pow_form (k : Nat) : 2 ^ (8 * 2 ^ k - 2) = 64 * 256 ^ (2 ^ k - 1) := by
  have hPos := Nat.two_pow_pos k
  have hExponent : 8 * 2 ^ k - 2 = 6 + 8 * (2 ^ k - 1) := by omega
  rw [hExponent, pow_add, pow_mul]
  rfl

/-- A number below `64 * scale` and the multiple of it that it is added to. -/
theorem split_unique {first k v more scale : Nat} (hMore : more < scale) :
    (v < 64 * scale ∧ first * scale + more = k * (64 * scale) + v) ↔
      first / 64 = k ∧ v = first % 64 * scale + more := by
  have hFirst : (first % 64 * scale + more) + 64 * scale * (first / 64) = first * scale + more := by
    calc (first % 64 * scale + more) + 64 * scale * (first / 64)
        = (64 * (first / 64) + first % 64) * scale + more := by ring
      _ = first * scale + more := by rw [Nat.div_add_mod]
  have hSmall : first % 64 * scale + more < 64 * scale := by
    have hLe : first % 64 * scale ≤ 63 * scale := Nat.mul_le_mul_right scale (by omega)
    omega
  have hPos : 0 < 64 * scale := by omega
  obtain ⟨hDiv, hMod⟩ := (Nat.div_mod_unique hPos).mpr ⟨hFirst, hSmall⟩
  constructor
  · rintro ⟨hBound, hValue⟩
    have hSum : v + 64 * scale * k = first * scale + more := by rw [hValue]; ring
    obtain ⟨hDiv', hMod'⟩ := (Nat.div_mod_unique hPos).mpr ⟨hSum, hBound⟩
    exact ⟨hDiv.symm.trans hDiv', hMod'.symm.trans hMod⟩
  · rintro ⟨rfl, rfl⟩
    exact ⟨hSmall, by rw [← hFirst]; ring⟩

theorem form_cons {k v : Nat} {first : UInt8} {more : Bytes} : Form k v (first :: more) ↔
    more.length = 2 ^ k - 1 ∧ first.toNat / 64 = k ∧ v = first.toNat % 64 * 256 ^ more.length + integerOf more := by
  have hPos := Nat.two_pow_pos k
  have hLength : (first :: more).length = 2 ^ k ↔ more.length = 2 ^ k - 1 := by
    rw [List.length_cons]
    omega
  rw [Form, hLength, pow_form, integerOf_cons]
  refine and_congr_right fun hMore => ?_
  rw [← hMore]
  exact split_unique (integerOf_lt more)

theorem reads_encodes : Reads read Encodes := by
  intro input v rest
  cases input with
  | nil =>
    constructor
    · exact nofun
    · rintro ⟨front, hInput, k, -, hLength, -⟩
      have hPos := Nat.two_pow_pos k
      rw [(List.nil_eq_append_iff.mp hInput).1, List.length_nil] at hLength
      omega
  | cons first input =>
    have hBound := first.toNat_lt
    simp only [read_cons, readRest, bind_eq_ok, readExactly_eq_ok, Prod.exists, pure, Except.pure, Except.ok.injEq,
      Prod.mk.injEq]
    constructor
    · rintro ⟨more, _, ⟨rfl, hMore⟩, hValue, rfl⟩
      refine ⟨first :: more, rfl, first.toNat / 64, by omega, ?_⟩
      exact form_cons.mpr ⟨hMore, rfl, hValue.symm⟩
    · rintro ⟨front, hInput, k, -, hForm⟩
      cases front with
      | nil =>
        have hPos := Nat.two_pow_pos k
        have hLength : 0 = 2 ^ k := hForm.1
        omega
      | cons _ more =>
        cases hInput
        obtain ⟨hMore, rfl, hValue⟩ := form_cons.mp hForm
        exact ⟨more, rest, ⟨rfl, hMore⟩, hValue.symm, rfl⟩

theorem read_raises (input : Bytes) : Raises (read input) (· = .EOF) := by
  cases input with
  | nil =>
    rintro _ ⟨⟩
    rfl
  | cons first rest =>
    rw [read_cons, readRest, readExactly]
    split
    · rintro _ ⟨⟩
      rfl
    · exact raises_ok

/-! ## Writing -/

theorem byteAt_toNat (i shift : Nat) : (byteAt i shift).toNat = i / 2 ^ shift % 256 := by
  rw [byteAt, UInt8.toNat_ofNat', Nat.shiftRight_eq_div_pow]

@[simp] theorem bigEndian_length (i l : Nat) : (bigEndian i l).length = l := by simp [bigEndian]

theorem bigEndian_succ (i l : Nat) : bigEndian i (l + 1) = byteAt i (8 * l) :: bigEndian i l := by
  rw [bigEndian, List.range_succ_eq_map, List.map_cons, List.map_map, bigEndian]
  congr 1
  apply List.map_congr_left
  intro j _
  have hShift : l + 1 - 1 - (j + 1) = l - 1 - j := by omega
  rw [Function.comp_apply, Nat.succ_eq_add_one, hShift]

theorem integerOf_bigEndian (i l : Nat) : integerOf (bigEndian i l) = i % 256 ^ l := by
  induction l with
  | zero => rw [pow_zero, Nat.mod_one]; rfl
  | succ l ih =>
    have hPow : 2 ^ (8 * l) = 256 ^ l := by rw [pow_mul]; rfl
    rw [bigEndian_succ, integerOf_cons, ih, byteAt_toNat, bigEndian_length, Nat.mod_pow_succ, hPow]
    ring

theorem or_toNat {a top : UInt8} {n : Nat} (ha : a.toNat < 2 ^ 6) (hTop : top.toNat = 2 ^ 6 * n) :
    (a ||| top).toNat = a.toNat + 64 * n := by
  rw [UInt8.toNat_or, hTop, Nat.or_comm, ← Nat.two_pow_add_eq_or_of_lt ha]
  omega

/-- The two top bits of a first byte. -/
def topBitsOf (k : Nat) : UInt8 := UInt8.ofNat (64 * k)

theorem topBitsOf_toNat {k : Nat} (hk : k < 4) : (topBitsOf k).toNat = 2 ^ 6 * k := by
  rw [topBitsOf, UInt8.toNat_ofNat']
  omega

/-- The bytes of a number that fits, with the two top bits set. -/
theorem form_or {k i : Nat} (hk : k < 4) (hFits : i < 2 ^ (8 * 2 ^ k - 2)) :
    Form k i ((byteAt i (8 * (2 ^ k - 1)) ||| topBitsOf k) :: bigEndian i (2 ^ k - 1)) := by
  have hPos := Nat.two_pow_pos k
  have hValue := integerOf_bigEndian i (2 ^ k - 1 + 1)
  rw [bigEndian_succ, integerOf_cons, bigEndian_length] at hValue
  have hSmall : i % 256 ^ (2 ^ k - 1 + 1) = i := by
    apply Nat.mod_eq_of_lt
    rw [pow_form] at hFits
    rw [pow_succ]
    omega
  have hFirst : (byteAt i (8 * (2 ^ k - 1))).toNat < 2 ^ 6 := by
    have hDiv : i / 256 ^ (2 ^ k - 1) < 64 := by
      rw [pow_form] at hFits
      exact Nat.div_lt_of_lt_mul (by rwa [Nat.mul_comm] at hFits)
    rw [byteAt_toNat, pow_mul]
    exact (Nat.mod_le _ _).trans_lt hDiv
  have hTop := or_toNat hFirst (topBitsOf_toNat hk)
  rw [hSmall] at hValue
  have hLow : ((byteAt i (8 * (2 ^ k - 1))).toNat + 64 * k) % 64 = (byteAt i (8 * (2 ^ k - 1))).toNat := by omega
  refine form_cons.mpr ⟨bigEndian_length .., by omega, ?_⟩
  rw [hTop, hLow, bigEndian_length]
  exact hValue.symm

/-- A short number behind a first byte that announces more bytes. -/
theorem form_long {k l i : Nat} (hk : k < 4) (hFits : i < 256 ^ l) (hLong : l < 2 ^ k) :
    Form k i (topBitsOf k :: (List.replicate (2 ^ k - l - 1) 0 ++ bigEndian i l)) := by
  have hZeros : ∀ n, integerOf (List.replicate n 0) = 0 := by
    intro n
    induction n with
    | zero => rfl
    | succ n ih => rw [List.replicate_succ, integerOf_zero_cons, ih]
  have hTop := topBitsOf_toNat hk
  refine form_cons.mpr ⟨?_, by omega, ?_⟩
  · rw [List.length_append, List.length_replicate, bigEndian_length]
    omega
  · rw [hTop, integerOf_append, hZeros, integerOf_bigEndian, Nat.mod_eq_of_lt hFits]
    have hRest : 2 ^ 6 * k % 64 = 0 := by omega
    rw [hRest]
    omega

/-- The least `k` such that the number fits into `2 ^ k` bytes. -/
def Shortest (k i : Nat) : Prop := k < 4 ∧ i < 2 ^ (8 * 2 ^ k - 2) ∧ ∀ j, i < 2 ^ (8 * 2 ^ j - 2) → k ≤ j

theorem shortest_of_bounds {k i : Nat} (hk : k < 4) (hFits : i < 2 ^ (8 * 2 ^ k - 2))
    (hLarge : ∀ j < k, 2 ^ (8 * 2 ^ j - 2) ≤ i) : Shortest k i := by
  refine ⟨hk, hFits, fun j hj => ?_⟩
  by_contra hLess
  have := hLarge j (by omega)
  omega

/-- `Len` and `Write` agree: a number up to `maxVarInt8` is written in its shortest form, a larger one panics. -/
theorem write_cases (i : Nat) :
    (maxVarInt8 < i ∧ len i = .error .panicked ∧ write i = .error .panicked) ∨
    ∃ k, Shortest k i ∧ len i = .ok (2 ^ k) ∧
      write i = .ok ((byteAt i (8 * (2 ^ k - 1)) ||| topBitsOf k) :: bigEndian i (2 ^ k - 1)) := by
  have hBelow : ∀ {k n : Nat}, k < 4 → n + 1 = 2 ^ (8 * 2 ^ k - 2) → i ≤ n →
      (∀ j < k, 2 ^ (8 * 2 ^ j - 2) ≤ i) → Shortest k i := fun hk hMax hi hLarge =>
    shortest_of_bounds hk (by omega) hLarge
  have hAbove : ∀ {k n : Nat}, n + 1 = 2 ^ (8 * 2 ^ k - 2) → ¬i ≤ n → ∀ j < k + 1, 2 ^ (8 * 2 ^ j - 2) ≤ i := by
    intro k n hMax hi j hj
    have hPow : 2 ^ j ≤ 2 ^ k := Nat.pow_le_pow_right (by decide) (by omega)
    have hMono : 2 ^ (8 * 2 ^ j - 2) ≤ 2 ^ (8 * 2 ^ k - 2) := Nat.pow_le_pow_right (by decide) (by omega)
    omega
  unfold len write
  by_cases h1 : i ≤ maxVarInt1
  · refine .inr ⟨0, hBelow (by decide) rfl h1 nofun, if_pos h1, ?_⟩
    have hTop : topBitsOf 0 = 0 := rfl
    rw [if_pos h1, hTop, UInt8.or_zero]
    rfl
  rw [if_neg h1, if_neg h1]
  by_cases h2 : i ≤ maxVarInt2
  · exact .inr ⟨1, hBelow (by decide) rfl h2 (hAbove rfl h1), if_pos h2, if_pos h2⟩
  rw [if_neg h2, if_neg h2]
  by_cases h4 : i ≤ maxVarInt4
  · exact .inr ⟨2, hBelow (by decide) rfl h4 (hAbove rfl h2), if_pos h4, if_pos h4⟩
  rw [if_neg h4, if_neg h4]
  by_cases h8 : i ≤ maxVarInt8
  · exact .inr ⟨3, hBelow (by decide) rfl h8 (hAbove rfl h4), if_pos h8, if_pos h8⟩
  · exact .inl ⟨by omega, if_neg h8, if_neg h8⟩

theorem Encodes.le_max {v : Nat} {front : Bytes} (h : Encodes v front) : v ≤ maxVarInt8 := by
  obtain ⟨k, hk, hForm⟩ := h
  have hPow : 2 ^ k ≤ 2 ^ 3 := Nat.pow_le_pow_right (by decide) (by omega)
  have hMax : 2 ^ (8 * 2 ^ k - 2) ≤ 2 ^ 62 := Nat.pow_le_pow_right (by decide) (by omega)
  have hValue := hForm.2.1
  rw [maxVarInt8]
  omega

theorem Form.unique {k v : Nat} {a b : Bytes} (ha : Form k v a) (hb : Form k v b) : a = b :=
  integerOf_injective (ha.1.trans hb.1.symm) (ha.2.2.trans hb.2.2.symm)

theorem encodes_of_length {k i : Nat} {front : Bytes} (hk : k < 4) :
    Encodes i front ∧ front.length = 2 ^ k ↔ Form k i front := by
  constructor
  · rintro ⟨⟨j, -, hForm⟩, hLength⟩
    obtain rfl := Nat.pow_right_injective (le_refl 2) (hForm.1.symm.trans hLength)
    exact hForm
  · intro hForm
    exact ⟨⟨k, hk, hForm⟩, hForm.1⟩

theorem ok_eq_form {k i : Nat} {written front : Bytes} (hForm : Form k i written) :
    (Except.ok written : Except Failure Bytes) = .ok front ↔ Form k i front := by
  rw [Except.ok.injEq]
  constructor
  · rintro rfl
    exact hForm
  · intro h
    exact hForm.unique h

theorem longForm_eq {k : Nat} (hk : k < 4) (hLong : k ≠ 0) : longForm (2 ^ k) = [topBitsOf k] := by
  obtain rfl | rfl | rfl : k = 1 ∨ k = 2 ∨ k = 3 := by omega
  all_goals rfl

theorem writeWithLen_form {k i : Nat} {front : Bytes} (hk : k < 4) :
    writeWithLen i (2 ^ k) = .ok front ↔ Form k i front := by
  have hAllowed : ¬(2 ^ k ≠ 1 ∧ 2 ^ k ≠ 2 ∧ 2 ^ k ≠ 4 ∧ 2 ^ k ≠ 8) := by
    obtain rfl | rfl | rfl | rfl : k = 0 ∨ k = 1 ∨ k = 2 ∨ k = 3 := by omega
    all_goals decide
  unfold writeWithLen
  rw [if_neg hAllowed]
  rcases write_cases i with ⟨hLarge, hLen, -⟩ | ⟨l, ⟨hl, hFits, hLeast⟩, hLen, hWrite⟩
  · rw [hLen]
    refine ⟨nofun, fun hForm => ?_⟩
    have hMax := Encodes.le_max ⟨k, hk, hForm⟩
    omega
  · rw [hLen]
    change (if 2 ^ l = 2 ^ k then write i else if 2 ^ k < 2 ^ l then throw .panicked else pure _) = _ ↔ _
    split
    · rename_i hSame
      obtain rfl := Nat.pow_right_injective (le_refl 2) hSame
      rw [hWrite]
      exact ok_eq_form (form_or hl hFits)
    · rename_i hOther
      split
      · rename_i hShort
        refine ⟨nofun, fun hForm => ?_⟩
        have hPow : 2 ^ l ≤ 2 ^ k := Nat.pow_le_pow_right (by decide) (hLeast k hForm.2.1)
        omega
      · rename_i hLong
        have hLess : 2 ^ l < 2 ^ k := by omega
        have hPos := Nat.two_pow_pos l
        have hNonzero : k ≠ 0 := by
          rintro rfl
          omega
        have hBytes : i < 256 ^ 2 ^ l := by
          refine hFits.trans_le ?_
          calc 2 ^ (8 * 2 ^ l - 2) ≤ 2 ^ (8 * 2 ^ l) := Nat.pow_le_pow_right (by decide) (by omega)
            _ = 256 ^ 2 ^ l := by rw [pow_mul]; rfl
        rw [longForm_eq hk hNonzero]
        exact ok_eq_form (form_long hk hBytes hLess)

/-- `WriteWithLen` writes a number in the form of that length, if there is one, and panics otherwise. -/
theorem writeWithLen_eq_ok (i length : Nat) (front : Bytes) :
    writeWithLen i length = .ok front ↔ Encodes i front ∧ front.length = length := by
  by_cases hLength : ∃ k < 4, length = 2 ^ k
  · obtain ⟨k, hk, rfl⟩ := hLength
    rw [writeWithLen_form hk, encodes_of_length hk]
  · have hRefused : length ≠ 1 ∧ length ≠ 2 ∧ length ≠ 4 ∧ length ≠ 8 := by
      refine ⟨?_, ?_, ?_, ?_⟩ <;> rintro rfl
      · exact hLength ⟨0, by decide, rfl⟩
      · exact hLength ⟨1, by decide, rfl⟩
      · exact hLength ⟨2, by decide, rfl⟩
      · exact hLength ⟨3, by decide, rfl⟩
    unfold writeWithLen
    rw [if_pos hRefused]
    constructor
    · exact nofun
    · rintro ⟨⟨k, hk, hForm⟩, rfl⟩
      exact absurd ⟨k, hk, hForm.1⟩ hLength

theorem write_raises (i : Nat) : Raises (write i) (· = .panicked) := by
  obtain ⟨-, -, hWrite⟩ | ⟨k, -, -, hWrite⟩ := write_cases i <;> rw [hWrite]
  · exact raises_error rfl
  · exact raises_ok

/-- `Write` and `Len` pick the shortest of the forms, and panic where there is none. -/
theorem write_eq_ok (i : Nat) (front : Bytes) :
    write i = .ok front ↔ Encodes i front ∧ len i = .ok front.length := by
  obtain ⟨hLarge, hLen, hWrite⟩ | ⟨k, ⟨hk, hFits, -⟩, hLen, hWrite⟩ := write_cases i
  · rw [hLen, hWrite]
    exact ⟨nofun, fun h => nomatch h.2⟩
  · rw [hLen, hWrite, ok_eq_form (form_or hk hFits), ← encodes_of_length hk, Except.ok.injEq, eq_comm (a := 2 ^ k)]

/-- `Write` panics where there is no form. -/
theorem write_panics_iff (i : Nat) : write i = .error .panicked ↔ ∀ front, ¬Encodes i front := by
  obtain ⟨hLarge, -, hWrite⟩ | ⟨k, ⟨hk, hFits, -⟩, -, hWrite⟩ := write_cases i
  · rw [hWrite]
    refine ⟨fun _ front hFront => ?_, fun _ => rfl⟩
    have hMax := hFront.le_max
    omega
  · rw [hWrite]
    exact ⟨nofun, fun hNone => absurd ⟨k, hk, form_or hk hFits⟩ (hNone _)⟩

/-- `Read` takes a front part exactly when `WriteWithLen` writes it, and `Write` writes the shortest of these, and
panics where there is none. -/
theorem read_takes_what_is_written (input : Bytes) (v : Nat) (rest : Bytes) :
    (read input = .ok (v, rest) ↔ ∃ front, input = front ++ rest ∧ writeWithLen v front.length = .ok front) ∧
    (∀ front, write v = .ok front ↔ writeWithLen v front.length = .ok front ∧
      ∀ other, writeWithLen v other.length = .ok other → front.length ≤ other.length) ∧
    (write v = .error .panicked ↔ ∀ front, writeWithLen v front.length ≠ .ok front) := by
  have hOwn : ∀ front : Bytes, writeWithLen v front.length = .ok front ↔ Encodes v front := fun front => by
    rw [writeWithLen_eq_ok, and_iff_left rfl]
  refine ⟨?_, ?_, ?_⟩
  · rw [reads_encodes input v rest]
    exact exists_congr fun front => and_congr_right fun _ => (hOwn front).symm
  · intro front
    rw [hOwn, write_eq_ok]
    apply and_congr_right
    intro hFront
    simp only [hOwn]
    obtain ⟨hLarge, -, -⟩ | ⟨k, hShortest, hLen, -⟩ := write_cases v
    · exact absurd hFront.le_max (by omega)
    · rw [hLen, Except.ok.injEq]
      constructor
      · rintro hLength other ⟨j, -, hOther⟩
        rw [← hLength, hOther.1]
        exact Nat.pow_le_pow_right (by decide) (hShortest.2.2 j hOther.2.1)
      · intro hLeast
        obtain ⟨j, -, hForm⟩ := hFront
        have hShort := form_or hShortest.1 hShortest.2.1
        have hLe := hLeast _ ⟨k, hShortest.1, hShort⟩
        have hGe : 2 ^ k ≤ 2 ^ j := Nat.pow_le_pow_right (by decide) (hShortest.2.2 j hForm.2.1)
        rw [hShort.1] at hLe
        rw [hForm.1] at hLe ⊢
        omega
  · rw [write_panics_iff]
    exact forall_congr' fun front => not_congr (hOwn front).symm

end Columbia.Gateway.Varint
