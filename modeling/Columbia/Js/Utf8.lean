import Columbia.Js.Value

/-! # UTF-8 as node reads and writes it

The decoder is lenient: a byte sequence that is no character becomes U+FFFD, one for each maximal front part of
a character. The encoder writes an unpaired surrogate as U+FFFD.
-/
namespace Columbia.Js
set_option autoImplicit false

def units (n : Nat) : Str :=
  if n < 0x10000 then [UInt16.ofNat n]
  else [UInt16.ofNat (0xd800 + (n - 0x10000) / 0x400), UInt16.ofNat (0xdc00 + (n - 0x10000) % 0x400)]

/-- What a lead byte announces: continuation bytes, the range of the first of them, and its own bits. -/
def lead? (b : UInt8) : Option (Nat × UInt8 × UInt8 × Nat) :=
  if 0xc2 ≤ b ∧ b ≤ 0xdf then some (1, 0x80, 0xbf, b.toNat - 0xc0)
  else if b = 0xe0 then some (2, 0xa0, 0xbf, 0)
  else if b = 0xed then some (2, 0x80, 0x9f, 13)
  else if 0xe1 ≤ b ∧ b ≤ 0xef then some (2, 0x80, 0xbf, b.toNat - 0xe0)
  else if b = 0xf0 then some (3, 0x90, 0xbf, 0)
  else if 0xf1 ≤ b ∧ b ≤ 0xf3 then some (3, 0x80, 0xbf, b.toNat - 0xf0)
  else if b = 0xf4 then some (3, 0x80, 0x8f, 4)
  else none

/-- The rest of a character, and the input after what was read of it. -/
def continuation : Nat → UInt8 → UInt8 → Nat → Bytes → Option Nat × Bytes
  | 0, _, _, acc, rest => (some acc, rest)
  | need + 1, low, high, acc, b :: rest =>
    if low ≤ b ∧ b ≤ high then continuation need 0x80 0xbf (acc * 64 + b.toNat % 64) rest else (none, b :: rest)
  | _ + 1, _, _, _, [] => (none, [])

def utf8DecodeWithin : Nat → Bytes → Str
  | 0, _ | _, [] => []
  | fuel + 1, b :: rest =>
    if b < 0x80 then UInt16.ofNat b.toNat :: utf8DecodeWithin fuel rest
    else match lead? b with
      | none => 0xfffd :: utf8DecodeWithin fuel rest
      | some (need, low, high, acc) =>
        match continuation need low high acc rest with
        | (some n, rest) => units n ++ utf8DecodeWithin fuel rest
        | (none, rest) => 0xfffd :: utf8DecodeWithin fuel rest

/-- `toString('utf8')`. -/
def utf8Decode (bytes : Bytes) : Str := utf8DecodeWithin bytes.length bytes

def utf8Point (n : Nat) : Bytes :=
  if n < 0x80 then [UInt8.ofNat n]
  else if n < 0x800 then [UInt8.ofNat (0xc0 + n / 64), UInt8.ofNat (0x80 + n % 64)]
  else if n < 0x10000 then
    [UInt8.ofNat (0xe0 + n / 4096), UInt8.ofNat (0x80 + n / 64 % 64), UInt8.ofNat (0x80 + n % 64)]
  else
    [UInt8.ofNat (0xf0 + n / 262144), UInt8.ofNat (0x80 + n / 4096 % 64), UInt8.ofNat (0x80 + n / 64 % 64),
      UInt8.ofNat (0x80 + n % 64)]

def utf8Unit (c : UInt16) : Bytes := utf8Point (if 0xd800 ≤ c ∧ c ≤ 0xdfff then 0xfffd else c.toNat)

def utf8Encode : Str → Bytes
  | [] => []
  | [c] => utf8Unit c
  | c :: d :: rest =>
    if (0xd800 ≤ c ∧ c ≤ 0xdbff) ∧ (0xdc00 ≤ d ∧ d ≤ 0xdfff) then
      utf8Point (0x10000 + (c.toNat - 0xd800) * 0x400 + (d.toNat - 0xdc00)) ++ utf8Encode rest
    else utf8Unit c ++ utf8Encode (d :: rest)

/-- `isWellFormed`: no surrogate stands alone. -/
def isWellFormed : Str → Bool
  | [] => true
  | [c] => !(0xd800 ≤ c ∧ c ≤ 0xdfff)
  | c :: d :: rest =>
    if (0xd800 ≤ c ∧ c ≤ 0xdbff) ∧ (0xdc00 ≤ d ∧ d ≤ 0xdfff) then isWellFormed rest
    else !(0xd800 ≤ c ∧ c ≤ 0xdfff) && isWellFormed (d :: rest)

theorem utf8Unit_ascii {c : UInt16} (h : c.toNat < 0x80) : utf8Unit c = [UInt8.ofNat c.toNat] := by
  have hPlain : ¬(0xd800 ≤ c ∧ c ≤ 0xdfff) := by
    rintro ⟨hLow, -⟩
    have hLow' : 0xd800 ≤ c.toNat := hLow
    omega
  rw [utf8Unit, if_neg hPlain, utf8Point, if_pos h]

theorem utf8Encode_ascii {s : Str} (h : ∀ c ∈ s, c.toNat < 0x80) : utf8Encode s = s.map fun c => UInt8.ofNat c.toNat := by
  fun_induction utf8Encode s with
  | case1 => rfl
  | case2 c => exact utf8Unit_ascii (h c List.mem_cons_self)
  | case3 c d rest hPair _ =>
    have hSmall := h c List.mem_cons_self
    have hLow : 0xd800 ≤ c.toNat := hPair.1.1
    omega
  | case4 c d rest _ ih =>
    rw [utf8Unit_ascii (h c List.mem_cons_self), ih fun x hx => h x (List.mem_cons_of_mem _ hx)]
    rfl

/-! ## Reading what was written -/

theorem lead?_two {k : Nat} (hLow : 2 ≤ k) (hHigh : k < 32) :
    lead? (UInt8.ofNat (0xc0 + k)) = some (1, 0x80, 0xbf, k) :=
  ((by decide : ∀ k < 32, k < 2 ∨ lead? (UInt8.ofNat (0xc0 + k)) = some (1, 0x80, 0xbf, k)) k hHigh).resolve_left
    (by omega)

theorem lead?_three {k : Nat} (h : k < 16) : lead? (UInt8.ofNat (0xe0 + k)) =
    some (2, if k = 0 then 0xa0 else 0x80, if k = 13 then 0x9f else 0xbf, k) :=
  (by decide : ∀ k < 16, lead? (UInt8.ofNat (0xe0 + k)) =
    some (2, if k = 0 then 0xa0 else 0x80, if k = 13 then 0x9f else 0xbf, k)) k h

theorem lead?_four {k : Nat} (h : k < 5) : lead? (UInt8.ofNat (0xf0 + k)) =
    some (3, if k = 0 then 0x90 else 0x80, if k = 4 then 0x8f else 0xbf, k) :=
  (by decide : ∀ k < 5, lead? (UInt8.ofNat (0xf0 + k)) =
    some (3, if k = 0 then 0x90 else 0x80, if k = 4 then 0x8f else 0xbf, k)) k h

theorem continuation_cons (need : Nat) {low high : UInt8} (acc m : Nat) (rest : Bytes)
    (hLow : low.toNat ≤ 0x80 + m % 64) (hHigh : 0x80 + m % 64 ≤ high.toNat) :
    continuation (need + 1) low high acc (UInt8.ofNat (0x80 + m % 64) :: rest) =
      continuation need 0x80 0xbf (acc * 64 + m % 64) rest := by
  have hByte : (UInt8.ofNat (0x80 + m % 64)).toNat = 0x80 + m % 64 := by
    rw [UInt8.toNat_ofNat']
    omega
  have hRange : low ≤ UInt8.ofNat (0x80 + m % 64) ∧ UInt8.ofNat (0x80 + m % 64) ≤ high := by
    rw [UInt8.le_iff_toNat_le, UInt8.le_iff_toNat_le, hByte]
    exact ⟨hLow, hHigh⟩
  have hBits : (0x80 + m % 64) % 64 = m % 64 := by omega
  rw [continuation, if_pos hRange, hByte, hBits]

theorem continuation_next (need acc m : Nat) (rest : Bytes) :
    continuation (need + 1) 0x80 0xbf acc (UInt8.ofNat (0x80 + m % 64) :: rest) =
      continuation need 0x80 0xbf (acc * 64 + m % 64) rest := by
  apply continuation_cons
  · exact Nat.le_add_right _ _
  · change 0x80 + m % 64 ≤ 0xbf
    omega

theorem utf8DecodeWithin_lead (fuel : Nat) {b : UInt8} (h : 0x80 ≤ b.toNat) {need : Nat} {low high : UInt8}
    {acc n : Nat} {bytes rest : Bytes} (hLead : lead? b = some (need, low, high, acc))
    (hRest : continuation need low high acc bytes = (some n, rest)) :
    utf8DecodeWithin (fuel + 1) (b :: bytes) = units n ++ utf8DecodeWithin fuel rest := by
  have hLarge : ¬b < 0x80 := by
    rw [UInt8.lt_iff_toNat_lt]
    exact Nat.not_lt.mpr h
  simp only [utf8DecodeWithin, if_neg hLarge, hLead, hRest]

/-- The decoder reads a scalar value as the encoder has written it. -/
theorem utf8DecodeWithin_point (fuel : Nat) {n : Nat} (hMax : n < 0x110000) (hScalar : ¬(0xd800 ≤ n ∧ n ≤ 0xdfff))
    (rest : Bytes) : utf8DecodeWithin (fuel + 1) (utf8Point n ++ rest) = units n ++ utf8DecodeWithin fuel rest := by
  have hByte : ∀ {m : Nat}, m < 256 → (UInt8.ofNat m).toNat = m := fun hm => by
    rw [UInt8.toNat_ofNat', Nat.mod_eq_of_lt hm]
  unfold utf8Point
  split
  · rename_i hAscii
    have hSmall : UInt8.ofNat n < 0x80 := by
      rw [UInt8.lt_iff_toNat_lt, hByte (by omega)]
      exact hAscii
    have hUnits : units n = [UInt16.ofNat n] := if_pos (by omega)
    rw [List.singleton_append, utf8DecodeWithin, if_pos hSmall, hByte (by omega), hUnits]
    rfl
  split
  · refine utf8DecodeWithin_lead fuel ?_ (lead?_two (by omega) (by omega)) ?_
    · rw [hByte (by omega)]
      omega
    · have hValue : n / 64 * 64 + n % 64 = n := by omega
      change continuation (0 + 1) _ _ _ (_ :: rest) = _
      rw [continuation_next, hValue]
      rfl
  split
  · refine utf8DecodeWithin_lead fuel ?_ (lead?_three (by omega)) ?_
    · rw [hByte (by omega)]
      omega
    · have hValue : (n / 4096 * 64 + n / 64 % 64) * 64 + n % 64 = n := by omega
      change continuation (1 + 1) _ _ _ (_ :: _ :: rest) = _
      rw [continuation_cons, continuation_next, hValue]
      · rfl
      · split
        · change 0xa0 ≤ _
          omega
        · exact Nat.le_add_right _ _
      · split
        · change _ ≤ 0x9f
          omega
        · change _ ≤ 0xbf
          omega
  · refine utf8DecodeWithin_lead fuel ?_ (lead?_four (by omega)) ?_
    · rw [hByte (by omega)]
      omega
    · have hValue : ((n / 262144 * 64 + n / 4096 % 64) * 64 + n / 64 % 64) * 64 + n % 64 = n := by omega
      change continuation (2 + 1) _ _ _ (_ :: _ :: _ :: rest) = _
      rw [continuation_cons, continuation_next, continuation_next, hValue]
      · rfl
      · split
        · change 0x90 ≤ _
          omega
        · exact Nat.le_add_right _ _
      · split
        · change _ ≤ 0x8f
          omega
        · change _ ≤ 0xbf
          omega

theorem utf8Point_length_pos (n : Nat) : 0 < (utf8Point n).length := by
  unfold utf8Point
  split_ifs <;> exact Nat.succ_pos _

theorem fuel_after_point {n fuel : Nat} {b : Bytes} (h : (utf8Point n ++ b).length ≤ fuel) :
    ∃ less, fuel = less + 1 ∧ b.length ≤ less := by
  have hPos := utf8Point_length_pos n
  rw [List.length_append] at h
  exact ⟨fuel - 1, by omega, by omega⟩

theorem utf8DecodeWithin_unit (fuel : Nat) {c : UInt16} (h : ¬(0xd800 ≤ c ∧ c ≤ 0xdfff)) (rest : Bytes) :
    utf8DecodeWithin (fuel + 1) (utf8Unit c ++ rest) = c :: utf8DecodeWithin fuel rest := by
  have hBound := c.toNat_lt
  have hUnits : units c.toNat = [c] := by
    rw [units, if_pos hBound, UInt16.ofNat_toNat]
  rw [utf8Unit, if_neg h, utf8DecodeWithin_point (n := c.toNat) fuel (by omega) h, hUnits]
  rfl

theorem units_pair {c d : UInt16} (hc : 0xd800 ≤ c ∧ c ≤ 0xdbff) (hd : 0xdc00 ≤ d ∧ d ≤ 0xdfff) :
    units (0x10000 + (c.toNat - 0xd800) * 0x400 + (d.toNat - 0xdc00)) = [c, d] := by
  have hHigh : 0xd800 ≤ c.toNat ∧ c.toNat ≤ 0xdbff := hc
  have hLow : 0xdc00 ≤ d.toNat ∧ d.toNat ≤ 0xdfff := hd
  have hFirst : 0xd800 + (0x10000 + (c.toNat - 0xd800) * 0x400 + (d.toNat - 0xdc00) - 0x10000) / 0x400 = c.toNat := by
    omega
  have hSecond : 0xdc00 + (0x10000 + (c.toNat - 0xd800) * 0x400 + (d.toNat - 0xdc00) - 0x10000) % 0x400 = d.toNat := by
    omega
  rw [units, if_neg (by omega), hFirst, hSecond, UInt16.ofNat_toNat, UInt16.ofNat_toNat]

theorem utf8DecodeWithin_utf8Encode {s : Str} (h : isWellFormed s = true) {fuel : Nat}
    (hFuel : (utf8Encode s).length ≤ fuel) : utf8DecodeWithin fuel (utf8Encode s) = s := by
  fun_induction utf8Encode s generalizing fuel with
  | case1 => cases fuel <;> rfl
  | case2 c =>
    have hPlain : ¬(0xd800 ≤ c ∧ c ≤ 0xdfff) := by
      simpa only [isWellFormed, Bool.not_eq_true', decide_eq_false_iff_not] using h
    have hOne : (utf8Unit c ++ []).length ≤ fuel := by rwa [List.append_nil]
    obtain ⟨less, rfl, -⟩ := fuel_after_point hOne
    have hRead := utf8DecodeWithin_unit less hPlain []
    rw [List.append_nil] at hRead
    rw [hRead]
    cases less <;> rfl
  | case3 c d rest hPair ih =>
    rw [isWellFormed, if_pos hPair] at h
    obtain ⟨less, rfl, hLess⟩ := fuel_after_point hFuel
    have hHigh : 0xd800 ≤ c.toNat ∧ c.toNat ≤ 0xdbff := hPair.1
    have hLow : 0xdc00 ≤ d.toNat ∧ d.toNat ≤ 0xdfff := hPair.2
    rw [utf8DecodeWithin_point less (by omega) (by omega), units_pair hPair.1 hPair.2, ih h hLess]
    rfl
  | case4 c d rest hPair ih =>
    rw [isWellFormed, if_neg hPair, Bool.and_eq_true] at h
    have hPlain : ¬(0xd800 ≤ c ∧ c ≤ 0xdfff) := by
      simpa only [Bool.not_eq_true', decide_eq_false_iff_not] using h.1
    obtain ⟨less, rfl, hLess⟩ := fuel_after_point hFuel
    rw [utf8DecodeWithin_unit less hPlain, ih h.2 hLess]

/-- Text in which no surrogate stands alone is read as it was written. -/
theorem utf8Decode_utf8Encode {s : Str} (h : isWellFormed s = true) : utf8Decode (utf8Encode s) = s :=
  utf8DecodeWithin_utf8Encode h le_rfl

theorem isWellFormed_cons {c : UInt16} (h : ¬(0xd800 ≤ c ∧ c ≤ 0xdfff)) (rest : Str) :
    isWellFormed (c :: rest) = isWellFormed rest := by
  cases rest with
  | nil => simp only [isWellFormed, h, decide_false, Bool.not_false]
  | cons d rest =>
    have hSingle : ¬((0xd800 ≤ c ∧ c ≤ 0xdbff) ∧ (0xdc00 ≤ d ∧ d ≤ 0xdfff)) := fun hPair =>
      h ⟨hPair.1.1, UInt16.le_trans hPair.1.2 (by decide)⟩
    simp only [isWellFormed, if_neg hSingle, h, decide_false, Bool.not_false, Bool.true_and]

theorem isWellFormed_units {n : Nat} (hMax : n < 0x110000) (hScalar : ¬(0xd800 ≤ n ∧ n ≤ 0xdfff)) (rest : Str) :
    isWellFormed (units n ++ rest) = isWellFormed rest := by
  unfold units
  split
  · apply isWellFormed_cons
    rwa [UInt16.le_iff_toNat_le, UInt16.le_iff_toNat_le, UInt16.toNat_ofNat', Nat.mod_eq_of_lt (by omega)]
  · have hPair : (0xd800 ≤ UInt16.ofNat (0xd800 + (n - 0x10000) / 0x400) ∧
        UInt16.ofNat (0xd800 + (n - 0x10000) / 0x400) ≤ 0xdbff) ∧
        (0xdc00 ≤ UInt16.ofNat (0xdc00 + (n - 0x10000) % 0x400) ∧
          UInt16.ofNat (0xdc00 + (n - 0x10000) % 0x400) ≤ 0xdfff) := by
      simp only [UInt16.le_iff_toNat_le, UInt16.toNat_ofNat']
      change (0xd800 ≤ _ ∧ _ ≤ 0xdbff) ∧ (0xdc00 ≤ _ ∧ _ ≤ 0xdfff)
      omega
    exact if_pos hPair

/-- A literal has no surrogates of its own. -/
theorem isWellFormed_str (s : String) : isWellFormed (str s) = true := by
  unfold str
  induction s.toList with
  | nil => rfl
  | cons c rest ih =>
    have hValid : c.toNat < 0xd800 ∨ 0xdfff < c.toNat ∧ c.toNat < 0x110000 := c.valid
    rw [List.flatMap_cons, ← ih]
    exact isWellFormed_units (by omega) (by omega) _

end Columbia.Js
