import Columbia.Js.Value

/-! # Base64 as node reads and writes it

The decoder takes both alphabets, skips characters of neither, ends at the first `=` and drops a last
symbol that makes no byte. It reads the low byte of every unit of the string. `base64url` is read by the same decoder.
-/
namespace Columbia.Js
set_option autoImplicit false

def sextet? (c : UInt16) : Option Nat :=
  if upper c then some (c.toNat - 65)
  else if lower c then some (c.toNat - 71)
  else if digit c then some (c.toNat + 4)
  else if c = 43 ∨ c = 45 then some 62
  else if c = 47 ∨ c = 95 then some 63
  else none

def symbol (n : Nat) : UInt16 :=
  UInt16.ofNat (if n < 26 then n + 65 else if n < 52 then n + 71 else if n < 62 then n - 4 else if n = 62 then 43 else 47)

def decodeSextets : List Nat → Bytes
  | a :: b :: c :: d :: rest =>
    UInt8.ofNat (a * 4 + b / 16) :: UInt8.ofNat (b % 16 * 16 + c / 4) :: UInt8.ofNat (c % 4 * 64 + d) ::
      decodeSextets rest
  | [a, b, c] => [UInt8.ofNat (a * 4 + b / 16), UInt8.ofNat (b % 16 * 16 + c / 4)]
  | [a, b] => [UInt8.ofNat (a * 4 + b / 16)]
  | _ => []

def lowByte (c : UInt16) : UInt16 := c &&& 0xFF

/-- `Buffer.from(s, 'base64')`. -/
def base64Decode (s : Str) : Bytes := decodeSextets (((s.map lowByte).takeWhile (· ≠ 61)).filterMap sextet?)

def encodeSextets : Bytes → List Nat
  | a :: b :: c :: rest =>
    a.toNat / 4 :: (a.toNat % 4 * 16 + b.toNat / 16) :: (b.toNat % 16 * 4 + c.toNat / 64) :: c.toNat % 64 ::
      encodeSextets rest
  | [a, b] => [a.toNat / 4, a.toNat % 4 * 16 + b.toNat / 16, b.toNat % 16 * 4]
  | [a] => [a.toNat / 4, a.toNat % 4 * 16]
  | [] => []

def padding (bytes : Bytes) : Str := List.replicate ((3 - bytes.length % 3) % 3) 61

/-- `toString('base64')`. -/
def base64Encode (bytes : Bytes) : Str := (encodeSextets bytes).map symbol ++ padding bytes

theorem encodeSextets_length (bytes : Bytes) : (encodeSextets bytes).length = (4 * bytes.length + 2) / 3 := by
  fun_induction encodeSextets bytes with
  | case1 a b c rest ih =>
    simp only [List.length_cons, ih]
    omega
  | case2 a b => simp
  | case3 a => simp
  | case4 => rfl

theorem base64Encode_length (bytes : Bytes) : (base64Encode bytes).length = 4 * ((bytes.length + 2) / 3) := by
  rw [base64Encode, padding, List.length_append, List.length_map, encodeSextets_length, List.length_replicate]
  omega

theorem sextet?_symbol {n : Nat} (h : n < 64) :
    lowByte (symbol n) = symbol n ∧ sextet? (symbol n) = some n ∧ symbol n ≠ 61 := by
  have hAll : ∀ m : Fin 64, lowByte (symbol m) = symbol m ∧ sextet? (symbol m) = some m.val ∧ symbol m ≠ 61 := by
    decide
  exact hAll ⟨n, h⟩

theorem encodeSextets_lt (bytes : Bytes) : ∀ n ∈ encodeSextets bytes, n < 64 := by
  have hByte : ∀ a : UInt8, a.toNat < 256 := fun a => a.toNat_lt
  fun_induction encodeSextets bytes with
  | case1 a b c rest ih =>
    have ha := hByte a
    have hb := hByte b
    have hc := hByte c
    intro n hn
    simp only [List.mem_cons] at hn
    rcases hn with rfl | rfl | rfl | rfl | hn
    · omega
    · omega
    · omega
    · omega
    · exact ih n hn
  | case2 a b =>
    have ha := hByte a
    have hb := hByte b
    intro n hn
    simp only [List.mem_cons, List.not_mem_nil, or_false] at hn
    omega
  | case3 a =>
    have ha := hByte a
    intro n hn
    simp only [List.mem_cons, List.not_mem_nil, or_false] at hn
    omega
  | case4 => exact fun n hn => nomatch hn

theorem decodeSextets_encodeSextets (bytes : Bytes) : decodeSextets (encodeSextets bytes) = bytes := by
  have hByte : ∀ a : UInt8, a.toNat < 256 := fun a => a.toNat_lt
  have hSame : ∀ (a : UInt8) (n : Nat), n = a.toNat → UInt8.ofNat n = a := by
    rintro a n rfl
    exact UInt8.ofNat_toNat
  fun_induction encodeSextets bytes with
  | case1 a b c rest ih =>
    have ha := hByte a
    have hb := hByte b
    have hc := hByte c
    rw [decodeSextets, ih, hSame a, hSame b, hSame c]
    · omega
    · omega
    · omega
  | case2 a b =>
    have ha := hByte a
    have hb := hByte b
    rw [decodeSextets, hSame a, hSame b]
    · omega
    · omega
  | case3 a =>
    have ha := hByte a
    rw [decodeSextets, hSame a]
    omega
  | case4 => rfl

theorem lowByte_base64Encode (bytes : Bytes) : (base64Encode bytes).map lowByte = base64Encode bytes := by
  have hSymbols : ((encodeSextets bytes).map symbol).map lowByte = (encodeSextets bytes).map symbol := by
    rw [List.map_map]
    refine List.map_congr_left fun n hn => ?_
    exact (sextet?_symbol (encodeSextets_lt bytes n hn)).1
  rw [base64Encode, List.map_append, hSymbols, padding, List.map_replicate]
  rfl

theorem base64Decode_base64Encode (bytes : Bytes) : base64Decode (base64Encode bytes) = bytes := by
  have hLt := encodeSextets_lt bytes
  have hTake : (base64Encode bytes).takeWhile (· ≠ 61) = (encodeSextets bytes).map symbol := by
    have hSymbols : ∀ c ∈ (encodeSextets bytes).map symbol, decide (c ≠ 61) = true := by
      intro c hc
      obtain ⟨n, hn, rfl⟩ := List.mem_map.mp hc
      simpa using (sextet?_symbol (hLt n hn)).2.2
    rw [base64Encode, List.takeWhile_append_of_pos hSymbols]
    unfold padding
    cases (3 - bytes.length % 3) % 3 with
    | zero => simp
    | succ n => simp [List.replicate_succ]
  have hSextets : ((encodeSextets bytes).map symbol).filterMap sextet? = encodeSextets bytes := by
    rw [List.filterMap_map]
    refine (List.filterMap_congr fun n hn => ?_).trans List.filterMap_some
    exact (sextet?_symbol (hLt n hn)).2.1
  rw [base64Decode, lowByte_base64Encode, hTake, hSextets, decodeSextets_encodeSextets]

end Columbia.Js
