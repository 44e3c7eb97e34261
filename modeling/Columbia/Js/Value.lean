import Mathlib.Data.Rat.Defs
import Mathlib.Data.List.Basic

/-! # JavaScript values and node buffers

Strings are sequences of UTF-16 code units, so `length` is the source's `length`.
Numbers are their mathematical values; arithmetic on safe integers is exact and is done in `Int`.
-/
namespace Columbia.Js
set_option autoImplicit false

abbrev Bytes := List UInt8
abbrev Str := List UInt16

/-- Membership in lists of them is decided through these. -/
instance instLawfulBEqBytes : LawfulBEq Bytes := inferInstance
instance instLawfulBEqStr : LawfulBEq Str := inferInstance

def str (s : String) : Str :=
  s.toList.flatMap fun c =>
    if c.toNat < 0x10000 then [UInt16.ofNat c.toNat]
    else [UInt16.ofNat (0xd800 + (c.toNat - 0x10000) / 0x400), UInt16.ofNat (0xdc00 + (c.toNat - 0x10000) % 0x400)]

/-- The decimal digits of a natural number. -/
def digitsOf (n : Nat) : Str := (Nat.toDigits 10 n).map fun c => UInt16.ofNat c.toNat

def lower (c : UInt16) : Bool := 97 ≤ c ∧ c ≤ 122
def upper (c : UInt16) : Bool := 65 ≤ c ∧ c ≤ 90
def digit (c : UInt16) : Bool := 48 ≤ c ∧ c ≤ 57

/-- `[A-Za-z0-9]` and `[A-Za-z0-9_]`. -/
def alphanumeric (c : UInt16) : Bool := lower c || upper c || digit c
def word (c : UInt16) : Bool := alphanumeric c || c = 95

/-- `toLowerCase` on the letters whose lower case is in `[a-z]`: the capitals and the Kelvin sign. All other
letters have lower cases outside of it. -/
def toLowerCase (s : Str) : Str := s.map fun c => if upper c then c + 32 else if c = 0x212a then 107 else c

def whitespace (c : UInt16) : Bool :=
  c = 0x20 ∨ (9 ≤ c ∧ c ≤ 13) ∨ c = 0xa0 ∨ c = 0x1680 ∨ (0x2000 ≤ c ∧ c ≤ 0x200a) ∨ c = 0x2028 ∨ c = 0x2029 ∨
    c = 0x202f ∨ c = 0x205f ∨ c = 0x3000 ∨ c = 0xfeff

def trim (s : Str) : Str := ((s.dropWhile whitespace).reverse.dropWhile whitespace).reverse

inductive Num
  | finite (q : Rat)
  | infinity (negative : Bool)
  | nan
  deriving DecidableEq

/-- A value that `JSON.parse` can return, or `undefined`. -/
inductive Value
  | undefined
  | null
  | bool (b : Bool)
  | num (n : Num)
  | str (s : Str)
  | arr (items : List Value)
  | obj (fields : List (Str × Value))

def int (n : Int) : Value := .num (.finite n)

def maxSafeInteger : Int := 9007199254740991

/-- `Number.isSafeInteger`, with the integer. -/
def safeInteger? : Value → Option Int
  | .num (.finite q) => if q.den = 1 ∧ q.num.natAbs ≤ maxSafeInteger.toNat then some q.num else none
  | _ => none

/-- `Number.isSafeInteger(v) && v >= low`, with the integer. -/
def safeIntegerFrom? (low : Int) (v : Value) : Option Int :=
  (safeInteger? v).bind fun n => if low ≤ n then some n else none

theorem safeInteger?_le {v : Value} {n : Int} (h : safeInteger? v = some n) : n ≤ maxSafeInteger := by
  unfold safeInteger? at h
  split at h
  · split at h
    · rename_i hq
      cases h
      have hBound := hq.2
      rw [maxSafeInteger] at hBound ⊢
      omega
    · cases h
  · cases h

theorem safeIntegerFrom?_eq_some {low n : Int} {v : Value} (h : safeIntegerFrom? low v = some n) :
    low ≤ n ∧ n ≤ maxSafeInteger := by
  obtain ⟨m, hm, hRest⟩ := Option.bind_eq_some_iff.mp h
  split at hRest
  · cases hRest
    exact ⟨‹_›, safeInteger?_le hm⟩
  · cases hRest

theorem one_le_of_safeIntegerFrom? {n : Int} {v : Value} (h : safeIntegerFrom? 1 v = some n) : 1 ≤ n :=
  (safeIntegerFrom?_eq_some h).1

theorem safeIntegerFrom?_int {low n m : Int} (h : safeIntegerFrom? low (int n) = some m) : m = n := by
  obtain ⟨k, hk, hRest⟩ := Option.bind_eq_some_iff.mp h
  have hNum : k = n := by
    simp only [int, safeInteger?] at hk
    split at hk
    · exact (Option.some.inj hk).symm.trans (Rat.num_intCast n)
    · cases hk
  split at hRest
  · exact (Option.some.inj hRest).symm.trans hNum
  · cases hRest

def integer? : Value → Option Int
  | .num (.finite q) => if q.den = 1 then some q.num else none
  | _ => none

@[simp] theorem integer?_int (n : Int) : integer? (int n) = some n := by
  simp [integer?, int]

theorem safeIntegerFrom?_of_le {low n : Int} (hLow : low ≤ n) (hSafe : n.natAbs ≤ maxSafeInteger.toNat) :
    safeIntegerFrom? low (int n) = some n := by
  simp [safeIntegerFrom?, safeInteger?, int, hSafe, hLow]

def string? : Value → Option Str
  | .str s => some s
  | _ => none

/-- `new Error(message)`, or an exception of node's own. -/
inductive Thrown
  | error (message : String)
  | native
  deriving DecidableEq

def Value.truthy : Value → Bool
  | .undefined | .null => false
  | .bool b => b
  | .num (.finite q) => q ≠ 0
  | .num (.infinity _) => true
  | .num .nan => false
  | .str s => s ≠ []
  | .arr _ | .obj _ => true

/-- Property access on a parsed value; every property of a primitive is `undefined` here. -/
def Value.field (name : String) : Value → Value
  | .obj fields => ((fields.find? fun f => f.1 = Js.str name).map Prod.snd).getD .undefined
  | _ => .undefined

def orInt (a b : Int) : Int := if a = 0 then b else a

def hexDigit (n : Nat) : UInt16 := UInt16.ofNat (if n < 10 then 48 + n else 87 + n)

def hex (bytes : Bytes) : Str := bytes.flatMap fun b => [hexDigit (b.toNat / 16), hexDigit (b.toNat % 16)]

@[simp] theorem hex_length (bytes : Bytes) : (hex bytes).length = 2 * bytes.length := by
  induction bytes with
  | nil => rfl
  | cons b rest ih =>
    change (hex rest).length + 1 + 1 = 2 * (rest.length + 1)
    omega

abbrev Digest := { bytes : Bytes // bytes.length = 32 }

/-! Two stand-ins for hashes, where one is run. -/

def zeroDigest : Digest := ⟨List.replicate 32 0, rfl⟩

def first32 (bytes : Bytes) : Digest := ⟨(bytes ++ List.replicate 32 0).take 32, by simp⟩

theorem hex_digest_length (d : Digest) : (hex d.val).length = 64 := by
  rw [hex_length, d.property]

end Columbia.Js
