import Columbia.Js.Bytes
import Columbia.Js.Utf8
import Columbia.Lib.Reader
import Mathlib.Data.List.Induction
import Mathlib.Data.List.Nodup

/-! # The CBOR subset of App Attest objects

The decoder reads one item from the front of a buffer, at most 17 levels deep. `Encodes` is the grammar: which
byte strings stand for which item. Keys of a decoded map are compared as JavaScript compares them, so only
numbers and strings can be looked up, and a repeated key keeps its first place and its last value.
-/
namespace Columbia.Issuer.AppAttest
open Columbia.Js Columbia.Lib
set_option autoImplicit false

inductive Cbor
  | int (n : Int)
  | bytes (b : Bytes)
  | text (s : Str)
  | array (items : List Cbor)
  | map (entries : List (Cbor × Cbor))

inductive Key
  | int (n : Int)
  | text (s : Str)
  deriving DecidableEq

/-- The keys that equal a number or a string; byte strings, arrays and maps equal only themselves. -/
def Cbor.key? : Cbor → Option Key
  | .int n => some (.int n)
  | .text s => some (.text s)
  | _ => none

def lookup (key : Key) (entries : List (Cbor × Cbor)) : Option Cbor :=
  (entries.reverse.find? fun e => e.1.key? = some key).map Prod.snd

/-- `m.set(k, v)`. -/
def mapSet (m : List (Cbor × Cbor)) (k v : Cbor) : List (Cbor × Cbor) :=
  if k.key?.isSome ∧ m.any (·.1.key? = k.key?) then m.map fun e => if e.1.key? = k.key? then (e.1, v) else e
  else m ++ [(k, v)]

/-- The map that the pairs leave, set one after another. -/
def mapOf (pairs : List (Cbor × Cbor)) : List (Cbor × Cbor) := pairs.foldl (fun m e => mapSet m e.1 e.2) []

def cborReadLength (minor : Nat) (buf : Bytes) : Except Thrown (Nat × Bytes) :=
  if minor < 24 then .ok (minor, buf)
  else if minor = 24 then do
    let (v, buf) ← readExactly 1 (.error "cbor: truncated len8") buf
    .ok (integerOf v, buf)
  else if minor = 25 then do
    let (v, buf) ← readExactly 2 (.error "cbor: truncated len16") buf
    .ok (integerOf v, buf)
  else if minor = 26 then do
    let (v, buf) ← readExactly 4 (.error "cbor: truncated len32") buf
    .ok (integerOf v, buf)
  else if minor = 27 then do
    let (v, buf) ← readExactly 8 (.error "cbor: truncated len64") buf
    let hi := integerOf (v.take 4)
    let lo := integerOf (v.drop 4)
    require (hi = 0) (.error "cbor: length too large")
    .ok (lo, buf)
  else .error (.error "cbor: indefinite or reserved length not supported")

/-- The `switch` on the major type; `read` reads the items one level down. -/
def cborReadContent (read : Bytes → Except Thrown (Cbor × Bytes)) (major len : Nat) (buf : Bytes) :
    Except Thrown (Cbor × Bytes) :=
  match major with
  | 0 => .ok (.int len, buf)
  | 1 => .ok (.int (-1 - len), buf)
  | 2 => do
    let (out, buf) ← readExactly len (.error "cbor: byte string overruns") buf
    .ok (.bytes out, buf)
  | 3 => do
    let (out, buf) ← readExactly len (.error "cbor: text string overruns") buf
    .ok (.text (utf8Decode out), buf)
  | 4 => do
    let (items, buf) ← readMany read len buf
    .ok (.array items, buf)
  | 5 => do
    let (pairs, buf) ← readMany (readPair read read) len buf
    .ok (.map (mapOf pairs), buf)
  | major => .error (.error ("cbor: unsupported major type " ++ toString major))

/-- `cborReadItem(st, depth)` with `depth + levels = CBOR_MAX_DEPTH + 1`. -/
def cborReadItem : Nat → Bytes → Except Thrown (Cbor × Bytes)
  | 0, _ => .error (.error "cbor: max depth exceeded")
  | _ + 1, [] => .error (.error "cbor: truncated")
  | levels + 1, ib :: buf => do
    let (len, buf) ← cborReadLength (ib.toNat % 32) buf
    cborReadContent (cborReadItem levels) (ib.toNat / 32) len buf

def CBOR_MAX_DEPTH : Nat := 16

/-- `{ value, end }`. -/
structure Decoded where
  value : Cbor
  stop : Nat

def cborDecodeFirst (buf : Bytes) : Except Thrown Decoded := do
  let (value, rest) ← cborReadItem (CBOR_MAX_DEPTH + 1) buf
  .ok ⟨value, buf.length - rest.length⟩

/-! ## Maps -/

theorem lookup_append (key : Key) (m : List (Cbor × Cbor)) (k v : Cbor) :
    lookup key (m ++ [(k, v)]) = if k.key? = some key then some v else lookup key m := by
  unfold lookup
  rw [List.reverse_append, List.reverse_singleton, List.singleton_append, List.find?_cons]
  split
  · rename_i hKey
    rw [if_pos (of_decide_eq_true hKey), Option.map_some]
  · rename_i hKey
    rw [if_neg (of_decide_eq_false hKey)]

/-- A key that is there already, with its value replaced wherever it stands. -/
theorem lookup_replace (key : Key) (m : List (Cbor × Cbor)) (k v : Cbor) (h : m.any (·.1.key? = k.key?)) :
    lookup key (m.map fun e => if e.1.key? = k.key? then (e.1, v) else e) =
      if k.key? = some key then some v else lookup key m := by
  induction m using List.reverseRecOn with
  | nil => cases h
  | append_singleton m e ih =>
    obtain ⟨k', v'⟩ := e
    rw [List.map_append, List.map_singleton]
    by_cases hSame : k'.key? = k.key?
    · rw [if_pos hSame, lookup_append, lookup_append, hSame]
      split
      · rfl
      · rename_i hKey
        by_cases hAny : m.any (·.1.key? = k.key?)
        · rw [ih hAny, if_neg hKey]
        · have hNone : (m.map fun e => if e.1.key? = k.key? then (e.1, v) else e) = m := by
            refine (List.map_congr_left fun e he => ?_).trans (List.map_id m)
            simp only [List.any_eq_true, decide_eq_true_eq, not_exists, not_and] at hAny
            exact if_neg (hAny e he)
          rw [hNone]
    · have hAny : m.any (·.1.key? = k.key?) := by simpa [hSame] using h
      rw [if_neg hSame, lookup_append, lookup_append, ih hAny]
      split
      · rename_i hKey'
        rw [if_neg fun hKey => hSame (hKey'.trans hKey.symm)]
      · rfl

theorem lookup_mapSet (key : Key) (m : List (Cbor × Cbor)) (k v : Cbor) :
    lookup key (mapSet m k v) = if k.key? = some key then some v else lookup key m := by
  unfold mapSet
  split
  · rename_i h
    exact lookup_replace key m k v h.2
  · exact lookup_append key m k v

/-- Of the pairs with one key the last one counts. -/
theorem lookup_mapOf (key : Key) (pairs : List (Cbor × Cbor)) : lookup key (mapOf pairs) = lookup key pairs := by
  induction pairs using List.reverseRecOn with
  | nil => rfl
  | append_singleton pairs e ih =>
    have hLast : mapOf (pairs ++ [e]) = mapSet (mapOf pairs) e.1 e.2 := by simp [mapOf]
    rw [hLast, lookup_mapSet, ih, ← lookup_append]

def scalarKeys (m : List (Cbor × Cbor)) : List Key := m.filterMap (·.1.key?)

theorem scalarKeys_mapSet (m : List (Cbor × Cbor)) (k v : Cbor) :
    scalarKeys (mapSet m k v) =
      if k.key?.isSome ∧ m.any (·.1.key? = k.key?) then scalarKeys m else scalarKeys m ++ k.key?.toList := by
  unfold mapSet
  split
  · have hKeys : ∀ e : Cbor × Cbor, (if e.1.key? = k.key? then (e.1, v) else e).1.key? = e.1.key? := by
      intro e
      split <;> rfl
    simp only [scalarKeys, List.filterMap_map, Function.comp_def, hKeys]
  · cases hKey : k.key? <;> simp [scalarKeys, hKey]

/-- A decoded map has every number and every string at most once among its keys. -/
theorem nodup_scalarKeys_mapOf (pairs : List (Cbor × Cbor)) : (scalarKeys (mapOf pairs)).Nodup := by
  induction pairs using List.reverseRecOn with
  | nil => exact List.nodup_nil
  | append_singleton pairs e ih =>
    have hLast : mapOf (pairs ++ [e]) = mapSet (mapOf pairs) e.1 e.2 := by simp [mapOf]
    rw [hLast, scalarKeys_mapSet]
    split
    · exact ih
    · rename_i hNew
      cases hKey : e.1.key? with
      | none => simpa using ih
      | some key =>
        have hAbsent : key ∉ scalarKeys (mapOf pairs) := by
          intro hMem
          obtain ⟨d, hd, hdKey⟩ := List.mem_filterMap.mp hMem
          exact hNew ⟨by rw [hKey]; rfl, List.any_eq_true.mpr ⟨d, hd, by simp [hdKey, hKey]⟩⟩
        exact List.nodup_append'.mpr ⟨ih, List.nodup_singleton key, by simpa using hAbsent⟩

/-! ## The grammar -/

/-- The bytes after the initial one that carry the argument `n`. -/
inductive Argument : Nat → Nat → Bytes → Prop
  | direct {n : Nat} : n < 24 → Argument n n []
  | one {bs : Bytes} : bs.length = 1 → Argument 24 (integerOf bs) bs
  | two {bs : Bytes} : bs.length = 2 → Argument 25 (integerOf bs) bs
  | four {bs : Bytes} : bs.length = 4 → Argument 26 (integerOf bs) bs
  | eight {bs : Bytes} : bs.length = 8 → integerOf bs < 2 ^ 32 → Argument 27 (integerOf bs) bs

/-- The bytes after the head of an item; `P` is the grammar one level down. -/
def Content (P : Cbor → Bytes → Prop) (major len : Nat) : Cbor → Bytes → Prop
  | .int n, body => body = [] ∧ (major = 0 ∧ n = len ∨ major = 1 ∧ n = -1 - len)
  | .bytes b, body => major = 2 ∧ b = body ∧ body.length = len
  | .text s, body => major = 3 ∧ s = utf8Decode body ∧ body.length = len
  | .array items, body => major = 4 ∧ items.length = len ∧ ∃ parts, body = parts.flatten ∧ List.Forall₂ P items parts
  | .map entries, body => major = 5 ∧ ∃ pairs, entries = mapOf pairs ∧ pairs.length = len ∧
      ∃ parts, body = parts.flatten ∧ List.Forall₂ (fun e part => ∃ k v, part = k ++ v ∧ P e.1 k ∧ P e.2 v) pairs parts

/-- `front` stands for an item of at most so many levels. -/
def Encodes : Nat → Cbor → Bytes → Prop
  | 0, _, _ => False
  | levels + 1, value, front => ∃ ib bs body len, front = ib :: (bs ++ body) ∧ Argument (ib.toNat % 32) len bs ∧
      Content (Encodes levels) (ib.toNat / 32) len value body

theorem integerOf_eight {v : Bytes} (h : v.length = 8) :
    (integerOf (v.take 4) = 0 ↔ integerOf v < 2 ^ 32) ∧
      (integerOf (v.take 4) = 0 → integerOf (v.drop 4) = integerOf v) := by
  have hLow := integerOf_lt (v.drop 4)
  have hSum := integerOf_append (v.take 4) (v.drop 4)
  rw [List.take_append_drop] at hSum
  have hLength : (v.drop 4).length = 4 := by rw [List.length_drop, h]
  rw [hLength] at hLow hSum
  omega

theorem argument_direct_iff {minor n : Nat} {bs : Bytes} (h : minor < 24) :
    Argument minor n bs ↔ bs = [] ∧ n = minor := by
  constructor
  · intro hArgument
    cases hArgument with
    | direct => exact ⟨rfl, rfl⟩
    | one | two | four | eight => omega
  · rintro ⟨rfl, rfl⟩
    exact .direct h

theorem argument_iff {minor n : Nat} {bs : Bytes} (h : 24 ≤ minor) :
    Argument minor n bs ↔ n = integerOf bs ∧ (minor = 24 ∧ bs.length = 1 ∨ minor = 25 ∧ bs.length = 2 ∨
      minor = 26 ∧ bs.length = 4 ∨ minor = 27 ∧ bs.length = 8 ∧ n < 2 ^ 32) := by
  constructor
  · intro hArgument
    cases hArgument with
    | direct hSmall => omega
    | one hLength => exact ⟨rfl, .inl ⟨rfl, hLength⟩⟩
    | two hLength => exact ⟨rfl, .inr (.inl ⟨rfl, hLength⟩)⟩
    | four hLength => exact ⟨rfl, .inr (.inr (.inl ⟨rfl, hLength⟩))⟩
    | eight hLength hBound => exact ⟨rfl, .inr (.inr (.inr ⟨rfl, hLength, hBound⟩))⟩
  · rintro ⟨rfl, ⟨rfl, hLength⟩ | ⟨rfl, hLength⟩ | ⟨rfl, hLength⟩ | ⟨rfl, hLength, hBound⟩⟩
    · exact .one hLength
    · exact .two hLength
    · exact .four hLength
    · exact .eight hLength hBound

theorem reads_integer (k : Nat) (error : Thrown) : Reads (fun input => do
    let (v, buf) ← readExactly k error input
    .ok (integerOf v, buf) : Bytes → Except Thrown (Nat × Bytes)) fun n bs => n = integerOf bs ∧ bs.length = k := by
  intro input n rest
  simp only [bind_eq_ok, Prod.exists, readExactly_eq_ok]
  constructor
  · rintro ⟨bs, buf, ⟨rfl, hLength⟩, hEq⟩
    cases hEq
    exact ⟨bs, rfl, rfl, hLength⟩
  · rintro ⟨bs, rfl, rfl, hLength⟩
    exact ⟨bs, rest, ⟨rfl, hLength⟩, rfl⟩

theorem reads_length (minor : Nat) : Reads (cborReadLength minor) fun n bs => Argument minor n bs := by
  intro input n rest
  by_cases hMinor : minor < 24
  · simp only [cborReadLength, if_pos hMinor, argument_direct_iff hMinor]
    constructor
    · intro h
      cases h
      exact ⟨[], rfl, rfl, rfl⟩
    · rintro ⟨bs, rfl, rfl, rfl⟩
      rfl
  simp only [argument_iff (not_lt.mp hMinor)]
  unfold cborReadLength
  rw [if_neg hMinor]
  split
  · simpa [*] using reads_integer 1 _ input n rest
  split
  · simpa [*] using reads_integer 2 _ input n rest
  split
  · simpa [*] using reads_integer 4 _ input n rest
  split
  · subst minor
    simp only [bind_eq_ok, Prod.exists, readExactly_eq_ok, require_eq_ok, exists_const]
    constructor
    · rintro ⟨bs, buf, ⟨rfl, hLength⟩, hHigh, hEq⟩
      cases hEq
      obtain ⟨hSmall, hLow⟩ := integerOf_eight hLength
      rw [hLow hHigh]
      exact ⟨bs, rfl, rfl, by simpa [hLength] using hSmall.mp hHigh⟩
    · rintro ⟨bs, rfl, rfl, hForm⟩
      obtain ⟨hLength, hBound⟩ : bs.length = 8 ∧ integerOf bs < 2 ^ 32 := by simpa using hForm
      obtain ⟨hSmall, hLow⟩ := integerOf_eight hLength
      have hHigh := hSmall.mpr hBound
      exact ⟨bs, rest, ⟨rfl, hLength⟩, hHigh, by rw [hLow hHigh]⟩
  · simp [*]

theorem reads_content {read : Bytes → Except Thrown (Cbor × Bytes)} {P : Cbor → Bytes → Prop} (h : Reads read P)
    (major len : Nat) : Reads (cborReadContent read major len) (Content P major len) := by
  intro input value rest
  unfold cborReadContent
  split
  · constructor
    · intro hRead
      cases hRead
      exact ⟨[], rfl, rfl, .inl ⟨rfl, rfl⟩⟩
    · rintro ⟨front, rfl, hContent⟩
      cases value <;> simp_all [Content]
  · constructor
    · intro hRead
      cases hRead
      exact ⟨[], rfl, rfl, .inr ⟨rfl, rfl⟩⟩
    · rintro ⟨front, rfl, hContent⟩
      cases value <;> simp_all [Content]
  · simp only [bind_eq_ok, Prod.exists, readExactly_eq_ok]
    constructor
    · rintro ⟨out, buf, ⟨rfl, hLength⟩, hEq⟩
      cases hEq
      exact ⟨out, rfl, rfl, rfl, hLength⟩
    · rintro ⟨front, rfl, hContent⟩
      cases value <;> simp_all [Content]
  · simp only [bind_eq_ok, Prod.exists, readExactly_eq_ok]
    constructor
    · rintro ⟨out, buf, ⟨rfl, hLength⟩, hEq⟩
      cases hEq
      exact ⟨out, rfl, rfl, rfl, hLength⟩
    · rintro ⟨front, rfl, hContent⟩
      cases value <;> simp_all [Content]
  · simp only [bind_eq_ok, Prod.exists, h.many len _ _ _]
    constructor
    · rintro ⟨items, buf, ⟨front, rfl, hItems⟩, hEq⟩
      cases hEq
      exact ⟨front, rfl, rfl, hItems⟩
    · rintro ⟨front, rfl, hContent⟩
      cases value <;> simp_all [Content]
  · simp only [bind_eq_ok, Prod.exists, (h.pair h).many len _ _ _]
    constructor
    · rintro ⟨pairs, buf, ⟨front, rfl, hPairs⟩, hEq⟩
      cases hEq
      exact ⟨front, rfl, rfl, pairs, rfl, hPairs⟩
    · rintro ⟨front, rfl, hContent⟩
      cases value with
      | map entries =>
        obtain ⟨-, pairs, rfl, hPairs⟩ := hContent
        exact ⟨pairs, rest, ⟨front, rfl, hPairs⟩, rfl⟩
      | int | bytes | text | array => simp_all [Content]
  · refine ⟨nofun, ?_⟩
    rintro ⟨front, rfl, hContent⟩
    cases value <;> simp_all [Content]

/-- The decoder reads exactly the grammar. -/
theorem reads_item (levels : Nat) : Reads (cborReadItem levels) (Encodes levels) := by
  induction levels with
  | zero => exact fun input value rest => ⟨nofun, fun ⟨_, _, h⟩ => h.elim⟩
  | succ levels ih =>
    intro input value rest
    cases input with
    | nil =>
      refine ⟨nofun, ?_⟩
      rintro ⟨front, hInput, ib, bs, body, len, rfl, -⟩
      cases hInput
    | cons ib buf =>
      simp only [cborReadItem, bind_eq_ok, Prod.exists, reads_length _ _ _ _, reads_content ih _ _ _ _ _]
      constructor
      · rintro ⟨len, mid, ⟨bs, rfl, hArgument⟩, body, rfl, hContent⟩
        exact ⟨ib :: (bs ++ body), by simp, ib, bs, body, len, rfl, hArgument, hContent⟩
      · rintro ⟨front, hInput, ib', bs, body, len, rfl, hArgument, hContent⟩
        rw [List.cons_append, List.append_assoc] at hInput
        cases hInput
        exact ⟨len, body ++ rest, ⟨bs, rfl, hArgument⟩, body, rfl, hContent⟩

/-- An object starts with the item it decodes to; what follows is not read. -/
def Decodes (buf : Bytes) (value : Cbor) : Prop :=
  ∃ front rest, buf = front ++ rest ∧ Encodes (CBOR_MAX_DEPTH + 1) value front

theorem cborDecodeFirst_eq_ok {buf : Bytes} {value : Cbor} {stop : Nat} :
    cborDecodeFirst buf = .ok ⟨value, stop⟩ ↔
      stop ≤ buf.length ∧ Encodes (CBOR_MAX_DEPTH + 1) value (buf.take stop) := by
  simp only [cborDecodeFirst, bind_eq_ok, Prod.exists, reads_item _ _ _ _]
  constructor
  · rintro ⟨v, rest, ⟨front, rfl, hEncodes⟩, hEq⟩
    cases hEq
    rw [List.length_append, Nat.add_sub_cancel, List.take_left]
    exact ⟨Nat.le_add_right _ _, hEncodes⟩
  · rintro ⟨hStop, hEncodes⟩
    refine ⟨value, buf.drop stop, ⟨buf.take stop, (List.take_append_drop stop buf).symm, hEncodes⟩, ?_⟩
    rw [List.length_drop, Nat.sub_sub_self hStop]

theorem decodes_iff {buf : Bytes} {value : Cbor} :
    Decodes buf value ↔ ∃ decoded, cborDecodeFirst buf = .ok decoded ∧ decoded.value = value := by
  constructor
  · rintro ⟨front, rest, rfl, hEncodes⟩
    refine ⟨⟨value, front.length⟩, cborDecodeFirst_eq_ok.mpr ⟨?_, ?_⟩, rfl⟩
    · rw [List.length_append]
      exact Nat.le_add_right _ _
    · rwa [List.take_left]
  · rintro ⟨decoded, hDecoded, rfl⟩
    obtain ⟨-, hEncodes⟩ := cborDecodeFirst_eq_ok.mp hDecoded
    exact ⟨_, _, (List.take_append_drop decoded.stop buf).symm, hEncodes⟩

end Columbia.Issuer.AppAttest
