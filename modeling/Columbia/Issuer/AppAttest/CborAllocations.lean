import Columbia.Issuer.AppAttest.Cbor
import Columbia.Lib.Logged

/-! # What the CBOR decoder allocates

`new Array(n)` runs on the announced length, before any element is read. The decoder is run here with a log of
these calls; without the log it is the decoder. `Announces` says on the bytes alone where array heads stand.
-/
namespace Columbia.Issuer.AppAttest
open Columbia.Js Columbia.Lib
set_option autoImplicit false

/-- `new Array(n)` with so many bytes left to read. -/
structure Allocation where
  n : Nat
  remaining : Nat
  deriving DecidableEq

def cborReadContentLogged (read : Bytes → Logged Allocation Thrown (Cbor × Bytes)) (major len : Nat) (buf : Bytes) :
    Logged Allocation Thrown (Cbor × Bytes) :=
  match major with
  | 4 => do
    .note ⟨len, buf.length⟩
    let (items, buf) ← readManyLogged read len buf
    pure (.array items, buf)
  | 5 => do
    let (pairs, buf) ← readManyLogged (readPairLogged read read) len buf
    pure (.map (mapOf pairs), buf)
  -- the other types hold no items, so nothing is read below them
  | major => .quiet (cborReadContent (fun buf => (read buf).result) major len buf)

def cborReadItemLogged : Nat → Bytes → Logged Allocation Thrown (Cbor × Bytes)
  | 0, buf => .quiet (cborReadItem 0 buf)
  | levels + 1, [] => .quiet (cborReadItem (levels + 1) [])
  | levels + 1, ib :: buf => do
    let (len, buf) ← .quiet (cborReadLength (ib.toNat % 32) buf)
    cborReadContentLogged (cborReadItemLogged levels) (ib.toNat / 32) len buf

/-- Every `new Array(n)` of `cborDecodeFirst`, in the order of execution. -/
def allocations (buf : Bytes) : List Allocation := (cborReadItemLogged (CBOR_MAX_DEPTH + 1) buf).log

/-! ## Without the log -/

theorem result_content {logged : Bytes → Logged Allocation Thrown (Cbor × Bytes)}
    {read : Bytes → Except Thrown (Cbor × Bytes)} (h : ∀ buf, (logged buf).result = read buf) (major len : Nat)
    (buf : Bytes) : (cborReadContentLogged logged major len buf).result = cborReadContent read major len buf := by
  have hRead : (fun buf => (logged buf).result) = read := funext h
  unfold cborReadContentLogged
  split
  · simp only [Logged.result_bind, Logged.result_pure, result_readMany h]
    rfl
  · simp only [Logged.result_bind, Logged.result_pure, result_readMany (result_readPair h)]
    rfl
  · rw [hRead]
    rfl

theorem result_item (levels : Nat) (buf : Bytes) : (cborReadItemLogged levels buf).result = cborReadItem levels buf := by
  induction levels generalizing buf with
  | zero => rfl
  | succ levels ih =>
    cases buf with
    | nil => rfl
    | cons ib buf =>
      simp only [cborReadItemLogged, cborReadItem, Logged.result_bind, result_content ih]
      rfl

/-! ## Where array heads stand -/

/-- The items that a head of this major type announces. -/
def places (major len : Nat) : Nat := if major = 4 then len else if major = 5 then 2 * len else 0

/-- An array of `n` items is announced in `buf`, and `rest` follows its head: at the front, or at the place of an
item of the container that begins at the front, with nothing but whole items before it. -/
def Announces : Nat → Bytes → Nat → Bytes → Prop
  | 0, _, _, _ => False
  | levels + 1, buf, n, rest => ∃ ib bs len tail, buf = ib :: (bs ++ tail) ∧ Argument (ib.toNat % 32) len bs ∧
      (ib.toNat / 32 = 4 ∧ len = n ∧ tail = rest ∨
        ∃ (parts : List Bytes) (after : Bytes), tail = parts.flatten ++ after ∧
          (∀ part ∈ parts, ∃ value, Encodes levels value part) ∧
          parts.length < places (ib.toNat / 32) len ∧ Announces levels after n rest)

theorem mem_log_content {levels : Nat} {major len : Nat} {buf : Bytes} {a : Allocation} :
    a ∈ (cborReadContentLogged (cborReadItemLogged levels) major len buf).log ↔
      (major = 4 ∧ a = ⟨len, buf.length⟩) ∨ ∃ (parts : List Bytes) (after : Bytes), buf = parts.flatten ++ after ∧
        (∀ part ∈ parts, ∃ value, Encodes levels value part) ∧ parts.length < places major len ∧
        a ∈ (cborReadItemLogged levels after).log := by
  have hResult := result_item levels
  have hReads := reads_item levels
  unfold cborReadContentLogged
  split
  · simp only [Logged.mem_log_bind, Logged.log_pure, List.not_mem_nil, and_false, exists_false, or_false,
      mem_log_readMany hResult hReads]
    simp [Logged.note, places]
  · simp only [Logged.mem_log_bind, Logged.log_pure, List.not_mem_nil, and_false, exists_false, or_false,
      mem_log_readMany_pair hResult, mem_log_readMany hResult hReads]
    simp [places]
  · rename_i hArray hMap
    have hPlaces : places major len = 0 := by rw [places, if_neg hArray, if_neg hMap]
    simp only [Logged.quiet, List.not_mem_nil, hPlaces, Nat.not_lt_zero, false_and, and_false, exists_false, or_false]
    exact ⟨False.elim, fun hHead => hArray hHead.1⟩

theorem mem_log_item {levels : Nat} {buf : Bytes} {a : Allocation} :
    a ∈ (cborReadItemLogged levels buf).log ↔ ∃ rest, Announces levels buf a.n rest ∧ a.remaining = rest.length := by
  induction levels generalizing buf with
  | zero => simp [cborReadItemLogged, Logged.quiet, Announces]
  | succ levels ih =>
    cases buf with
    | nil => simp [cborReadItemLogged, Logged.quiet, Announces]
    | cons ib buf =>
      simp only [cborReadItemLogged, Logged.mem_log_quiet, Prod.exists, reads_length _ _ _ _, mem_log_content, ih]
      constructor
      · rintro ⟨len, tail, ⟨bs, rfl, hArgument⟩, hHead | ⟨parts, after, rfl, hParts, hPlace, rest, hInner, hRest⟩⟩
        · obtain ⟨hMajor, rfl⟩ := hHead
          exact ⟨tail, ⟨ib, bs, len, tail, rfl, hArgument, .inl ⟨hMajor, rfl, rfl⟩⟩, rfl⟩
        · exact ⟨rest, ⟨ib, bs, len, _, rfl, hArgument, .inr ⟨parts, after, rfl, hParts, hPlace, hInner⟩⟩, hRest⟩
      · rintro ⟨rest, ⟨ib', bs, len, tail, hBuf, hArgument, hPlace⟩, hRest⟩
        cases hBuf
        refine ⟨len, tail, ⟨bs, rfl, hArgument⟩, ?_⟩
        rcases hPlace with ⟨hMajor, hLen, rfl⟩ | ⟨parts, after, rfl, hParts, hPlace, hInner⟩
        · exact .inl ⟨hMajor, by rw [hLen, ← hRest]⟩
        · exact .inr ⟨parts, after, rfl, hParts, hPlace, rest, hInner, hRest⟩

/-! ## When the allocations are bounded by the input -/

/-- Each item takes a byte at least. -/
theorem readMany_item_length {levels n : Nat} {buf rest : Bytes} {items : List Cbor}
    (h : readMany (cborReadItem levels) n buf = .ok (items, rest)) : n + rest.length ≤ buf.length := by
  induction n generalizing buf items with
  | zero =>
    cases h
    exact (Nat.zero_add _).le
  | succ n ih =>
    obtain ⟨⟨item, mid⟩, hItem, h⟩ := bind_eq_ok.mp h
    obtain ⟨⟨items', rest'⟩, hItems, h⟩ := bind_eq_ok.mp h
    cases h
    have hRest := ih hItems
    obtain ⟨front, rfl, hFront⟩ := (reads_item levels _ _ _).mp hItem
    have hPos : 0 < front.length := by
      cases levels with
      | zero => exact hFront.elim
      | succ levels =>
        obtain ⟨ib, bs, body, len, rfl, -⟩ := hFront
        exact Nat.succ_pos _
    rw [List.length_append]
    omega

theorem content_log_bounded {levels major len : Nat} {buf rest : Bytes} {value : Cbor}
    (hItems : ∀ input item rest, cborReadItem levels input = .ok (item, rest) →
      ∀ a ∈ (cborReadItemLogged levels input).log, a.n ≤ a.remaining)
    (h : cborReadContent (cborReadItem levels) major len buf = .ok (value, rest)) :
    ∀ a ∈ (cborReadContentLogged (cborReadItemLogged levels) major len buf).log, a.n ≤ a.remaining := by
  have hResult := result_item levels
  intro a hLog
  unfold cborReadContentLogged at hLog
  split at hLog
  · obtain ⟨⟨items, rest'⟩, hMany, -⟩ := bind_eq_ok.mp h
    have hCount := readMany_item_length hMany
    rcases Logged.mem_log_bind.mp hLog with hHead | ⟨_, _, hLog⟩
    · obtain rfl := List.mem_singleton.mp hHead
      exact (Nat.le_add_right _ _).trans hCount
    · rcases Logged.mem_log_bind.mp hLog with hLog | ⟨_, _, hLog⟩
      · exact forall_log_readMany hResult hItems hMany a hLog
      · exact absurd hLog List.not_mem_nil
  · obtain ⟨⟨pairs, rest'⟩, hMany, -⟩ := bind_eq_ok.mp h
    rcases Logged.mem_log_bind.mp hLog with hLog | ⟨_, _, hLog⟩
    · refine forall_log_readMany (Q := fun a => a.n ≤ a.remaining) (result_readPair hResult) ?_ hMany a hLog
      exact fun _ _ _ hPair => forall_log_readPair hResult hItems hPair
    · exact absurd hLog List.not_mem_nil
  · cases hLog

theorem log_bounded {levels : Nat} {buf rest : Bytes} {value : Cbor} (h : cborReadItem levels buf = .ok (value, rest)) :
    ∀ a ∈ (cborReadItemLogged levels buf).log, a.n ≤ a.remaining := by
  induction levels generalizing buf rest value with
  | zero => cases h
  | succ levels ih =>
    cases buf with
    | nil => cases h
    | cons ib buf =>
      obtain ⟨⟨len, tail⟩, hLength, h⟩ := bind_eq_ok.mp h
      intro a hLog
      obtain ⟨⟨len', tail'⟩, hLength', hLog⟩ := Logged.mem_log_quiet.mp hLog
      rw [hLength] at hLength'
      cases hLength'
      exact content_log_bounded (fun _ _ _ hItem => ih hItem) h a hLog

/-- The array allocations stay below the bytes left exactly when no array head announces more than that, and so on
every buffer that decodes. -/
theorem allocations_bounded_iff (buf : Bytes) :
    ((∀ a ∈ allocations buf, a.n ≤ a.remaining) ↔
      ∀ n rest, Announces (CBOR_MAX_DEPTH + 1) buf n rest → n ≤ rest.length) ∧
    ((∃ decoded, cborDecodeFirst buf = .ok decoded) → ∀ a ∈ allocations buf, a.n ≤ a.remaining) := by
  refine ⟨⟨?_, ?_⟩, ?_⟩
  · intro h n rest hAnnounces
    exact h ⟨n, rest.length⟩ (mem_log_item.mpr ⟨rest, hAnnounces, rfl⟩)
  · intro h a hLog
    obtain ⟨rest, hAnnounces, hRest⟩ := mem_log_item.mp hLog
    rw [hRest]
    exact h a.n rest hAnnounces
  · rintro ⟨decoded, hDecoded⟩
    obtain ⟨⟨value, rest⟩, hItem, -⟩ := bind_eq_ok.mp hDecoded
    exact log_bounded hItem

/-- Five bytes, and an array of 2^32 - 1 items. -/
theorem allocations_unbounded : ¬∀ a ∈ allocations [0x9a, 0xff, 0xff, 0xff, 0xff], a.n ≤ a.remaining := by
  intro h
  have hHead : (⟨4294967295, 0⟩ : Allocation) ∈ allocations [0x9a, 0xff, 0xff, 0xff, 0xff] := by decide +kernel
  exact absurd (h _ hHead) (by decide)

end Columbia.Issuer.AppAttest
