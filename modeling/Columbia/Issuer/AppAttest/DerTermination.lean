import Columbia.Issuer.AppAttest.Der

/-! # When the DER walk terminates

A long form of four bytes is put together by 32-bit shifts, so its top bit makes the length negative and the
cursor goes back. Without such a length every element ends after it began and within the buffer, and the fuel of
the walk is paid by the bytes that are left.
-/
namespace Columbia.Issuer.AppAttest
open Columbia.Js Columbia.Lib
set_option autoImplicit false

/-- At `off` an element can begin whose length is of four bytes, the first of them with its top bit set. -/
def NegativeLength (buf : Bytes) (off : Nat) : Prop :=
  off + 6 ≤ buf.length ∧ buf[off + 1]? = some 0x84 ∧ ∃ b, buf[off + 2]? = some b ∧ 128 ≤ b.toNat

/-- A length that is not negative, and an end within the buffer and after `off`. -/
def Tlv.InBounds (tlv : Tlv) (buf : Bytes) (off : Nat) : Prop :=
  ∃ len, tlv.len = some len ∧ 0 ≤ len ∧ tlv.contentStart + len ≤ buf.length ∧ off < tlv.contentStart + len

/-! ## Lengths -/

theorem longLength_three {digits : Bytes} (h : digits.length ≤ 3) : longLength digits = integerOf digits := by
  apply longLength_eq rfl
  calc
    integerOf digits < 256 ^ digits.length := integerOf_lt digits
    _ ≤ 256 ^ 3 := Nat.pow_le_pow_right (by decide) h
    _ < 2147483648 := by decide

theorem longLength_concat (digits : Bytes) (b : UInt8) :
    longLength (digits ++ [b]) = toInt32 (longLength digits * 256) + b.toNat := by
  simp [longLength]

/-- Of four bytes the last shift is the only one that can leave the 31 bits. -/
theorem longLength_four (a b c d : UInt8) :
    longLength [a, b, c, d] =
      (integerOf [a, b, c, d] : Int) - if 128 ≤ a.toNat then 4294967296 else 0 := by
  have ha := a.toNat_lt
  have hb := b.toNat_lt
  have hc := c.toNat_lt
  have hThree : longLength [a, b, c] = integerOf [a, b, c] := longLength_three le_rfl
  have hFour := longLength_concat [a, b, c] d
  rw [hThree] at hFour
  simp only [integerOf_cons, integerOf_nil, List.length_cons, List.length_nil, List.cons_append, List.nil_append,
    toInt32] at hFour ⊢
  rw [hFour]
  split
  · push_cast
    omega
  · push_cast
    omega

/-- What was read at an offset of the buffer: a short length, or one of up to four bytes. -/
theorem derReadTLV_cases {buf : Bytes} {off : Nat} {tlv : Tlv} (h : derReadTLV buf off = .ok tlv) :
    ∃ first len n, buf[off + 1]? = some first ∧ tlv.len = some len ∧ tlv.contentStart = (off + 2 + n : Nat) ∧
      off + 2 + n + len ≤ buf.length ∧ (n = 0 ∧ 0 ≤ len ∨
        first.toNat = 128 + n ∧ n ≤ 4 ∧ off + 2 + n ≤ buf.length ∧ len = longLength ((buf.drop (off + 2)).take n)) := by
  simp only [derReadTLV, bind_eq_ok, require_eq_ok, exists_const] at h
  obtain ⟨-, hShort, h⟩ := h
  have hByte : byteAt buf ((off : Int) + 1) = buf[off + 1]? := by
    unfold byteAt
    rw [if_pos (by omega)]
    rfl
  rw [hByte] at h
  cases hFirst : buf[off + 1]? with
  | none =>
    have hEnd := List.getElem?_eq_none_iff.mp hFirst
    omega
  | some first =>
    simp only [hFirst] at h
    have hSmall := first.toNat_lt
    split at h
    · rename_i hLong
      simp only [bind_eq_ok, require_eq_ok, exists_const] at h
      obtain ⟨⟨-, hCount⟩, hDigits, hContent, hTlv⟩ := h
      cases hTlv
      refine ⟨first, _, first.toNat % 128, rfl, rfl, ?_, hContent, .inr ⟨by omega, hCount, by omega, rfl⟩⟩
      push_cast
      rfl
    · simp only [bind_eq_ok, require_eq_ok, exists_const] at h
      obtain ⟨hContent, hTlv⟩ := h
      cases hTlv
      exact ⟨first, first.toNat, 0, rfl, rfl, rfl, by simpa using hContent, .inl ⟨rfl, by omega⟩⟩

theorem drop_take_four {buf : Bytes} {off : Nat} (h : off + 6 ≤ buf.length) :
    ∃ a b c d, (buf.drop (off + 2)).take 4 = [a, b, c, d] ∧ buf[off + 2]? = some a := by
  have hLength : ((buf.drop (off + 2)).take 4).length = 4 := by
    rw [List.length_take, List.length_drop]
    omega
  obtain ⟨a, b, c, d, hTake⟩ := List.length_eq_four.mp hLength
  have hHead := congrArg (·[0]?) hTake
  refine ⟨a, b, c, d, hTake, ?_⟩
  simpa [List.getElem?_take, List.getElem?_drop] using hHead

theorem inBounds_of_not_negative {buf : Bytes} {off : Nat} {tlv : Tlv} (h : derReadTLV buf off = .ok tlv)
    (hLength : ¬NegativeLength buf off) :
    ∃ start stop : Nat, tlv.contentStart = start ∧ tlv.stop = some (stop : Int) ∧ off + 2 ≤ start ∧ start ≤ stop ∧
      stop ≤ buf.length := by
  obtain ⟨first, len, n, hFirst, hLen, hStart, hContent, hForm⟩ := derReadTLV_cases h
  have hNonneg : 0 ≤ len := by
    rcases hForm with ⟨-, hNonneg⟩ | ⟨hLong, hCount, hDigits, rfl⟩
    · exact hNonneg
    rcases hCount.lt_or_eq with hFew | rfl
    · rw [longLength_three (by rw [List.length_take]; omega)]
      exact Int.natCast_nonneg _
    · obtain ⟨a, b, c, d, hTake, hByte⟩ := drop_take_four hDigits
      have hSign : ¬128 ≤ a.toNat := by
        intro hSet
        have hHead : first = 0x84 := UInt8.toNat_inj.mp hLong
        exact hLength ⟨hDigits, hHead ▸ hFirst, a, hByte, hSet⟩
      rw [hTake, longLength_four, if_neg hSign, Int.sub_zero]
      exact Int.natCast_nonneg _
  refine ⟨off + 2 + n, off + 2 + n + len.toNat, hStart, ?_, by omega, by omega, by omega⟩
  rw [Tlv.stop, hLen, hStart, Option.map_some]
  congr 1
  push_cast
  omega

theorem derReadTLV_four {buf : Bytes} {off : Nat} (hSize : off + 6 ≤ buf.length) (hForm : buf[off + 1]? = some 0x84)
    (hLen : longLength ((buf.drop (off + 2)).take 4) < 0) : derReadTLV buf off =
      .ok ⟨byteAt buf off, some (longLength ((buf.drop (off + 2)).take 4)), 6, off + 6⟩ := by
  have hAt : byteAt buf ((off : Int) + 1) = some 0x84 := by
    unfold byteAt
    rw [if_pos (by omega)]
    exact hForm
  have hDrop : ((off : Int) + 2).toNat = off + 2 := by omega
  have hLong : (0x84 : UInt8).toNat / 128 = 1 := rfl
  have hCount : (0x84 : UInt8).toNat % 128 = 4 := rfl
  rw [derReadTLV, require_bind (by omega), require_bind (by omega), hAt]
  simp only [hLong, hCount, if_true, hDrop]
  rw [require_bind (by decide), require_bind (by push_cast; omega), require_bind (by push_cast; omega)]
  congr 2

/-- A read with the sign bit set does not throw. -/
theorem not_inBounds_of_negative {buf : Bytes} {off : Nat} (h : NegativeLength buf off) :
    ∃ tlv, derReadTLV buf off = .ok tlv ∧ ¬tlv.InBounds buf off := by
  obtain ⟨hSize, hForm, first, hByte, hSet⟩ := h
  have hNegative : longLength ((buf.drop (off + 2)).take 4) < 0 := by
    obtain ⟨a, b, c, d, hTake, hFirst⟩ := drop_take_four hSize
    obtain rfl : a = first := Option.some.inj (hFirst.symm.trans hByte)
    have hValue : integerOf [a, b, c, d] < 4294967296 := by simpa using integerOf_lt [a, b, c, d]
    rw [hTake, longLength_four, if_pos hSet]
    omega
  refine ⟨_, derReadTLV_four hSize hForm hNegative, ?_⟩
  rintro ⟨len, hSome, hNonneg, -⟩
  cases hSome
  exact absurd hNonneg (not_le.mpr hNegative)

theorem within_eq_some {start off : Int} {stop : Option Int} (h : within (some start) stop = some off) : off = start := by
  cases stop with
  | none => cases h
  | some s =>
    change (if start < s then some start else none) = some off at h
    split at h
    · exact (Option.some.inj h).symm
    · cases h

/-! ## The loops -/

section
variable {oid buf : Bytes} (hLengths : ∀ off, ¬NegativeLength buf off)
include hLengths

/-- From `start` on there are less than `m` bytes, and each turn takes one. -/
theorem siblings_ends (m start : Nat) (stop : Option Int) (h : buf.length < start + m) (hStart : start ≤ buf.length) :
    ∃ r, ∀ fuel, m ≤ fuel → siblings buf fuel (some (start : Int)) stop = some r := by
  induction m generalizing start with
  | zero => omega
  | succ m ih =>
    have hFuel : ∀ fuel, m + 1 ≤ fuel → ∃ rest, fuel = rest + 1 ∧ m ≤ rest := fun fuel hm => ⟨fuel - 1, by omega⟩
    cases hWithin : within (some (start : Int)) stop with
    | none =>
      refine ⟨none, fun fuel hm => ?_⟩
      obtain ⟨rest, rfl, -⟩ := hFuel fuel hm
      rw [siblings, hWithin]
    | some off =>
      obtain rfl := within_eq_some hWithin
      cases hRead : derReadTLV buf start with
      | error e =>
        refine ⟨none, fun fuel hm => ?_⟩
        obtain ⟨rest, rfl, -⟩ := hFuel fuel hm
        rw [siblings, hWithin]
        simp only [hRead]
      | ok s =>
        obtain ⟨content, next, -, hStop, hContent, hNext, hEnd⟩ := inBounds_of_not_negative hRead (hLengths start)
        obtain ⟨r, hr⟩ := ih next (by omega) hEnd
        refine ⟨if s.tag = some 0x04 then some (subarray buf s.contentStart (s.stop.getD 0)) else r, fun fuel hm => ?_⟩
        obtain ⟨rest, rfl, hRest⟩ := hFuel fuel hm
        rw [siblings, hWithin]
        simp only [hRead]
        split
        · rfl
        · rw [hStop]
          exact hr rest hRest

theorem extensionValue_ends (m : Nat) {tlv : Tlv} {start : Nat} (hContent : tlv.contentStart = start)
    (h : buf.length < start + m) :
    ∃ r, ∀ fuel, m ≤ fuel → extensionValue oid buf fuel tlv = some r := by
  unfold extensionValue
  split
  · rw [hContent]
    cases hRead : derReadTLV buf start with
    | error e => exact ⟨none, fun _ _ => rfl⟩
    | ok inner =>
      simp only
      split
      · obtain ⟨content, next, -, hStop, hInner, hNext, hEnd⟩ := inBounds_of_not_negative hRead (hLengths start)
        rw [hStop]
        exact siblings_ends hLengths m next tlv.stop (by omega) hEnd
      · exact ⟨none, fun _ _ => rfl⟩
  · exact ⟨none, fun _ _ => rfl⟩

theorem walk_ends (m start : Nat) (stop : Option Int) (depth : Nat) (h : buf.length < start + m)
    (hStart : start ≤ buf.length) :
    ∃ r, ∀ fuel, m ≤ fuel → walk oid buf fuel (some (start : Int)) stop depth = some r := by
  induction m generalizing start stop depth with
  | zero => omega
  | succ m ih =>
    have hFuel : ∀ fuel, m + 1 ≤ fuel → ∃ rest, fuel = rest + 1 ∧ m ≤ rest := fun fuel hm => ⟨fuel - 1, by omega⟩
    by_cases hDepth : 24 < depth
    · refine ⟨none, fun fuel hm => ?_⟩
      obtain ⟨rest, rfl, -⟩ := hFuel fuel hm
      rw [walk, if_pos hDepth]
    cases hWithin : within (some (start : Int)) stop with
    | none =>
      refine ⟨none, fun fuel hm => ?_⟩
      obtain ⟨rest, rfl, -⟩ := hFuel fuel hm
      rw [walk, if_neg hDepth, hWithin]
    | some off =>
      obtain rfl := within_eq_some hWithin
      cases hRead : derReadTLV buf start with
      | error e =>
        refine ⟨none, fun fuel hm => ?_⟩
        obtain ⟨rest, rfl, -⟩ := hFuel fuel hm
        rw [walk, if_neg hDepth, hWithin]
        simp only [hRead]
      | ok tlv =>
        obtain ⟨content, next, hContent, hStop, hAfter, hNext, hEnd⟩ :=
          inBounds_of_not_negative hRead (hLengths start)
        obtain ⟨found, hFound⟩ := @extensionValue_ends oid buf hLengths m tlv content hContent (by omega)
        obtain ⟨below, hBelow⟩ := ih content tlv.stop (depth + 1) (by omega) (by omega)
        obtain ⟨later, hLater⟩ := ih next stop depth (by omega) hEnd
        refine ⟨found.or ((if tlv.tag.any fun tag => tag.toNat / 32 % 2 = 1 then below else none).or later),
          fun fuel hm => ?_⟩
        obtain ⟨rest, rfl, hRest⟩ := hFuel fuel hm
        rw [walk, if_neg hDepth, hWithin]
        simp only [hRead, hFound rest hRest, hContent]
        apply unlessFound_some
        rw [hBelow rest hRest, ← apply_ite some, hStop]
        exact unlessFound_some _ (hLater rest hRest)

end

/-! ## More fuel -/

section
variable {oid buf : Bytes}

theorem siblings_mono {fuel more : Nat} (hMore : fuel ≤ more) {sib stop : Option Int} {r : Option Bytes}
    (h : siblings buf fuel sib stop = some r) : siblings buf more sib stop = some r := by
  induction fuel generalizing more sib with
  | zero => cases h
  | succ fuel ih =>
    obtain ⟨more, rfl⟩ : ∃ n, more = n + 1 := ⟨more - 1, by omega⟩
    rw [siblings] at h ⊢
    cases hWithin : within sib stop with
    | none =>
      rw [hWithin] at h
      exact h
    | some off =>
      simp only [hWithin] at h ⊢
      cases hRead : derReadTLV buf off with
      | error e =>
        simp only [hRead] at h ⊢
        exact h
      | ok s =>
        simp only [hRead] at h ⊢
        split at h
        · rw [if_pos (by assumption)]
          exact h
        · rw [if_neg (by assumption)]
          exact ih (by omega) h

theorem extensionValue_mono {fuel more : Nat} (hMore : fuel ≤ more) {tlv : Tlv} {r : Option Bytes}
    (h : extensionValue oid buf fuel tlv = some r) : extensionValue oid buf more tlv = some r := by
  unfold extensionValue at h ⊢
  split at h
  · rw [if_pos (by assumption)]
    cases hRead : derReadTLV buf tlv.contentStart with
    | error e =>
      simp only [hRead] at h ⊢
      exact h
    | ok inner =>
      simp only [hRead] at h ⊢
      split at h
      · rw [if_pos (by assumption)]
        exact siblings_mono hMore h
      · rw [if_neg (by assumption)]
        exact h
  · rw [if_neg (by assumption)]
    exact h

theorem unlessFound_mono {first first' : Option (Option Bytes)} {next next' : Unit → Option (Option Bytes)}
    {r : Option Bytes} (hFirst : ∀ found, first = some found → first' = some found)
    (hNext : ∀ found, next () = some found → next' () = some found) (h : unlessFound first next = some r) :
    unlessFound first' next' = some r := by
  cases first with
  | none => cases h
  | some found =>
    rw [hFirst found rfl]
    cases found with
    | none => exact hNext r h
    | some value => exact h

theorem walk_mono {fuel more : Nat} (hMore : fuel ≤ more) {start stop : Option Int} {depth : Nat} {r : Option Bytes}
    (h : walk oid buf fuel start stop depth = some r) : walk oid buf more start stop depth = some r := by
  induction fuel generalizing more start stop depth r with
  | zero => cases h
  | succ fuel ih =>
    obtain ⟨more, rfl⟩ : ∃ n, more = n + 1 := ⟨more - 1, by omega⟩
    have hLess : fuel ≤ more := by omega
    rw [walk] at h ⊢
    split at h
    · rw [if_pos (by assumption)]
      exact h
    rw [if_neg (by assumption)]
    cases hWithin : within start stop with
    | none =>
      rw [hWithin] at h
      exact h
    | some off =>
      simp only [hWithin] at h ⊢
      cases hRead : derReadTLV buf off with
      | error e =>
        simp only [hRead] at h ⊢
        exact h
      | ok tlv =>
        simp only [hRead] at h ⊢
        refine unlessFound_mono (fun found => extensionValue_mono hLess) (fun found hInner => ?_) h
        refine unlessFound_mono (fun below hBelow => ?_) (fun later hLater => ih hLess hLater) hInner
        split at hBelow
        · rw [if_pos (by assumption)]
          exact ih hLess hBelow
        · rw [if_neg (by assumption)]
          exact hBelow

end

/-! ## The search -/

theorem findExtensionValue_mono {fuel more : Nat} (hMore : fuel ≤ more) {certDer : Bytes} {oidDotted : List Nat}
    {r : Except Thrown (Option Bytes)} (h : findExtensionValue fuel certDer oidDotted = some r) :
    findExtensionValue more certDer oidDotted = some r := by
  unfold findExtensionValue at h ⊢
  split
  · rename_i e hOid
    rw [hOid] at h
    exact h
  · rename_i oid hOid
    simp only [hOid] at h
    obtain ⟨found, hWalk, rfl⟩ := Option.map_eq_some_iff.mp h
    rw [walk_mono hMore hWalk]
    rfl

/-- With fuel enough the search returns, always the same. -/
def Terminates (certDer : Bytes) (oidDotted : List Nat) : Prop :=
  ∃ enough result, ∀ fuel, enough ≤ fuel → findExtensionValue fuel certDer oidDotted = some result

theorem terminates_of_lengths {certDer : Bytes} (h : ∀ off, ¬NegativeLength certDer off) (oidDotted : List Nat) :
    Terminates certDer oidDotted := by
  unfold Terminates findExtensionValue
  cases encodeOid oidDotted with
  | error e => exact ⟨0, .error e, fun _ _ => rfl⟩
  | ok oid =>
    obtain ⟨r, hr⟩ := @walk_ends oid certDer h (certDer.length + 1) 0 (some certDer.length) 0 (by omega) (by omega)
    refine ⟨certDer.length + 1, .ok r, fun fuel hFuel => ?_⟩
    exact congrArg (Option.map Except.ok) (hr fuel hFuel)

theorem findExtensionValue_ends_in_bounds_iff (certDer : Bytes) :
    (Terminates certDer APPLE_NONCE_OID ∧
      ∀ (off : Nat) (tlv : Tlv), derReadTLV certDer off = .ok tlv → tlv.InBounds certDer off) ↔
      ∀ off, ¬NegativeLength certDer off := by
  constructor
  · rintro ⟨-, hBounds⟩ off hNegative
    obtain ⟨tlv, hRead, hOut⟩ := not_inBounds_of_negative hNegative
    exact hOut (hBounds off tlv hRead)
  · intro h
    refine ⟨terminates_of_lengths h APPLE_NONCE_OID, fun off tlv hRead => ?_⟩
    obtain ⟨content, next, hContent, hStop, hAfter, hNext, hEnd⟩ := inBounds_of_not_negative hRead (h off)
    obtain ⟨len, hLen, hSum⟩ := Option.map_eq_some_iff.mp hStop
    exact ⟨len, hLen, by omega, by omega, by omega⟩

/-! ## Going round -/

section
variable {oid buf : Bytes} {off : Int} {stop : Option Int} {depth : Nat} {tlv : Tlv}

/-- Whatever the fuel, the walk does not end. -/
def Stuck (oid buf : Bytes) (off : Int) (stop : Option Int) (depth : Nat) : Prop :=
  ∀ fuel, walk oid buf fuel (some off) stop depth = none

theorem walk_succ (hDepth : depth ≤ 24) (hWithin : within (some off) stop = some off)
    (hRead : derReadTLV buf off = .ok tlv) (fuel : Nat) : walk oid buf (fuel + 1) (some off) stop depth =
      unlessFound (extensionValue oid buf fuel tlv) fun _ =>
        unlessFound
          (if tlv.tag.any fun tag => tag.toNat / 32 % 2 = 1 then
            walk oid buf fuel (some tlv.contentStart) tlv.stop (depth + 1)
          else some none)
          fun _ => walk oid buf fuel tlv.stop stop depth := by
  rw [walk, if_neg (by omega), hWithin]
  simp only [hRead]

/-- A primitive element holds no extension. -/
theorem walk_primitive (hDepth : depth ≤ 24) (hWithin : within (some off) stop = some off)
    (hRead : derReadTLV buf off = .ok tlv) {t : UInt8} (hTag : tlv.tag = some t) (hPrimitive : t.toNat / 32 % 2 = 0)
    (fuel : Nat) : walk oid buf (fuel + 1) (some off) stop depth = walk oid buf fuel tlv.stop stop depth := by
  have hSequence : tlv.tag ≠ some 0x30 := by
    rw [hTag]
    rintro ⟨⟩
    cases hPrimitive
  rw [walk_succ hDepth hWithin hRead, extensionValue, if_neg hSequence, hTag, if_neg (by simp [hPrimitive])]
  rfl

/-- An element that ends where it begins. -/
theorem stuck_turning (hDepth : depth ≤ 24) (hWithin : within (some off) stop = some off)
    (hRead : derReadTLV buf off = .ok tlv) {t : UInt8} (hTag : tlv.tag = some t) (hPrimitive : t.toNat / 32 % 2 = 0)
    (hBack : tlv.stop = some off) : Stuck oid buf off stop depth := by
  intro fuel
  induction fuel with
  | zero => rfl
  | succ fuel ih => rw [walk_primitive hDepth hWithin hRead hTag hPrimitive, hBack, ih]

theorem stuck_after (hDepth : depth ≤ 24) (hWithin : within (some off) stop = some off)
    (hRead : derReadTLV buf off = .ok tlv) {t : UInt8} (hTag : tlv.tag = some t) (hPrimitive : t.toNat / 32 % 2 = 0)
    {next : Int} (hNext : tlv.stop = some next) (hStuck : Stuck oid buf next stop depth) :
    Stuck oid buf off stop depth := by
  intro fuel
  cases fuel with
  | zero => rfl
  | succ fuel => rw [walk_primitive hDepth hWithin hRead hTag hPrimitive, hNext, hStuck]

/-- In a constructed element that does not begin with the OID the walk goes on inside. -/
theorem stuck_inside (hDepth : depth ≤ 24) (hWithin : within (some off) stop = some off)
    (hRead : derReadTLV buf off = .ok tlv) (hConstructed : tlv.tag.any (fun tag => tag.toNat / 32 % 2 = 1) = true)
    {inner : Tlv} (hInner : derReadTLV buf tlv.contentStart = .ok inner)
    (hOther : inner.tag ≠ some 0x06 ∨ inner.len ≠ some (oid.length : Int))
    (hStuck : Stuck oid buf tlv.contentStart tlv.stop (depth + 1)) : Stuck oid buf off stop depth := by
  intro fuel
  cases fuel with
  | zero => rfl
  | succ fuel =>
    have hNone : extensionValue oid buf fuel tlv = some none := by
      unfold extensionValue
      split
      · simp only [hInner]
        rw [if_neg]
        rintro ⟨hTag, hLength, -⟩
        exact hOther.elim (absurd hTag) (absurd hLength)
      · rfl
    rw [walk_succ hDepth hWithin hRead, hNone, if_pos hConstructed, hStuck]
    rfl

end

/-- An OCTET STRING of length -6 after its six bytes of header: the walk reads it for ever. -/
def endless : Bytes := [0x04, 0x84, 0xff, 0xff, 0xff, 0xfa]

theorem derReadTLV_endless : derReadTLV endless 0 = .ok ⟨some 0x04, some (-6), 6, 6⟩ := by
  have hLength : longLength ((endless.drop (0 + 2)).take 4) = -6 := by
    change longLength [0xff, 0xff, 0xff, 0xfa] = -6
    rw [longLength_four]
    decide
  have hRead := @derReadTLV_four endless 0 (by decide) rfl (by rw [hLength]; decide)
  rw [hLength] at hRead
  exact hRead

theorem walk_endless (oid : Bytes) (fuel : Nat) : walk oid endless fuel (some 0) (some 6) 0 = none := by
  apply stuck_turning (Nat.zero_le 24) rfl derReadTLV_endless rfl
  · decide
  · rfl

theorem findExtensionValue_endless : (∀ fuel, findExtensionValue fuel endless APPLE_NONCE_OID = none) ∧
    ¬(Terminates endless APPLE_NONCE_OID ∧
      ∀ (off : Nat) (tlv : Tlv), derReadTLV endless off = .ok tlv → tlv.InBounds endless off) := by
  have hNone : ∀ fuel, findExtensionValue fuel endless APPLE_NONCE_OID = none := by
    intro fuel
    unfold findExtensionValue
    split
    · rename_i e hOid
      cases hOid
    · rw [show ((endless.length : Nat) : Int) = 6 from rfl, walk_endless]
      rfl
  refine ⟨hNone, ?_⟩
  rintro ⟨⟨enough, result, hResult⟩, -⟩
  have hSome := hResult enough le_rfl
  rw [hNone] at hSome
  cases hSome

end Columbia.Issuer.AppAttest
