import Columbia.Issuer.Authorisation

/-! # What the binding hash commits to

The preimage is the epoch in decimal, then a zero byte and the message, for every message. Zero bytes also occur
inside of messages, so the separators alone would not do: the epoch ends at the first zero byte, since it is written in
digits, and from there on all messages have one length.
-/
namespace Columbia.Issuer.Binding
open Columbia.Js Columbia.Lib Issue
set_option autoImplicit false

/-! ## Blocks of one length -/

theorem takeWhile_front {α : Type} [DecidableEq α] {sep : α} {front : List α} (blocks : List (List α))
    (h : sep ∉ front) : (front ++ blocks.flatMap (sep :: ·)).takeWhile (· ≠ sep) = front := by
  have hFront : ∀ a ∈ front, decide (a ≠ sep) = true := by
    intro a ha
    exact decide_eq_true fun hEq => h (hEq ▸ ha)
  rw [List.takeWhile_append_of_pos hFront]
  cases blocks with
  | nil => exact List.append_nil _
  | cons block rest => simp

theorem flatMap_blocks_inj {α : Type} {sep : α} {k : Nat} {blocks blocks' : List (List α)}
    (hBlocks : ∀ b ∈ blocks, b.length = k) (hBlocks' : ∀ b ∈ blocks', b.length = k)
    (h : blocks.flatMap (sep :: ·) = blocks'.flatMap (sep :: ·)) : blocks = blocks' := by
  induction blocks generalizing blocks' with
  | nil =>
    cases blocks' with
    | nil => rfl
    | cons block' rest' => cases h
  | cons block rest ih =>
    cases blocks' with
    | nil => cases h
    | cons block' rest' =>
      obtain ⟨hBlock, hRest⟩ := List.forall_mem_cons.mp hBlocks
      obtain ⟨hBlock', hRest'⟩ := List.forall_mem_cons.mp hBlocks'
      simp only [List.flatMap_cons, List.cons_append] at h
      obtain ⟨hHead, hTail⟩ := List.append_inj (List.cons.inj h).2 (hBlock.trans hBlock'.symm)
      rw [hHead, ih hRest hRest' hTail]

/-- The front ends at the first separator, and then every block has its place. -/
theorem front_blocks_inj {α : Type} {sep : α} {k : Nat} {front front' : List α} {blocks blocks' : List (List α)}
    (hFront : sep ∉ front) (hFront' : sep ∉ front') (hBlocks : ∀ b ∈ blocks, b.length = k)
    (hBlocks' : ∀ b ∈ blocks', b.length = k)
    (h : front ++ blocks.flatMap (sep :: ·) = front' ++ blocks'.flatMap (sep :: ·)) :
    front = front' ∧ blocks = blocks' := by
  classical
  have hSame : front = front' := by
    rw [← takeWhile_front blocks hFront, h, takeWhile_front blocks' hFront']
  subst hSame
  exact ⟨rfl, flatMap_blocks_inj hBlocks hBlocks' (List.append_cancel_left h)⟩

/-! ## Epochs in decimal -/

theorem digit_bounds {n : Nat} {c : Char} (h : c ∈ Nat.toDigits 10 n) : 48 ≤ c.toNat ∧ c.toNat ≤ 57 := by
  have hDigit := Nat.isDigit_of_mem_toDigits (by decide) (by decide) h
  simpa [Char.isDigit, UInt32.le_iff_toNat_le] using hDigit

theorem digitsOf_bounds {n : Nat} {c : UInt16} (h : c ∈ digitsOf n) : 48 ≤ c.toNat ∧ c.toNat ≤ 57 := by
  obtain ⟨d, hd, rfl⟩ := List.mem_map.mp h
  have hBounds := digit_bounds hd
  rw [UInt16.toNat_ofNat']
  omega

theorem digitsOf_injective {m n : Nat} (h : digitsOf m = digitsOf n) : m = n := by
  have hBack : ∀ n, (digitsOf n).map (fun u => Char.ofNat u.toNat) = Nat.toDigits 10 n := by
    intro n
    rw [digitsOf, List.map_map]
    refine (List.map_congr_left fun c hc => ?_).trans (List.map_id _)
    have hBounds := digit_bounds hc
    have hNat : (UInt16.ofNat c.toNat).toNat = c.toNat := by
      rw [UInt16.toNat_ofNat']
      omega
    simp only [Function.comp_apply, hNat, Char.ofNat_toNat, id]
  have hDigits : Nat.toDigits 10 m = Nat.toDigits 10 n := by rw [← hBack m, ← hBack n, h]
  rw [← Nat.ofDigitChars_ten_toDigits (n := m), hDigits, Nat.ofDigitChars_ten_toDigits]

theorem decimal_eq (n : Int) : decimal n = (if n < 0 then [45] else []) ++ digitsOf n.natAbs := rfl

theorem decimal_bounds {n : Int} {c : UInt16} (h : c ∈ decimal n) : 45 ≤ c.toNat ∧ c.toNat ≤ 57 := by
  rw [decimal_eq] at h
  rcases List.mem_append.mp h with hSign | hDigit
  · split at hSign
    · obtain rfl := List.mem_singleton.mp hSign
      decide
    · cases hSign
  · have hBounds := digitsOf_bounds hDigit
    omega

theorem decimal_injective {m n : Int} (h : decimal m = decimal n) : m = n := by
  have hNoSign : ∀ (k : Nat) (rest : Str), digitsOf k ≠ 45 :: rest := by
    intro k rest hEq
    have hHead : (45 : UInt16) ∈ digitsOf k := by
      rw [hEq]
      exact List.mem_cons_self
    exact absurd (digitsOf_bounds hHead).1 (by decide)
  simp only [decimal_eq] at h
  split at h
  · rename_i hm
    split at h
    · have hAbs := digitsOf_injective (List.cons.inj h).2
      omega
    · exact absurd h.symm (hNoSign _ _)
  · rename_i hm
    split at h
    · exact absurd h (hNoSign _ _)
    · have hAbs := digitsOf_injective h
      omega

theorem utf8Encode_decimal (n : Int) : utf8Encode (decimal n) = (decimal n).map fun c => UInt8.ofNat c.toNat := by
  apply utf8Encode_ascii
  intro c hc
  have hBounds := decimal_bounds hc
  omega

theorem zero_not_mem_epoch (n : Int) : (0 : UInt8) ∉ utf8Encode (decimal n) := by
  rw [utf8Encode_decimal]
  intro hMem
  obtain ⟨c, hc, hZero⟩ := List.mem_map.mp hMem
  have hBounds := decimal_bounds hc
  have hNat := congrArg UInt8.toNat hZero
  rw [UInt8.toNat_ofNat'] at hNat
  change c.toNat % 256 = 0 at hNat
  omega

theorem epoch_injective {m n : Int} (h : utf8Encode (decimal m) = utf8Encode (decimal n)) : m = n := by
  have hBack : ∀ n, (utf8Encode (decimal n)).map (fun b => UInt16.ofNat b.toNat) = decimal n := by
    intro n
    rw [utf8Encode_decimal, List.map_map]
    refine (List.map_congr_left fun c hc => ?_).trans (List.map_id _)
    have hBounds := decimal_bounds hc
    have hNat : (UInt8.ofNat c.toNat).toNat = c.toNat := by
      rw [UInt8.toNat_ofNat']
      omega
    simp only [Function.comp_apply, hNat, UInt16.ofNat_toNat, id]
  apply decimal_injective
  rw [← hBack m, ← hBack n, h]

/-! ## The preimage -/

theorem bindingBytes_inj {k : Nat} {e e' : Int} {messages messages' : List Bytes} (hLengths : ∀ m ∈ messages, m.length = k)
    (hLengths' : ∀ m ∈ messages', m.length = k) (h : bindingBytes e messages = bindingBytes e' messages') :
    e = e' ∧ messages = messages' := by
  obtain ⟨hEpoch, hMessages⟩ :=
    front_blocks_inj (zero_not_mem_epoch e) (zero_not_mem_epoch e') hLengths hLengths' h
  exact ⟨epoch_injective hEpoch, hMessages⟩

/-! ## The epoch a hash is bound to -/

variable (platform : Platform)

/-- The client data hash is the hash of the batch in this epoch. -/
def Binds (clientDataHash : Value) (blinded : List Str) (e : Int) : Prop :=
  ∃ s, clientDataHash = .str s ∧ base64Decode s = (expectedClientDataHash platform e blinded).val

/-- `boundEpoch` with its candidates in any order. -/
def boundAmong (clientDataHash : Value) (blinded : List Str) (candidates : List Int) : Option Int :=
  match clientDataHash with
  | .str s =>
    if (base64Decode s).length ≠ 32 then none
    else candidates.find? fun candidate => base64Decode s = (expectedClientDataHash platform candidate blinded).val
  | _ => none

theorem boundEpoch_eq_boundAmong (clientDataHash : Value) (blinded : List Str) (epochId : Int) :
    boundEpoch platform clientDataHash blinded epochId =
      boundAmong platform clientDataHash blinded [epochId, epochId - 1] := rfl

/-- No collision between the two preimages that are compared. -/
def CollisionFree (blinded : List Str) (epochId : Int) : Prop :=
  Set.InjOn platform.sha256
    {bindingBytes epochId (blinded.map base64Decode), bindingBytes (epochId - 1) (blinded.map base64Decode)}

variable {platform}

theorem boundAmong_mem {clientDataHash : Value} {blinded : List Str} {candidates : List Int} {e : Int}
    (h : boundAmong platform clientDataHash blinded candidates = some e) :
    e ∈ candidates ∧ Binds platform clientDataHash blinded e := by
  unfold boundAmong at h
  split at h
  · rename_i s
    split at h
    · cases h
    · have hFound := List.find?_some h
      exact ⟨List.mem_of_find?_eq_some h, s, rfl, of_decide_eq_true hFound⟩
  · cases h

theorem boundAmong_isSome {clientDataHash : Value} {blinded : List Str} {candidates : List Int} {e : Int}
    (hMem : e ∈ candidates) (h : Binds platform clientDataHash blinded e) :
    ∃ c, boundAmong platform clientDataHash blinded candidates = some c := by
  obtain ⟨s, rfl, hHash⟩ := h
  have hLength : ¬(base64Decode s).length ≠ 32 := by
    rw [hHash]
    exact not_not.mpr (expectedClientDataHash platform e blinded).property
  simp only [boundAmong, if_neg hLength]
  apply Option.isSome_iff_exists.mp
  rw [List.find?_isSome]
  exact ⟨e, hMem, decide_eq_true hHash⟩

theorem Binds.unique {clientDataHash : Value} {blinded : List Str} {epochId e e' : Int}
    (hLengths : ∀ b ∈ blinded, (base64Decode b).length = RSA_MODULUS_BYTES)
    (hFree : CollisionFree platform blinded epochId) (he : e ∈ [epochId, epochId - 1]) (he' : e' ∈ [epochId, epochId - 1])
    (h : Binds platform clientDataHash blinded e) (h' : Binds platform clientDataHash blinded e') : e = e' := by
  obtain ⟨s, rfl, hHash⟩ := h
  obtain ⟨s', hSame, hHash'⟩ := h'
  cases hSame
  have hMessages : ∀ m ∈ blinded.map base64Decode, m.length = RSA_MODULUS_BYTES := by
    intro m hm
    obtain ⟨b, hb, rfl⟩ := List.mem_map.mp hm
    exact hLengths b hb
  have hPreimage : ∀ c ∈ [epochId, epochId - 1], bindingBytes c (blinded.map base64Decode) ∈
      ({bindingBytes epochId (blinded.map base64Decode), bindingBytes (epochId - 1) (blinded.map base64Decode)} :
        Set Bytes) := by
    intro c hc
    rcases List.mem_cons.mp hc with rfl | hc
    · exact .inl rfl
    · obtain rfl := List.mem_singleton.mp hc
      exact .inr rfl
  have hDigest := Subtype.ext (hHash.symm.trans hHash')
  exact (bindingBytes_inj hMessages hMessages (hFree (hPreimage e he) (hPreimage e' he') hDigest)).1

theorem boundAmong_eq_some {clientDataHash : Value} {blinded : List Str} {epochId e : Int}
    (hLengths : ∀ b ∈ blinded, (base64Decode b).length = RSA_MODULUS_BYTES)
    (hFree : CollisionFree platform blinded epochId) {candidates : List Int}
    (hPerm : candidates.Perm [epochId, epochId - 1]) :
    boundAmong platform clientDataHash blinded candidates = some e ↔
      (e = epochId ∨ e = epochId - 1) ∧ Binds platform clientDataHash blinded e := by
  have hMem : ∀ c, c ∈ candidates ↔ c = epochId ∨ c = epochId - 1 := by
    intro c
    rw [hPerm.mem_iff]
    simp
  constructor
  · intro h
    obtain ⟨hCandidate, hBinds⟩ := boundAmong_mem h
    exact ⟨(hMem e).mp hCandidate, hBinds⟩
  · rintro ⟨hEpoch, hBinds⟩
    obtain ⟨c, hc⟩ := boundAmong_isSome ((hMem e).mpr hEpoch) hBinds
    obtain ⟨hCandidate, hBinds'⟩ := boundAmong_mem hc
    have hSame := hBinds.unique hLengths hFree (hPerm.mem_iff.mp ((hMem e).mpr hEpoch)) (hPerm.mem_iff.mp hCandidate)
      hBinds'
    rw [hc, hSame]

variable (platform) in
/-- The preimage determines the epoch and the batch, so a hash without collisions is bound to one epoch at most. -/
theorem binding_hash_commits :
    (∀ (e e' : Int) (blinded blinded' : List Str), (∀ b ∈ blinded, (base64Decode b).length = RSA_MODULUS_BYTES) →
      (∀ b ∈ blinded', (base64Decode b).length = RSA_MODULUS_BYTES) →
      bindingBytes e (blinded.map base64Decode) = bindingBytes e' (blinded'.map base64Decode) →
      e = e' ∧ blinded.map base64Decode = blinded'.map base64Decode) ∧
    ∀ (clientDataHash : Value) (blinded : List Str) (epochId : Int),
      (∀ b ∈ blinded, (base64Decode b).length = RSA_MODULUS_BYTES) → CollisionFree platform blinded epochId →
      (∀ e, boundEpoch platform clientDataHash blinded epochId = some e ↔
        (e = epochId ∨ e = epochId - 1) ∧ Binds platform clientDataHash blinded e) ∧
      ∀ candidates, candidates.Perm [epochId, epochId - 1] →
        boundAmong platform clientDataHash blinded candidates = boundEpoch platform clientDataHash blinded epochId := by
  constructor
  · intro e e' blinded blinded' hLengths hLengths' h
    refine bindingBytes_inj (k := RSA_MODULUS_BYTES) ?_ ?_ h
    · intro m hm
      obtain ⟨b, hb, rfl⟩ := List.mem_map.mp hm
      exact hLengths b hb
    · intro m hm
      obtain ⟨b, hb, rfl⟩ := List.mem_map.mp hm
      exact hLengths' b hb
  · intro clientDataHash blinded epochId hLengths hFree
    constructor
    · intro e
      exact boundAmong_eq_some hLengths hFree (List.Perm.refl _)
    · intro candidates hPerm
      apply Option.ext
      intro e
      rw [boundEpoch_eq_boundAmong, boundAmong_eq_some hLengths hFree hPerm,
        boundAmong_eq_some hLengths hFree (List.Perm.refl _)]

def testBatch : List Str := [base64Encode testMessage]

/-- A batch of epoch 11 at an issuer that is in epoch 12 already. -/
theorem binding_hash_commits_previous_epoch :
    boundEpoch testIssuer (.str (base64Encode (expectedClientDataHash testIssuer 11 testBatch).val)) testBatch 12 =
      some 11 := by
  have hLengths : ∀ b ∈ testBatch, (base64Decode b).length = RSA_MODULUS_BYTES := by
    intro b hb
    obtain rfl := List.mem_singleton.mp hb
    rw [base64Decode_base64Encode]
    exact List.length_replicate
  have hFree : CollisionFree testIssuer testBatch 12 := by
    have hApart : testIssuer.sha256 (bindingBytes 12 (testBatch.map base64Decode)) ≠
        testIssuer.sha256 (bindingBytes (12 - 1) (testBatch.map base64Decode)) := by decide +kernel
    exact Set.injOn_pair.mpr fun hSame => absurd hSame hApart
  have hBound := ((binding_hash_commits testIssuer).2
    (.str (base64Encode (expectedClientDataHash testIssuer 11 testBatch).val))
    testBatch 12 hLengths hFree).1 11
  exact hBound.mpr ⟨.inr rfl, _, rfl, base64Decode_base64Encode _⟩

end Columbia.Issuer.Binding
