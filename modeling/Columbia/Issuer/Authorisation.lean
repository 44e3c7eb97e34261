import Columbia.Issuer.AppAttest.Gate
import Columbia.Issuer.Issue

/-! # Every issued batch was authorised once

A run of `handleIssue` is, in its reservations, a run of the replicas; so what is known of their ledger holds for
the grants. What a request was verified for is carried along with it, from the body to the response.
-/
namespace Columbia.Issuer.Issue
open Columbia.Js Columbia.Lib StateStore Ledger
open Columbia.Issuer.AppAttest hiding Platform Config
set_option autoImplicit false

variable {platform : Platform} {config : Config}

/-! ## The reservations of a run -/

def reserveOf : Call → Replicas.Call
  | .reserving _ _ _ reserve | .issued _ reserve | .refused _ reserve => reserve
  | _ => .idle

def reservations (p : Pool Replicas.Shared Call) : Pool Replicas.Shared Replicas.Call :=
  ⟨p.shared, fun i => reserveOf (p.calls i)⟩

theorem reserveOf_afterValidation (req : Request) (keys : SigningKey) (result : AppAttest.Result) :
    reserveOf (afterValidation req keys result) = .idle := by
  cases result <;> rfl

theorem reserveOf_keysLoaded {now : Nat → Int} {fuel : Nat} {req : Request} {call : Call}
    (h : keysLoaded platform config now fuel req = some call) : reserveOf call = .idle := by
  unfold keysLoaded at h
  split at h
  · cases h
    rfl
  · obtain ⟨validation, -, rfl⟩ := Option.map_eq_some_iff.mp h
    cases validation with
    | returned result => exact reserveOf_afterValidation _ _ result
    | lookingUp => rfl

theorem reserveOf_respond {now : Int} {req : Request} {keys : SigningKey} {candidate : Candidate}
    {reserve : Replicas.Call} {call : Call} (h : respond platform config now req keys candidate reserve = some call) :
    reserveOf call = reserve := by
  unfold respond at h
  split at h
  · cases h
    rfl
  · cases h
    rfl
  · cases h
    rfl
  · split at h <;> cases h <;> rfl
  · cases h

/-- A step of a request is a step of its reservation, or none. -/
theorem act_reserve {i : Nat} {action : Action} {s t : Replicas.Shared} {call call' : Call}
    (h : act platform config i action s call = some (t, call')) :
    (t = s ∧ reserveOf call' = reserveOf call) ∨ ∃ action',
      Replicas.act platform.hmac config.state config.maxKeys i action' s (reserveOf call) = some (t, reserveOf call') := by
  cases act_step h with
  | start hRead => exact .inl ⟨rfl, rfl⟩
  | unread hRead => exact .inl ⟨rfl, rfl⟩
  | keysLoaded hLoaded => exact .inl ⟨rfl, reserveOf_keysLoaded hLoaded⟩
  | lookup => exact .inl ⟨rfl, reserveOf_afterValidation _ _ _⟩
  | reserve hAct => exact .inr ⟨_, hAct⟩
  | resume hAct => exact .inr ⟨_, hAct⟩
  | respond hRespond => exact .inl ⟨rfl, reserveOf_respond hRespond⟩

theorem reservations_reachable {p : Pool Replicas.Shared Call}
    (h : (handleIssue platform config).system.Reachable p) :
    (Replicas.replicas platform.hmac config.state config.maxKeys).system.Reachable (reservations p) := by
  exact Calls.reachable_project id reserveOf rfl rfl (fun _ _ _ _ _ _ hAct => act_reserve hAct)
    (fun event => nomatch event) h

/-! ## What a request was verified for -/

variable (platform config)

/-- The client data hash commits to the epoch and the messages of the request. -/
structure Bound (req : Request) : Prop where
  hash : ∃ s, req.clientDataHash = .str s ∧
    base64Decode s = (platform.sha256 (bindingBytes req.signingEpochId req.messages)).val
  lengths : ∀ m ∈ req.messages, m.length = RSA_MODULUS_BYTES

/-- The assertion's signature verifies under the key, over its authenticator data and the client data. -/
structure Signed (assertion : Value) (clientDataHash : Bytes) (publicKeyPem : Str) (signCount : Nat)
    (pub : EcKey) (signature authData : Bytes) : Prop where
  object : ∃ buf entries, bufferFrom platform.toPlatform assertion = .ok buf ∧ Decodes buf (.map entries) ∧
    lookup (.text (str "signature")) entries = some (.bytes signature) ∧
    lookup (.text (str "authenticatorData")) entries = some (.bytes authData)
  key : platform.createPublicKey publicKeyPem = some pub
  verified : platform.verify pub (platform.sha256 (authData ++ clientDataHash)).val signature = true
  counter : 37 ≤ authData.length ∧ integerOf (slice authData 33 4) = signCount

structure Verified (req : Request) (candidate : Candidate) : Prop where
  bound : Bound platform req
  assertion : candidate.mode = .assertion → candidate.keyId = base64Encode (base64Decode req.keyId) ∧
    ∃ pub signature authData, Signed platform req.assertion
      (platform.sha256 (bindingBytes req.signingEpochId req.messages)).val candidate.publicKeyPem candidate.signCount
      pub signature authData

def ReservedFor (candidate : Candidate) (reserve : Replicas.Call) : Prop :=
  ∀ r commitID phase, reserve = .running r commitID phase → r.keyId = candidate.keyId ∧ r.mode = candidate.mode ∧
    r.publicKeyPem = candidate.publicKeyPem ∧ r.signCount = candidate.signCount

def SignedBy (keys : SigningKey) (messages : List Bytes) (blindSigs : List Str) : Prop :=
  List.Forall₂ (fun m sig => ∃ s, blindSign platform.rsa keys m = some s ∧ sig = base64Encode s) messages blindSigs

def CallInv : Call → Prop
  | .idle | .refused _ _ => True
  | .awaitingKeys req => Bound platform req
  | .lookingUp req _ storeKeyId clientDataHash => Bound platform req ∧
      storeKeyId = base64Encode (base64Decode req.keyId) ∧
      clientDataHash = (platform.sha256 (bindingBytes req.signingEpochId req.messages)).val
  | .attested req _ candidate => Verified platform req candidate
  | .reserving req _ candidate reserve => Verified platform req candidate ∧ ReservedFor candidate reserve
  | .issued g reserve => Verified platform g.request g.candidate ∧ ReservedFor g.candidate reserve ∧
      g.epoch = g.request.signingEpochId ∧ SignedBy platform g.keys g.request.messages g.blindSigs ∧
      ∃ r commitID, reserve = .running r commitID (.returned .ok)

variable {platform config}

theorem boundEpoch_eq_some {clientDataHash : Value} {blinded : List Str} {epochId e : Int}
    (h : boundEpoch platform clientDataHash blinded epochId = some e) : ∃ s, clientDataHash = .str s ∧
      base64Decode s = (platform.sha256 (bindingBytes e (blinded.map base64Decode))).val := by
  unfold boundEpoch at h
  split at h
  · rename_i s
    split at h
    · cases h
    · have hFound := List.find?_some h
      exact ⟨s, rfl, of_decide_eq_true hFound⟩
  · cases h

theorem readBlinded_lengths {value : Value} {blinded : List Str} (h : readBlinded config value = some blinded) :
    ∀ m ∈ blinded.map base64Decode, m.length = RSA_MODULUS_BYTES := by
  unfold readBlinded at h
  split at h
  · split at h
    · have hAll : ∀ b ∈ blinded, (base64Decode b).length = RSA_MODULUS_BYTES :=
        forall_of_mapM_eq_some (fun item b hItem => by simpa using (Option.filter_eq_some_iff.mp hItem).2) h
      intro m hm
      obtain ⟨b, hb, rfl⟩ := List.mem_map.mp hm
      exact hAll b hb
    · cases h
  · cases h

theorem readRequest_bound (hBinding : config.REQUIRE_CLIENT_DATA_BINDING = true) {now : Nat → Int} {body : Bytes}
    {req : Request} (h : readRequest platform config now body = .ok req) : Bound platform req := by
  simp only [readRequest, bind_eq_ok, orThrow_eq_ok, require_eq_ok, exists_const, hBinding, if_true,
    Except.ok.injEq] at h
  obtain ⟨parsed, -, keyId, -, blinded, hBlinded, e, hBound, -, rfl⟩ := h
  exact ⟨boundEpoch_eq_some hBound, readBlinded_lengths hBlinded⟩

theorem decodeKeyId_eq_ok {keyId : Str} {bytes : Bytes} (h : decodeKeyId (.str keyId) = .ok bytes) :
    bytes = base64Decode keyId := by
  simp only [decodeKeyId, bind_eq_ok, require_eq_ok, exists_const, Except.ok.injEq] at h
  exact h.2.symm

theorem verifyAssertion_signed {assertion : Value} {buf clientDataHash : Bytes} {publicKeyPem : Str} {pub : EcKey}
    {storedCounter : Int} {newCount : Nat} (hBuf : bufferFrom platform.toPlatform assertion = .ok buf)
    (hKey : platform.createPublicKey publicKeyPem = some pub)
    (h : verifyAssertion platform.toPlatform config.appAttest buf clientDataHash pub storedCounter = .ok newCount) :
    ∃ signature authData, Signed platform assertion clientDataHash publicKeyPem newCount pub signature authData := by
  obtain ⟨decoded, hDecoded, h⟩ := bind_eq_ok.mp h
  split at h
  · rename_i entries hMap
    simp only [bind_eq_ok, orThrow_eq_ok, require_eq_ok, exists_const, Except.ok.injEq, bytesItem?_eq_some] at h
    obtain ⟨signature, hSignature, authData, hAuthData, hVerified, parsed, hParsed, -, -, rfl⟩ := h
    simp only [parseAuthenticatorData, bind_eq_ok, require_eq_ok, exists_const, Except.ok.injEq] at hParsed
    obtain ⟨hLength, attested, -, rfl⟩ := hParsed
    exact ⟨signature, authData, ⟨buf, entries, hBuf, decodes_iff.mpr ⟨decoded, hDecoded, hMap⟩, hSignature, hAuthData⟩,
      hKey, hVerified, hLength, rfl⟩
  · cases h

theorem validateAssertion_signed {assertion : Value} {storeKeyId : Str} {clientDataHash : Bytes}
    {record : Option (Option (Str × Int))} {candidate : Candidate}
    (h : validateAssertion platform.toPlatform config.appAttest assertion storeKeyId clientDataHash record =
      .ok candidate) :
    candidate.keyId = storeKeyId ∧ ∃ pub signature authData,
      Signed platform assertion clientDataHash candidate.publicKeyPem candidate.signCount pub signature authData := by
  unfold validateAssertion at h
  split at h
  · cases h
  · cases h
  · split at h
    · cases h
    · rename_i publicKeyPem signCount _
      have hOk := closed_eq_ok.mp h
      simp only [bind_eq_ok, orThrow_eq_ok, Except.ok.injEq] at hOk
      obtain ⟨pub, hPub, buf, hBuf, newCount, hAssertion, rfl⟩ := hOk
      exact ⟨rfl, pub, verifyAssertion_signed hBuf hPub hAssertion⟩

/-! ## One step -/

theorem afterValidation_inv {req : Request} {keys : SigningKey} {result : AppAttest.Result}
    (h : ∀ candidate, result = .ok candidate → Verified platform req candidate) :
    CallInv platform (afterValidation req keys result) := by
  cases result with
  | ok candidate => exact h candidate rfl
  | rejected => trivial

theorem keysLoaded_inv {now : Nat → Int} {fuel : Nat} {req : Request} {call : Call} (hBound : Bound platform req)
    (h : keysLoaded platform config now fuel req = some call) : CallInv platform call := by
  unfold keysLoaded at h
  split at h
  · cases h
    trivial
  · obtain ⟨validation, hValidation, rfl⟩ := Option.map_eq_some_iff.mp h
    cases validation with
    | returned result =>
      refine afterValidation_inv fun candidate hOk => ⟨hBound, fun hMode => ?_⟩
      subst hOk
      rw [validateAppAttest_ok hValidation] at hMode
      cases hMode
    | lookingUp storeKeyId clientDataHash =>
      obtain ⟨hash, keyId, hArgs, rfl, hKeyId, rfl⟩ := validateAppAttest_lookingUp hValidation
      obtain ⟨s, hStr, hHash⟩ := hBound.hash
      cases hStr.symm.trans hArgs
      rw [decodeKeyId_eq_ok hKeyId]
      exact ⟨hBound, rfl, hHash⟩

theorem validated_reserveArgs {req : Request} {candidate : Candidate} {r : Reservation}
    (h : validated (req.reserveArgs candidate) = some r) : (r.keyId = candidate.keyId ∧ r.mode = candidate.mode ∧
      r.publicKeyPem = candidate.publicKeyPem ∧ r.signCount = candidate.signCount) ∧
      r.epoch = req.epochId ∧ r.count = req.blinded.length := by
  have hMode : mode? (req.reserveArgs candidate).mode = some candidate.mode := by
    cases hc : candidate.mode <;> simp only [Request.reserveArgs, hc] <;> decide
  unfold validated at h
  split at h
  · rename_i mode pem signCount epoch count hMode' hPem hSign hEpoch hCount
    split at h
    · cases h
      cases hMode.symm.trans hMode'
      cases hPem
      exact ⟨⟨rfl, rfl, rfl, safeIntegerFrom?_int hSign⟩, safeIntegerFrom?_int hEpoch, safeIntegerFrom?_int hCount⟩
    · cases h
  · cases h

theorem reservedFor_start {i : Nat} {s t : Replicas.Shared} {req : Request} {candidate : Candidate} {commitID : Str}
    {reserve : Replicas.Call} (h : Replicas.act platform.hmac config.state config.maxKeys i
      (.start (req.reserveArgs candidate) commitID) s .idle = some (t, reserve)) : ReservedFor candidate reserve := by
  simp only [Replicas.act] at h
  split at h <;> cases h
  · nofun
  · rename_i r hValidated
    intro r' commitID' phase hRunning
    cases hRunning
    exact (validated_reserveArgs hValidated).1

theorem reservedFor_resume {i : Nat} {s t : Replicas.Shared} {candidate : Candidate}
    {reserve reserve' : Replicas.Call} (h : ReservedFor candidate reserve)
    (hAct : Replicas.act platform.hmac config.state config.maxKeys i .resume s reserve = some (t, reserve')) :
    ReservedFor candidate reserve' := by
  have hKeep : ∀ r commitID phase phase', reserve = .running r commitID phase →
      reserve' = .running r commitID phase' → ReservedFor candidate reserve' := by
    rintro r commitID phase phase' rfl rfl r' commitID' phase'' hRunning
    cases hRunning
    exact h r commitID phase rfl
  rcases Replicas.act_cases hAct with ⟨-, rfl, -⟩ | ⟨r, commitID, attempt, -, hBefore, hAfter⟩ |
      ⟨r, commitID, attempt, etag, value, hBefore, ⟨-, hAfter⟩ | ⟨b, -, -, hAfter⟩ | ⟨b, -, -, hAfter⟩⟩
  · cases hAct
  · exact hKeep _ _ _ _ hBefore hAfter
  · exact hKeep _ _ _ _ hBefore hAfter
  · exact hKeep _ _ _ _ hBefore hAfter
  · exact hKeep _ _ _ _ hBefore hAfter

theorem grant_eq_some {req : Request} {keys : SigningKey} {candidate : Candidate} {g : Grant}
    (h : grant platform req keys candidate = some g) : g.request = req ∧ g.candidate = candidate ∧
      g.epoch = req.signingEpochId ∧ SignedBy platform g.keys req.messages g.blindSigs := by
  obtain ⟨sigs, hSigs, rfl⟩ := Option.map_eq_some_iff.mp h
  refine ⟨rfl, rfl, rfl, ?_⟩
  rw [SignedBy, List.forall₂_map_right_iff]
  exact (mapM_eq_some.mp hSigs).imp fun _ s hs => ⟨s, hs, rfl⟩

theorem respond_inv {now : Int} {req : Request} {keys : SigningKey} {candidate : Candidate} {reserve : Replicas.Call}
    {call : Call} (hVerified : Verified platform req candidate) (hReserved : ReservedFor candidate reserve)
    (h : respond platform config now req keys candidate reserve = some call) : CallInv platform call := by
  unfold respond at h
  split at h
  · cases h
    trivial
  · cases h
    trivial
  · cases h
    trivial
  · rename_i r commitID
    split at h <;> cases h
    · rename_i g hGrant
      obtain ⟨hReq, hCandidate, hEpoch, hSigs⟩ := grant_eq_some hGrant
      rw [CallInv, hReq, hCandidate]
      exact ⟨hVerified, hReserved, hEpoch, hSigs, r, commitID, rfl⟩
    · trivial
  · cases h

theorem act_inv (hBinding : config.REQUIRE_CLIENT_DATA_BINDING = true) {i : Nat} {action : Action}
    {s t : Replicas.Shared} {call call' : Call} (h : CallInv platform call)
    (hAct : act platform config i action s call = some (t, call')) : CallInv platform call' := by
  cases act_step hAct with
  | start hRead => exact readRequest_bound hBinding hRead
  | unread hRead => trivial
  | keysLoaded hLoaded => exact keysLoaded_inv h hLoaded
  | lookup =>
    obtain ⟨hBound, rfl, rfl⟩ := h
    refine afterValidation_inv fun candidate hOk => ⟨hBound, fun _ => ?_⟩
    exact validateAssertion_signed hOk
  | reserve hReserve => exact ⟨h, reservedFor_start hReserve⟩
  | resume hReserve => exact ⟨h.1, reservedFor_resume h.2 hReserve⟩
  | respond hRespond => exact respond_inv h.1 h.2 hRespond

/-! ## A whole run -/

theorem handleIssue_calls (hBinding : config.REQUIRE_CLIENT_DATA_BINDING = true) {p : Pool Replicas.Shared Call}
    (h : (handleIssue platform config).system.Reachable p) : ∀ i, CallInv platform (p.calls i) := by
  have hIdle : ∀ i : Nat, CallInv platform (handleIssue platform config).idle := fun _ => trivial
  refine (Calls.invariant (fun _ => True) (fun _ _ call => CallInv platform call) trivial hIdle
    (fun p i action t call _ _ hInv hAct => ?_) (fun _ _ _ _ _ _ _ _ _ _ hInv _ => hInv)
    (fun _ event => nomatch event) h).2
  exact ⟨trivial, act_inv hBinding hInv hAct⟩

def IssuedByAssertion (p : Pool Replicas.Shared Call) (i : Nat) (g : Grant) : Prop :=
  (∃ reserve, p.calls i = .issued g reserve) ∧ g.candidate.mode = .assertion

variable (platform config) in
/-- The device's registered key signed these messages, for this epoch, at this count. -/
structure Authorised (s : Replicas.Shared) (g : Grant) : Prop where
  device : g.candidate.keyId = base64Encode (base64Decode g.request.keyId)
  registered : ∃ row, s.backend.get (keyFor platform.hmac config.state.salt g.candidate.keyId) = some row ∧
    row.2.publicKeyPem = g.candidate.publicKeyPem
  bound : ∃ hash, g.request.clientDataHash = .str hash ∧
    base64Decode hash = (expectedClientDataHash platform g.epoch g.request.blinded).val ∧
    ∃ pub signature authData, Signed platform g.request.assertion (base64Decode hash) g.candidate.publicKeyPem
      g.candidate.signCount pub signature authData
  messages : ∀ m ∈ g.request.messages, m.length = 256
  signed : SignedBy platform g.keys g.request.messages g.blindSigs

theorem issued_commit (hBinding : config.REQUIRE_CLIENT_DATA_BINDING = true) {p : Pool Replicas.Shared Call}
    (h : (handleIssue platform config).system.Reachable p) {i : Nat} {g : Grant} (hi : IssuedByAssertion p i g) :
    ∃ c ∈ p.shared.log, c.call = i ∧ c.key = keyFor platform.hmac config.state.salt g.candidate.keyId ∧
      c.reservation.mode = .assertion ∧ c.reservation.publicKeyPem = g.candidate.publicKeyPem ∧
      c.reservation.signCount = g.candidate.signCount := by
  obtain ⟨⟨reserve, hCall⟩, hMode⟩ := hi
  have hInv := handleIssue_calls hBinding h i
  rw [hCall] at hInv
  obtain ⟨-, hReserved, -, -, r, commitID, rfl⟩ := hInv
  obtain ⟨hKeyId, hrMode, hPem, hCount⟩ := hReserved r commitID _ rfl
  have hReturned : Replicas.ReturnedOk (reservations p) i r := ⟨commitID, congrArg reserveOf hCall⟩
  refine ⟨⟨i, Replicas.rowKey platform.hmac config.state r, r⟩, ?_, rfl, ?_, hrMode.trans hMode, hPem, hCount⟩
  · exact (Replicas.mem_log_iff (reservations_reachable h) _).mpr ⟨hReturned, rfl⟩
  · rw [Replicas.rowKey, hKeyId]

/-- Every batch issued on an assertion was authorised by its device, for these messages and this epoch, and no
counter of a device was good for two. -/
theorem handleIssue_authorised_once (hBinding : config.REQUIRE_CLIENT_DATA_BINDING = true)
    {p : Pool Replicas.Shared Call} (h : (handleIssue platform config).system.Reachable p) :
    (∀ i g, IssuedByAssertion p i g → Authorised platform config p.shared g) ∧
    ∀ i j gi gj, IssuedByAssertion p i gi → IssuedByAssertion p j gj →
      (gi.candidate.keyId, gi.candidate.signCount) = (gj.candidate.keyId, gj.candidate.signCount) → i = j := by
  have hLedger := (Replicas.replicas_invariant (reservations_reachable h)).1
  constructor
  · intro i g hi
    obtain ⟨c, hc, -, hKey, -, hPem, -⟩ := issued_commit hBinding h hi
    obtain ⟨row, hRow, hRowPem⟩ := hLedger.registered c hc
    obtain ⟨⟨reserve, hCall⟩, hMode⟩ := hi
    have hInv := handleIssue_calls hBinding h i
    rw [hCall] at hInv
    obtain ⟨hVerified, -, hEpoch, hSigs, -⟩ := hInv
    obtain ⟨hash, hStr, hHash⟩ := hVerified.bound.hash
    obtain ⟨hDevice, hSigned⟩ := hVerified.assertion hMode
    refine ⟨hDevice, ⟨row, hKey ▸ hRow, hRowPem.trans hPem⟩, ⟨hash, hStr, ?_, hHash ▸ hSigned⟩,
      hVerified.bound.lengths, hSigs⟩
    rw [hHash, hEpoch]
    rfl
  · intro i j gi gj hi hj hPair
    obtain ⟨hKeyId, hCount⟩ := Prod.mk.inj hPair
    obtain ⟨c, hc, rfl, hcKey, hcMode, -, hcCount⟩ := issued_commit hBinding h hi
    obtain ⟨d, hd, rfl, hdKey, hdMode, -, hdCount⟩ := issued_commit hBinding h hj
    have hSame : d.key = c.key := by rw [hcKey, hdKey, hKeyId]
    have hCounts : c.reservation.signCount = d.reservation.signCount := by rw [hcCount, hdCount, hCount]
    exact congrArg Commit.call ((hLedger.lawful c.key).commit_unique hc hd hSame hcMode hdMode hCounts)

/-! ## A device registers, then races itself with one assertion -/

def testMessage : Bytes := List.replicate 256 9

def testDigest : Bytes := (testHash (bindingBytes 0 [testMessage])).val

def testAssertion : Bytes :=
  [0xa2, 0x69] ++ utf8Encode (str "signature") ++ [0x41, 1] ++ [0x71] ++ utf8Encode (str "authenticatorData") ++
    [0x58, 37] ++ (testHash (utf8Encode (appId testConfig))).val ++ [0, 0, 0, 0, 1]

def testBody (proof : String) (bytes : Bytes) : Value :=
  .obj [(str "keyId", .str (base64Encode testKeyId)), (str proof, .str (base64Encode bytes)),
    (str "clientDataHash", .str (base64Encode testDigest)), (str "blinded", .arr [.str (base64Encode testMessage)])]

def testIssuer : Platform where
  toPlatform := testPlatform
  hmac := Replicas.testHmac
  jsonParse bytes :=
    some (if bytes = [0] then testBody "attestation" testAttestation else testBody "assertion" testAssertion)
  rsa := ⟨fun _ m => some m, fun _ m => some m⟩

def testIssuerConfig : Config where
  EPOCH_SECONDS := 86400
  MAX_TOKENS_PER_REQUEST := 5
  REQUIRE_CLIENT_DATA_BINDING := true
  imported := some (.legacy ⟨str "key", str "spki"⟩)
  appAttest := testConfig
  state := Replicas.testState
  maxKeys := 10

/-- Calls 1 and 2 both verify before either of them reserves. -/
def registerAndRace : List (Calls.Label Action Empty) :=
  [.act 0 (.start [0] fun _ => 5), .act 0 (.keysLoaded (fun _ => 5) 2147483648), .act 0 (.reserve (str "a")),
   .act 0 .resume, .act 0 .resume, .act 0 (.respond 5),
   .act 1 (.start [1] fun _ => 5), .act 2 (.start [1] fun _ => 5), .act 1 (.keysLoaded (fun _ => 5) 2147483648),
   .act 2 (.keysLoaded (fun _ => 5) 2147483648), .act 1 .lookup, .act 2 .lookup, .act 1 (.reserve (str "b")),
   .act 2 (.reserve (str "c")), .act 1 .resume, .act 2 .resume, .act 2 .resume, .act 1 .resume, .act 1 .resume,
   .act 1 (.respond 5), .act 2 (.respond 5)]

def raced := (handleIssue testIssuer testIssuerConfig).system.after registerAndRace

def Call.outcome? : Call → Option (Nat × Option Mode)
  | .issued g _ => some (200, some g.candidate.mode)
  | .refused response _ => some (response.status, none)
  | _ => none

theorem handleIssue_authorised_once_raced : testIssuerConfig.REQUIRE_CLIENT_DATA_BINDING = true ∧
    (raced.calls 1).outcome? = some (401, none) ∧
    ∃ g, IssuedByAssertion raced 2 g ∧ Authorised testIssuer testIssuerConfig raced.shared g := by
  obtain ⟨hFirst, hSecond⟩ : (raced.calls 1).outcome? = some (401, none) ∧
      (raced.calls 2).outcome? = some (200, some .assertion) := by decide +kernel
  refine ⟨rfl, hFirst, ?_⟩
  cases hCall : raced.calls 2 with
  | issued g reserve =>
    rw [hCall] at hSecond
    have hIssued : IssuedByAssertion raced 2 g := ⟨⟨reserve, hCall⟩, by simpa [Call.outcome?] using hSecond⟩
    exact ⟨g, hIssued, (handleIssue_authorised_once rfl (System.reachable_after _ _)).1 2 g hIssued⟩
  | _ => simp [hCall, Call.outcome?] at hSecond

end Columbia.Issuer.Issue
