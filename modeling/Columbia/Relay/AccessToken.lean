import Columbia.Js.Bytes
import Columbia.Lib.Transition
import Columbia.Relay.IssuerKeyCache
import Columbia.Relay.Redeemer

/-! # Verification of access tokens

`verifyAccessToken` reads the envelope, asks the key cache for the key, verifies the signature and redeems its
hash. Calls of any number of relay processes interleave at every await over one redeemer; each process has a
key cache of its own. Validity is about the signature as a number, the spend is about its bytes.
-/
namespace Columbia.Relay.AccessToken
open Columbia.Js Columbia.Lib
open Columbia.Relay.IssuerKeyCache
open Columbia.Relay.RedemptionStore (Request Result)
set_option autoImplicit false

/-- What the code calls outside of itself. `verify` is RSA-PSS verification, false also when it throws: it
reads a signature as an integer, and has no signature longer than the modulus. -/
structure Platform extends Crypto where
  jsonParse : Bytes → Option Value
  verify : PublicKey → Bytes → Bytes → Bool
  verify_integer : ∀ key input a b, key.modulusLength = 2048 → a.length ≤ 256 → b.length ≤ 256 →
    integerOf a = integerOf b → verify key input a = verify key input b
  verify_long : ∀ key input a, key.modulusLength = 2048 → 256 < a.length → verify key input a = false

def asciiLower (c : UInt16) : UInt16 := if upper c then c + 32 else c

/-- `/^<name>\s+/i`, with the rest. -/
def scheme? (name s : Str) : Option Str :=
  let rest := s.drop name.length
  if (s.take name.length).map asciiLower = name ∧ (rest.head?.map whitespace).getD false then
    some (rest.dropWhile whitespace)
  else none

def stripScheme (s : Str) : Str := ((scheme? (str "privatetoken") s).or (scheme? (str "bearer") s)).getD s

structure Token where
  keyId : Str
  tokenInput : Str
  signature : Str
  deriving DecidableEq

variable (platform : Platform)

def readToken (presented : Value) : Option Token := do
  let s ← string? presented
  guard (s ≠ [])
  let raw := trim (stripScheme s)
  let tok ← platform.jsonParse (base64Decode raw)
  some ⟨← string? (tok.field "keyId"), ← string? (tok.field "tokenInput"), ← string? (tok.field "signature")⟩

def nullifierFor (sigBytes : Bytes) : Str := hex (platform.sha256 sigBytes).val

def verified (key : PublicKey) (token : Token) : Option Bytes :=
  let inputBuf := base64Decode token.tokenInput
  let sigBuf := base64Decode token.signature
  if inputBuf = [] ∨ sigBuf = [] then none
  else if platform.verify key inputBuf sigBuf then some sigBuf
  else none

/-- `admitted` is a returned `true`, with the key and the signature that were spent. -/
inductive Outcome
  | admitted (entry : Entry) (signature : Bytes)
  | refused
  | unavailable
  deriving DecidableEq

variable (config : Config) (R : Redeemer)

inductive Call
  | idle
  | awaitingKey (client : Nat) (token : Token) (promise : Option Nat)
  | gotKey (client : Nat) (token : Token) (a : Answer)
  | redeeming (entry : Entry) (signature : Bytes) (request : Request) (phase : R.Phase)
  | returned (outcome : Outcome)

variable {R} in
def Call.outcome? : Call R → Option Outcome
  | .returned outcome => some outcome
  | _ => none

inductive Action
  | start (client : Nat) (presented : Value) (now : Nat → Int)
  | resumeGet (now : Nat → Int)
  | check (claimID : Str)
  | resumeRedeem (fault : R.Fault)
  | finish

structure Shared where
  caches : Nat → KeyCache
  store : R.Store

inductive Event
  | fetched (client : Nat) (now : Nat → Int) (doc : Option Value)
  | cleared (client : Nat)
  | store (event : R.Event)

variable {R}

def Shared.cached (s : Shared R) (client : Nat) (cache : KeyCache) : Shared R :=
  ⟨Function.update s.caches client cache, s.store⟩

def Shared.stored (s : Shared R) (store : R.Store) : Shared R := ⟨s.caches, store⟩

def startCall (client : Nat) (presented : Value) (now : Nat → Int) (s : Shared R) : Shared R × Call R :=
  match readToken platform presented with
  | none => (s, .returned .refused)
  | some token =>
    match get config now (s.caches client) token.keyId with
    | (cache, .answered a) => (s.cached client cache, .gotKey client token a)
    | (cache, .awaiting promise) => (s.cached client cache, .awaitingKey client token promise)

def checkCall (i client : Nat) (token : Token) (a : Answer) (claimID : Str) (s : Shared R) :
    Option (Shared R × Call R) :=
  match a with
  | .null => some (s, .returned .refused)
  | .unavailable => some (s, .returned .unavailable)
  | .entry entry =>
    match verified platform entry.publicKey token with
    | none => some (s, .returned .refused)
    | some signature =>
      let request := ⟨client, entry.fingerprint, nullifierFor platform signature, claimID⟩
      (R.start i s.store request).map fun x => (s.stored x.1, .redeeming entry signature request x.2)

def outcome (entry : Entry) (signature : Bytes) : Result → Outcome
  | .verdict true => .admitted entry signature
  | .verdict false => .refused
  | .unavailable => .unavailable

def act (i : Nat) : Action R → Shared R → Call R → Option (Shared R × Call R)
  | .start client presented now, s, .idle => some (startCall platform config client presented now s)
  | .resumeGet now, s, .awaitingKey client token promise =>
    (getResume now (s.caches client) token.keyId promise).map fun a => (s, .gotKey client token a)
  | .check claimID, s, .gotKey client token a => checkCall platform i client token a claimID s
  | .resumeRedeem fault, s, .redeeming entry signature request phase =>
    (R.resume i fault s.store request phase).map fun x => (s.stored x.1, .redeeming entry signature request x.2)
  | .finish, s, .redeeming entry signature _ phase =>
    (R.result phase).map fun result => (s, .returned (outcome entry signature result))
  | _, _, _ => none

def env : Event R → Shared R → Option (Shared R)
  | .fetched client now doc, s =>
    (fetched platform.toCrypto now doc (s.caches client)).map fun cache => s.cached client cache
  | .cleared client, s => (clear (s.caches client)).map fun cache => s.cached client cache
  | .store event, s => (R.settle s.store event).map fun store => s.stored store

variable (R)

def verifyAccessToken : Calls (Shared R) (Call R) (Action R) (Event R) where
  start := ⟨fun _ => .empty, R.empty⟩
  idle := .idle
  act := act platform config
  env := env platform

/-! ## One spend for one key and one number -/

/-- A signature is presented with all the bytes of the modulus, leading zeros included. -/
def FullLength (token : Token) : Prop :=
  ¬(0 < (base64Decode token.signature).length ∧ (base64Decode token.signature).length < 256)

variable (encoding : Nat → Nat → Bytes)

/-- An RSA key is only ever published in one encoding. -/
def OneEncoding (keys : OrderedMap Str Entry) : Prop :=
  ∀ keyId entry, keys.get? keyId = some entry →
    entry.publicKey.spki = encoding entry.publicKey.modulus entry.publicKey.exponent

def Canonical (_ : Pool (Shared R) (Call R)) : Calls.Label (Action R) (Event R) → Prop
  | .act _ (.start _ presented _) => ∀ token, readToken platform presented = some token → FullLength token
  | .env (.fetched _ now (some doc)) =>
    ∀ keys, parse platform.toCrypto (now 0) doc = some keys → OneEncoding encoding keys
  | _ => True

variable {R}

structure SharedInv (s : Shared R) : Prop where
  store : R.Inv s.store
  sound : ∀ client, KeysSound platform.toCrypto (s.caches client).keys
  encoded : ∀ client, OneEncoding encoding (s.caches client).keys

/-- What the request commits to: the key through its encoding, the number through its 256 bytes. -/
structure Spend (i : Nat) (s : Shared R) (entry : Entry) (signature : Bytes) (request : Request) (phase : R.Phase) :
    Prop where
  fingerprint : request.fingerprint = fingerprintOf platform.toCrypto entry.publicKey
  encoded : entry.publicKey.spki = encoding entry.publicKey.modulus entry.publicKey.exponent
  nullifier : request.nullifier = nullifierFor platform signature
  length : signature.length = 256
  owns : R.Owns i s.store request phase

def CallInv (i : Nat) (s : Shared R) : Call R → Prop
  | .idle | .returned .refused | .returned .unavailable => True
  | .awaitingKey _ token _ => FullLength token
  | .gotKey _ token a => FullLength token ∧ ∀ entry, a = .entry entry →
      EntrySound platform.toCrypto token.keyId entry ∧
      entry.publicKey.spki = encoding entry.publicKey.modulus entry.publicKey.exponent
  | .redeeming entry signature request phase => Spend platform encoding i s entry signature request phase
  | .returned (.admitted entry signature) => ∃ request phase,
      Spend platform encoding i s entry signature request phase ∧ R.result phase = some (.verdict true)

variable {platform config encoding}

theorem callInv_extends {i : Nat} {s t : Shared R} {call : Call R} (h : CallInv platform encoding i s call)
    (hExt : ∀ request phase, R.Owns i s.store request phase → R.Owns i t.store request phase) :
    CallInv platform encoding i t call := by
  have hSpend : ∀ entry signature request phase, Spend platform encoding i s entry signature request phase →
      Spend platform encoding i t entry signature request phase := fun entry signature request phase hSpend =>
    { hSpend with owns := hExt request phase hSpend.owns }
  unfold CallInv at h ⊢
  split at h
  · trivial
  · trivial
  · trivial
  · exact h
  · exact h
  · exact hSpend _ _ _ _ h
  · obtain ⟨request, phase, hOld, hWon⟩ := h
    exact ⟨request, phase, hSpend _ _ _ _ hOld, hWon⟩

theorem SharedInv.cached {s : Shared R} (h : SharedInv platform encoding s) (client : Nat) {cache : KeyCache}
    (hSound : KeysSound platform.toCrypto cache.keys) (hEncoded : OneEncoding encoding cache.keys) :
    SharedInv platform encoding (s.cached client cache) := by
  have hUpdate : ∀ P : KeyCache → Prop, P cache → (∀ c, P (s.caches c)) →
      ∀ c, P (Function.update s.caches client cache c) := by
    intro P hNew hOld c
    by_cases hc : c = client
    · subst hc
      rw [Function.update_self]
      exact hNew
    · rw [Function.update_of_ne hc]
      exact hOld c
  exact ⟨h.store, hUpdate (fun c => KeysSound platform.toCrypto c.keys) hSound h.sound,
    hUpdate (fun c => OneEncoding encoding c.keys) hEncoded h.encoded⟩

theorem SharedInv.stored {s : Shared R} (h : SharedInv platform encoding s) {store : R.Store} (hStore : R.Inv store) :
    SharedInv platform encoding (s.stored store) := ⟨hStore, h.sound, h.encoded⟩

theorem SharedInv.entry {s : Shared R} (h : SharedInv platform encoding s) {client : Nat} {keyId : Str} {e : Entry}
    (hGet : (s.caches client).keys.get? keyId = some e) :
    EntrySound platform.toCrypto keyId e ∧ e.publicKey.spki = encoding e.publicKey.modulus e.publicKey.exponent :=
  ⟨h.sound client keyId e hGet, h.encoded client keyId e hGet⟩

variable (platform encoding) in
/-- A step keeps the shared invariant and the other calls' ownership, and leaves its own call in order. -/
structure Kept (i : Nat) (s t : Shared R) (call : Call R) : Prop where
  shared : SharedInv platform encoding t
  own : CallInv platform encoding i t call
  owns : ∀ j request phase, R.Owns j s.store request phase → R.Owns j t.store request phase

theorem startCall_kept {i client : Nat} {presented : Value} {now : Nat → Int} {s t : Shared R} {call : Call R}
    (h : SharedInv platform encoding s)
    (hOk : ∀ token, readToken platform presented = some token → FullLength token)
    (hStart : startCall platform config client presented now s = (t, call)) : Kept platform encoding i s t call := by
  unfold startCall at hStart
  split at hStart
  · cases hStart
    exact ⟨h, trivial, fun _ _ _ hOwns => hOwns⟩
  · rename_i token hToken
    have hKeys := get_keys config now (s.caches client) token.keyId
    have hCached : SharedInv platform encoding (s.cached client (get config now (s.caches client) token.keyId).1) :=
      h.cached client (hKeys ▸ h.sound client) (hKeys ▸ h.encoded client)
    split at hStart
    · rename_i cache a hGet
      cases hStart
      rw [hGet] at hCached
      refine ⟨hCached, ⟨hOk token hToken, ?_⟩, fun _ _ _ hOwns => hOwns⟩
      rintro e rfl
      exact h.entry (get_answered hGet)
    · rename_i cache promise hGet
      cases hStart
      rw [hGet] at hCached
      exact ⟨hCached, hOk token hToken, fun _ _ _ hOwns => hOwns⟩

theorem verified_eq_some {key : PublicKey} {token : Token} {signature : Bytes}
    (h : verified platform key token = some signature) :
    base64Decode token.tokenInput ≠ [] ∧ base64Decode token.signature = signature ∧ signature ≠ [] ∧
      platform.verify key (base64Decode token.tokenInput) signature = true := by
  simp only [verified] at h
  split at h
  · cases h
  · rename_i hNonempty
    obtain ⟨hInput, hSignature⟩ := not_or.mp hNonempty
    split at h
    · rename_i hVerify
      cases h
      exact ⟨hInput, rfl, hSignature, hVerify⟩
    · cases h

theorem verified_length {key : PublicKey} {token : Token} {signature : Bytes} (hKey : key.modulusLength = 2048)
    (hFull : FullLength token) (h : verified platform key token = some signature) : signature.length = 256 := by
  obtain ⟨-, rfl, hNonempty, hVerify⟩ := verified_eq_some h
  have hPos : 0 < (base64Decode token.signature).length := List.length_pos_iff.mpr hNonempty
  have hShort : ¬256 < (base64Decode token.signature).length := by
    intro hLong
    rw [platform.verify_long key _ _ hKey hLong] at hVerify
    cases hVerify
  unfold FullLength at hFull
  omega

theorem checkCall_kept {i client : Nat} {token : Token} {a : Answer} {claimID : Str} {s t : Shared R} {call : Call R}
    (h : SharedInv platform encoding s) (hCall : CallInv platform encoding i s (.gotKey client token a))
    (hCheck : checkCall platform i client token a claimID s = some (t, call)) :
    Kept platform encoding i s t call := by
  unfold checkCall at hCheck
  split at hCheck
  · cases hCheck
    exact ⟨h, trivial, fun _ _ _ hOwns => hOwns⟩
  · cases hCheck
    exact ⟨h, trivial, fun _ _ _ hOwns => hOwns⟩
  · rename_i entry
    obtain ⟨hFull, hEntry⟩ := hCall
    obtain ⟨hSound, hEncoded⟩ := hEntry entry rfl
    split at hCheck
    · cases hCheck
      exact ⟨h, trivial, fun _ _ _ hOwns => hOwns⟩
    · rename_i signature hVerified
      obtain ⟨⟨store, phase⟩, hStart, hEq⟩ := Option.map_eq_some_iff.mp hCheck
      cases hEq
      obtain ⟨hInv, hExt, hOwns⟩ := R.start_inv h.store hStart
      exact ⟨h.stored hInv, ⟨hSound.fingerprint, hEncoded, rfl, verified_length hSound.modulusLength hFull hVerified,
        hOwns⟩, fun _ _ _ hOld => R.owns_extends hOld hExt⟩

theorem act_kept {i : Nat} {action : Action R} {p : Pool (Shared R) (Call R)} {t : Shared R} {call : Call R}
    (hOk : Canonical platform R encoding p (.act i action)) (h : SharedInv platform encoding p.shared)
    (hCall : CallInv platform encoding i p.shared (p.calls i))
    (hAct : act platform config i action p.shared (p.calls i) = some (t, call)) :
    Kept platform encoding i p.shared t call := by
  generalize hBefore : p.calls i = before at hCall hAct
  unfold act at hAct
  split at hAct
  · exact startCall_kept h hOk (Option.some.inj hAct)
  · obtain ⟨a, hResume, hEq⟩ := Option.map_eq_some_iff.mp hAct
    cases hEq
    refine ⟨h, ⟨hCall, ?_⟩, fun _ _ _ hOwns => hOwns⟩
    rintro e rfl
    exact h.entry (getResume_entry hResume)
  · exact checkCall_kept h hCall hAct
  · obtain ⟨⟨store, phase'⟩, hResume, hEq⟩ := Option.map_eq_some_iff.mp hAct
    cases hEq
    obtain ⟨hInv, hExt, hOwns⟩ := R.resume_inv h.store hCall.owns hResume
    exact ⟨h.stored hInv, { hCall with owns := hOwns }, fun _ _ _ hOld => R.owns_extends hOld hExt⟩
  · obtain ⟨result, hResult, hEq⟩ := Option.map_eq_some_iff.mp hAct
    cases hEq
    refine ⟨h, ?_, fun _ _ _ hOwns => hOwns⟩
    match result with
    | .verdict true => exact ⟨_, _, hCall, hResult⟩
    | .verdict false => trivial
    | .unavailable => trivial
  · cases hAct

theorem env_kept {event : Event R} {p : Pool (Shared R) (Call R)} {t : Shared R}
    (hOk : Canonical platform R encoding p (.env event)) (h : SharedInv platform encoding p.shared)
    (hEnv : env platform event p.shared = some t) : SharedInv platform encoding t ∧
      ∀ i request phase, R.Owns i p.shared.store request phase → R.Owns i t.store request phase := by
  cases event with
  | fetched client now doc =>
    obtain ⟨cache, hFetched, rfl⟩ := Option.map_eq_some_iff.mp hEnv
    refine ⟨?_, fun _ _ _ hOwns => hOwns⟩
    rcases fetched_keys hFetched with hSame | ⟨d, rfl, hParse⟩
    · exact h.cached client (hSame ▸ h.sound client) (hSame ▸ h.encoded client)
    · exact h.cached client (parse_sound hParse) (hOk _ hParse)
  | cleared client =>
    obtain ⟨cache, hClear, rfl⟩ := Option.map_eq_some_iff.mp hEnv
    have hSame := clear_keys hClear
    exact ⟨h.cached client (hSame ▸ h.sound client) (hSame ▸ h.encoded client), fun _ _ _ hOwns => hOwns⟩
  | store event =>
    obtain ⟨store, hSettle, rfl⟩ := Option.map_eq_some_iff.mp hEnv
    obtain ⟨hInv, hExt⟩ := R.settle_inv h.store hSettle
    exact ⟨h.stored hInv, fun _ _ _ hOwns => R.owns_extends hOwns hExt⟩

theorem sharedInv_empty : SharedInv platform encoding (verifyAccessToken platform config R).start :=
  ⟨R.inv_empty, fun _ => keysSound_empty _, fun _ => nofun⟩

theorem verifyAccessToken_invariant {p : Pool (Shared R) (Call R)}
    (h : (verifyAccessToken platform config R).system.ReachedBy (Canonical platform R encoding) p) :
    SharedInv platform encoding p.shared ∧ ∀ i, CallInv platform encoding i p.shared (p.calls i) := by
  refine Calls.invariant (SharedInv platform encoding) (CallInv platform encoding) sharedInv_empty
    (fun _ => trivial) ?_ ?_ ?_ h
  · intro p i action s l hOk hG hL hAct
    have hKept := act_kept hOk hG hL hAct
    exact ⟨hKept.shared, hKept.own⟩
  · intro p i j action s l hOk _ hG hL hLj hAct
    have hKept := act_kept hOk hG hL hAct
    exact callInv_extends hLj (hKept.owns j)
  · intro p event s hOk hG hEnv
    obtain ⟨hInv, hOwns⟩ := env_kept hOk hG hEnv
    exact ⟨hInv, fun i hL => callInv_extends hL (hOwns i)⟩

theorem CallInv.admitted {i : Nat} {s : Shared R} {call : Call R} {entry : Entry} {signature : Bytes}
    (h : CallInv platform encoding i s call) (hOutcome : call.outcome? = some (.admitted entry signature)) :
    ∃ request phase, Spend platform encoding i s entry signature request phase ∧
      R.result phase = some (.verdict true) := by
  unfold Call.outcome? at hOutcome
  split at hOutcome
  · cases hOutcome
    exact h
  · cases hOutcome

/-- Over either store, a key and a number are spent by one call. -/
theorem verifyAccessToken_spends_once {backend : Backend} {p : Pool (Shared backend.redeemer) (Call backend.redeemer)}
    (h : (verifyAccessToken platform config backend.redeemer).system.ReachedBy
      (Canonical platform backend.redeemer encoding) p) {i j : Nat} {ei ej : Entry} {si sj : Bytes}
    (hi : (p.calls i).outcome? = some (.admitted ei si)) (hj : (p.calls j).outcome? = some (.admitted ej sj))
    (hModulus : ei.publicKey.modulus = ej.publicKey.modulus) (hExponent : ei.publicKey.exponent = ej.publicKey.exponent)
    (hSignature : integerOf si = integerOf sj) : i = j := by
  obtain ⟨hShared, hCalls⟩ := verifyAccessToken_invariant h
  obtain ⟨ri, pi, hi, hWonI⟩ := (hCalls i).admitted hi
  obtain ⟨rj, pj, hj, hWonJ⟩ := (hCalls j).admitted hj
  have hBytes : si = sj := integerOf_injective (hi.length.trans hj.length.symm) hSignature
  have hSpki : ei.publicKey.spki = ej.publicKey.spki := by rw [hi.encoded, hj.encoded, hModulus, hExponent]
  refine backend.redeemer.unique hShared.store hi.owns hj.owns hWonI hWonJ ?_ ?_
  · rw [hi.fingerprint, hj.fingerprint, fingerprintOf, fingerprintOf, hSpki]
  · rw [hi.nullifier, hj.nullifier, hBytes]

/-! ## One token presented twice, and one token in two spellings -/

def testHash (bytes : Bytes) : Digest := first32 bytes

def testKey : PublicKey := ⟨.rsa, 2048, 2 ^ 2047 + 1, 65537, [1]⟩

/-- A signature whose first byte is zero, in all 256 bytes and without that byte. -/
def fullSignature : Bytes := 0 :: List.replicate 255 1
def shortSignature : Bytes := List.replicate 255 1

def testKeyId : Str := (hex (testHash testKey.spki).val).take 32

def tokenValue (signature : Bytes) : Value :=
  .obj [(str "keyId", .str testKeyId), (str "tokenInput", .str (str "AQ==")),
    (str "signature", .str (base64Encode signature))]

def tokenText (signature : Bytes) : Bytes :=
  (str "\x7b\"keyId\":\"" ++ testKeyId ++ str "\",\"tokenInput\":\"AQ==\",\"signature\":\"" ++
    base64Encode signature ++ str "\"\x7d").map fun c => UInt8.ofNat c.toNat

def header (signature : Bytes) : Value := .str (str "PrivateToken " ++ base64Encode (tokenText signature))

def testPlatform : Platform where
  createPublicKey bytes := if bytes = testKey.spki then some testKey else none
  sha256 := testHash
  jsonParse bytes := ([fullSignature, shortSignature].find? fun s => tokenText s = bytes).map tokenValue
  verify _ _ signature := signature.length ≤ 256 ∧ integerOf signature = integerOf fullSignature
  verify_integer key input a b _ ha hb h := by simp [ha, hb, h]
  verify_long key input a _ ha := by simp [show ¬a.length ≤ 256 by omega]

def testConfig : Config := defaults

def testDocument : Value :=
  .obj [(str "schemaVersion", int 1), (str "suite", .str suite), (str "epochSeconds", int 86400), (str "epoch", int 0),
    (str "keys", .arr [.obj [(str "epoch", int 0), (str "publicKeySpki", .str (base64Encode testKey.spki)),
      (str "keyId", .str testKeyId)]])]

theorem one_le_five : 1 ≤ 5 := by decide

def testBackend : Backend := .memory 5 one_le_five

/-- Two calls, one after the other; the first one brings the keys in. -/
def twoCalls (first second : Value) :
    List (Calls.Label (Action testBackend.redeemer) (Event testBackend.redeemer)) :=
  [.act 0 (.start 0 first fun _ => 1000), .env (.fetched 0 (fun _ => 1001) (some testDocument)), .env (.cleared 0),
   .act 0 (.resumeGet fun _ => 1002), .act 0 (.check []), .act 0 .finish,
   .act 1 (.start 0 second fun _ => 1003), .act 1 (.check []), .act 1 .finish]

def testCalls := verifyAccessToken testPlatform testConfig testBackend.redeemer

def testEntry : Entry := ⟨testKey, fingerprintOf testPlatform.toCrypto testKey, 172800000⟩

def replayed := testCalls.system.after (twoCalls (header fullSignature) (header fullSignature))

theorem readToken_header : readToken testPlatform (header fullSignature) =
    some ⟨testKeyId, str "AQ==", base64Encode fullSignature⟩ := by decide +kernel

theorem replayed_canonical : ∀ label ∈ twoCalls (header fullSignature) (header fullSignature), ∀ p,
    Canonical testPlatform testBackend.redeemer (fun _ _ => testKey.spki) p label := by
  have hHeader : ∀ token, readToken testPlatform (header fullSignature) = some token → FullLength token := by
    intro token hToken
    cases readToken_header.symm.trans hToken
    rw [FullLength, base64Decode_base64Encode]
    rw [fullSignature, List.length_cons, List.length_replicate]
    omega
  have hDocument : ∀ keys, parse testPlatform.toCrypto 1001 testDocument = some keys →
      OneEncoding (fun _ _ => testKey.spki) keys := by
    intro keys hParse keyId entry hGet
    have hKeys : (parse testPlatform.toCrypto 1001 testDocument).map (·.entries) = some [(testKeyId, testEntry)] := by
      decide +kernel
    rw [hParse] at hKeys
    have hEntries : keys.entries = [(testKeyId, testEntry)] := Option.some.inj hKeys
    have hMem := OrderedMap.get?_eq_some_iff.mp hGet
    rw [hEntries] at hMem
    cases List.mem_singleton.mp hMem
    rfl
  intro label hLabel p
  simp only [twoCalls, List.mem_cons, List.not_mem_nil, or_false] at hLabel
  rcases hLabel with rfl | rfl | rfl | rfl | rfl | rfl | rfl | rfl | rfl
  · exact hHeader
  · exact hDocument
  · trivial
  · trivial
  · trivial
  · trivial
  · exact hHeader
  · trivial
  · trivial

theorem verifyAccessToken_spends_once_replayed :
    (replayed.calls 0).outcome? = some (.admitted testEntry fullSignature) ∧
    (replayed.calls 1).outcome? = some .refused ∧
    ∀ j entry signature, (replayed.calls j).outcome? = some (.admitted entry signature) →
      testKey.modulus = entry.publicKey.modulus → testKey.exponent = entry.publicKey.exponent →
      integerOf fullSignature = integerOf signature → 0 = j := by
  obtain ⟨hFirst, hSecond⟩ : (replayed.calls 0).outcome? = some (.admitted testEntry fullSignature) ∧
      (replayed.calls 1).outcome? = some .refused := by decide +kernel
  refine ⟨hFirst, hSecond, fun j entry signature hj hModulus hExponent hSignature => ?_⟩
  have hReached : testCalls.system.ReachedBy (Canonical testPlatform testBackend.redeemer fun _ _ => testKey.spki)
      replayed := System.reachedBy_after _ _ replayed_canonical
  exact verifyAccessToken_spends_once hReached hFirst hj hModulus hExponent hSignature

def respelled := testCalls.system.after (twoCalls (header fullSignature) (header shortSignature))

/-- Dropping the leading zero makes the spent token spendable again. -/
theorem verifyAccessToken_spends_twice : ¬∀ p, testCalls.system.Reachable p → ∀ i j ei ej si sj,
    (p.calls i).outcome? = some (.admitted ei si) → (p.calls j).outcome? = some (.admitted ej sj) →
    ei.publicKey.modulus = ej.publicKey.modulus → ei.publicKey.exponent = ej.publicKey.exponent →
    integerOf si = integerOf sj → i = j := by
  intro hOnce
  obtain ⟨hFirst, hSecond⟩ : (respelled.calls 0).outcome? = some (.admitted testEntry fullSignature) ∧
      (respelled.calls 1).outcome? = some (.admitted testEntry shortSignature) := by decide +kernel
  have hSame : integerOf fullSignature = integerOf shortSignature := integerOf_zero_cons shortSignature
  have hReachable : testCalls.system.Reachable respelled := System.reachable_after _ _
  have hEq := hOnce respelled hReachable 0 1 testEntry testEntry _ _ hFirst hSecond rfl rfl hSame
  cases hEq

end Columbia.Relay.AccessToken
