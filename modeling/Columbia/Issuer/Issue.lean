import Columbia.Issuer.AppAttest.Validate
import Columbia.Issuer.Replicas

/-! # POST /issue

`handleIssue` from the parsed body to the response. It awaits three times: for the signing keys, for the device
lookup of an assertion, and for the reservation; requests interleave at each of them over one memory backend. The
reservation is a `reserve` call of its own. Clock readings are part of the steps that make them.
-/
namespace Columbia.Issuer.Issue
open Columbia.Js Columbia.Lib StateStore
open Columbia.Issuer.AppAttest (Candidate Validation Args validateAppAttest validateAssertion)
set_option autoImplicit false

/-! ## Epochs and signing keys -/

structure SigningKey where
  keyId : Str
  spkiB64 : Str
  deriving DecidableEq

inductive Imported
  | manifest (keys : List (Int × SigningKey))
  | legacy (key : SigningKey)

/-- The raw RSA operations; `none` when they throw. -/
structure Rsa where
  privateDecrypt : SigningKey → Bytes → Option Bytes
  publicEncrypt : SigningKey → Bytes → Option Bytes

def blindSign (rsa : Rsa) (entry : SigningKey) (blindedMsg : Bytes) : Option Bytes := do
  let s ← rsa.privateDecrypt entry blindedMsg
  let check ← rsa.publicEncrypt entry s
  guard (s.length = blindedMsg.length ∧ check = blindedMsg)
  some s

/-- `imported` is `none` when the keys cannot be imported. -/
structure Config where
  EPOCH_SECONDS : Int
  MAX_TOKENS_PER_REQUEST : Nat
  REQUIRE_CLIENT_DATA_BINDING : Bool
  imported : Option Imported
  appAttest : AppAttest.Config
  state : IssuerState
  maxKeys : Nat

structure Platform extends AppAttest.Platform where
  hmac : Bytes → Str → Digest
  jsonParse : Bytes → Option Value
  rsa : Rsa

variable (platform : Platform) (config : Config)

def currentEpoch (now : Int) : Int := (now / 1000).fdiv config.EPOCH_SECONDS

/-- `isLive`; `readEpoch` throws on a negative or infinite epoch, which rejects as well. -/
def isLive (now epoch : Int) : Bool :=
  config.EPOCH_SECONDS ≠ 0 ∧ 0 ≤ currentEpoch config now ∧ 0 ≤ epoch ∧
    (epoch = currentEpoch config now ∨ epoch = currentEpoch config now - 1)

def loadedKeys (now epoch : Int) : Option SigningKey :=
  if isLive config now epoch then
    match config.imported with
    | some (.manifest keys) => (keys.find? fun k => k.1 = epoch).map Prod.snd
    | some (.legacy key) => some key
    | none => none
  else none

/-! ## Request-payload binding -/

def decimal (n : Int) : Str :=
  (if n < 0 then [45] else []) ++ (Nat.toDigits 10 n.natAbs).map fun c => UInt16.ofNat c.toNat

def bindingBytes (epochId : Int) (messages : List Bytes) : Bytes :=
  utf8Encode (decimal epochId) ++ messages.flatMap fun m => 0 :: m

def expectedClientDataHash (epochId : Int) (blinded : List Str) : Digest :=
  platform.sha256 (bindingBytes epochId (blinded.map base64Decode))

def boundEpoch (clientDataHash : Value) (blinded : List Str) (epochId : Int) : Option Int :=
  match clientDataHash with
  | .str s =>
    if (base64Decode s).length ≠ 32 then none
    else [epochId, epochId - 1].find? fun candidate =>
      base64Decode s = (expectedClientDataHash platform candidate blinded).val
  | _ => none

/-! ## The request -/

/-- A body that passed the shape checks, with the epochs it was bound to. -/
structure Request where
  keyId : Str
  attestation : Value
  assertion : Value
  clientDataHash : Value
  blinded : List Str
  epochId : Int
  signingEpochId : Int

structure Response where
  status : Nat
  error : Option String
  retryAfter : Option Int
  deriving DecidableEq

def Response.plain (status : Nat) : Response := ⟨status, none, none⟩

def RSA_MODULUS_BYTES : Nat := 256

def readBlinded (value : Value) : Option (List Str) :=
  match value with
  | .arr items =>
    if 1 ≤ items.length ∧ items.length ≤ config.MAX_TOKENS_PER_REQUEST then
      items.mapM fun item => (string? item).filter fun b => (base64Decode b).length = RSA_MODULUS_BYTES
    else none
  | _ => none

/-- Everything before the first await. `now 0` is read for the epoch, `now 1` inside `keysForEpoch`. -/
def readRequest (now : Nat → Int) (body : Bytes) : Except Response Request := do
  let parsed ← orThrow (platform.jsonParse body) (.plain 400)
  let keyId ← orThrow ((string? (parsed.field "keyId")).filter (· ≠ [])) (.plain 400)
  let blinded ← orThrow (readBlinded config (parsed.field "blinded")) (.plain 400)
  let clientDataHash := parsed.field "clientDataHash"
  let epochId := currentEpoch config (now 0)
  let signingEpochId ← orThrow
    (if config.REQUIRE_CLIENT_DATA_BINDING then boundEpoch platform clientDataHash blinded epochId else some epochId)
    (.plain 401)
  require (isLive config (now 1) signingEpochId) (.plain 503)
  .ok ⟨keyId, parsed.field "attestation", parsed.field "assertion", clientDataHash, blinded, epochId, signingEpochId⟩

def Request.args (req : Request) : Args := ⟨.str req.keyId, req.attestation, req.assertion, req.clientDataHash⟩

def Request.messages (req : Request) : List Bytes := req.blinded.map base64Decode

def Request.reserveArgs (req : Request) (candidate : Candidate) : ReserveArgs where
  keyId := candidate.keyId
  mode := .str (str (match candidate.mode with | .attestation => "attestation" | .assertion => "assertion"))
  publicKeyPem := .str candidate.publicKeyPem
  signCount := int candidate.signCount
  epoch := int req.epochId
  count := int req.blinded.length

/-! ## Responses -/

def attestFailed (reason : String) : Response :=
  if reason = "state_unavailable" then ⟨503, some "state_unavailable", some 2⟩
  else ⟨401, some (if reason = "unknown_device_key" then "unknown_device_key" else "attest_failed"), none⟩

def reservationFailed (now : Int) (req : Request) : Reason → Response
  | .quota_exceeded =>
    ⟨429, some "quota_exceeded", some (max 1 ((req.epochId + 1) * config.EPOCH_SECONDS - now / 1000))⟩
  | .unknown_device_key => ⟨401, some "unknown_device_key", none⟩
  | _ => ⟨401, some "attest_failed", none⟩

/-- A 200 response, with the request and the credentials behind it. -/
structure Grant where
  request : Request
  keys : SigningKey
  candidate : Candidate
  epoch : Int
  keyId : Str
  blindSigs : List Str

def grant (req : Request) (keys : SigningKey) (candidate : Candidate) : Option Grant :=
  (req.messages.mapM (blindSign platform.rsa keys)).map fun sigs =>
    ⟨req, keys, candidate, req.signingEpochId, keys.keyId, sigs.map base64Encode⟩

inductive Call
  | idle
  | awaitingKeys (req : Request)
  | lookingUp (req : Request) (keys : SigningKey) (storeKeyId : Str) (clientDataHash : Bytes)
  | attested (req : Request) (keys : SigningKey) (candidate : Candidate)
  | reserving (req : Request) (keys : SigningKey) (candidate : Candidate) (reserve : Replicas.Call)
  | issued (g : Grant) (reserve : Replicas.Call)
  | refused (response : Response) (reserve : Replicas.Call)

inductive Action
  | start (body : Bytes) (now : Nat → Int)
  | keysLoaded (now : Nat → Int) (fuel : Nat)
  | lookup
  | reserve (commitID : Str)
  | resume
  | respond (now : Int)

def afterValidation (req : Request) (keys : SigningKey) : AppAttest.Result → Call
  | .ok candidate => .attested req keys candidate
  | .rejected reason _ => .refused (attestFailed reason) .idle

/-- The keys are there and still live: App Attest runs up to its lookup. -/
def keysLoaded (now : Nat → Int) (fuel : Nat) (req : Request) : Option Call :=
  match loadedKeys config (now 0) req.signingEpochId with
  | none => some (.refused (.plain 503) .idle)
  | some keys =>
    (validateAppAttest platform.toPlatform config.appAttest fuel (now 1) req.args).map fun
      | .returned result => afterValidation req keys result
      | .lookingUp storeKeyId clientDataHash => .lookingUp req keys storeKeyId clientDataHash

/-- `getAttestedKey` on the row that was read; the outer `none` is the thrown `StateUnavailable`. -/
def attestedKey (row : Option (Nat × DeviceRecord)) : Option (Option (Str × Int)) :=
  match row with
  | none => some none
  | some (_, record) => (checked record).map fun record => some (record.publicKeyPem, record.signCount)

def respond (now : Int) (req : Request) (keys : SigningKey) (candidate : Candidate) (reserve : Replicas.Call) :
    Option Call :=
  match reserve with
  | .refused | .running _ _ (.returned .unavailable) =>
    some (.refused ⟨503, some "state_unavailable", some 2⟩ reserve)
  | .running _ _ (.returned (.rejected reason)) => some (.refused (reservationFailed config now req reason) reserve)
  | .running _ _ (.returned .ok) =>
    match grant platform req keys candidate with
    | some g => some (.issued g reserve)
    | none => some (.refused (.plain 500) reserve)
  | _ => none

def act (i : Nat) : Action → Replicas.Shared → Call → Option (Replicas.Shared × Call)
  | .start body now, s, .idle =>
    match readRequest platform config now body with
    | .ok req => some (s, .awaitingKeys req)
    | .error response => some (s, .refused response .idle)
  | .keysLoaded now fuel, s, .awaitingKeys req => (keysLoaded platform config now fuel req).map fun call => (s, call)
  | .lookup, s, .lookingUp req keys storeKeyId clientDataHash =>
    let row := s.backend.get (keyFor platform.hmac config.state.salt storeKeyId)
    some (s, afterValidation req keys
      (validateAssertion platform.toPlatform config.appAttest req.assertion storeKeyId clientDataHash (attestedKey row)))
  | .reserve commitID, s, .attested req keys candidate =>
    (Replicas.act platform.hmac config.state config.maxKeys i (.start (req.reserveArgs candidate) commitID) s .idle).map
      fun x => (x.1, .reserving req keys candidate x.2)
  | .resume, s, .reserving req keys candidate reserve =>
    (Replicas.act platform.hmac config.state config.maxKeys i .resume s reserve).map
      fun x => (x.1, .reserving req keys candidate x.2)
  | .respond now, s, .reserving req keys candidate reserve =>
    (respond platform config now req keys candidate reserve).map fun call => (s, call)
  | _, _, _ => none

def handleIssue : Calls Replicas.Shared Call Action Empty where
  start := ⟨.empty, []⟩
  idle := .idle
  act := act platform config
  env := nofun

/-- The steps that `act` takes. -/
inductive Step (i : Nat) (s : Replicas.Shared) : Action → Call → Replicas.Shared → Call → Prop
  | start {body : Bytes} {now : Nat → Int} {req : Request} (hRead : readRequest platform config now body = .ok req) :
    Step i s (.start body now) .idle s (.awaitingKeys req)
  | unread {body : Bytes} {now : Nat → Int} {response : Response}
    (hRead : readRequest platform config now body = .error response) :
    Step i s (.start body now) .idle s (.refused response .idle)
  | keysLoaded {now : Nat → Int} {fuel : Nat} {req : Request} {call : Call}
    (hLoaded : keysLoaded platform config now fuel req = some call) :
    Step i s (.keysLoaded now fuel) (.awaitingKeys req) s call
  | lookup {req : Request} {keys : SigningKey} {storeKeyId : Str} {clientDataHash : Bytes} :
    Step i s .lookup (.lookingUp req keys storeKeyId clientDataHash) s
      (afterValidation req keys (validateAssertion platform.toPlatform config.appAttest req.assertion storeKeyId
        clientDataHash (attestedKey (s.backend.get (keyFor platform.hmac config.state.salt storeKeyId)))))
  | reserve {commitID : Str} {req : Request} {keys : SigningKey} {candidate : Candidate} {t : Replicas.Shared}
    {reserve : Replicas.Call} (hAct : Replicas.act platform.hmac config.state config.maxKeys i
      (.start (req.reserveArgs candidate) commitID) s .idle = some (t, reserve)) :
    Step i s (.reserve commitID) (.attested req keys candidate) t (.reserving req keys candidate reserve)
  | resume {req : Request} {keys : SigningKey} {candidate : Candidate} {t : Replicas.Shared}
    {reserve reserve' : Replicas.Call}
    (hAct : Replicas.act platform.hmac config.state config.maxKeys i .resume s reserve = some (t, reserve')) :
    Step i s .resume (.reserving req keys candidate reserve) t (.reserving req keys candidate reserve')
  | respond {now : Int} {req : Request} {keys : SigningKey} {candidate : Candidate} {reserve : Replicas.Call}
    {call : Call} (hRespond : respond platform config now req keys candidate reserve = some call) :
    Step i s (.respond now) (.reserving req keys candidate reserve) s call

variable {platform config} in
theorem act_step {i : Nat} {action : Action} {s t : Replicas.Shared} {call call' : Call}
    (h : act platform config i action s call = some (t, call')) : Step platform config i s action call t call' := by
  unfold act at h
  split at h
  · split at h
    · rename_i hRead
      cases h
      exact .start hRead
    · rename_i hRead
      cases h
      exact .unread hRead
  · obtain ⟨call, hLoaded, hEq⟩ := Option.map_eq_some_iff.mp h
    cases hEq
    exact .keysLoaded hLoaded
  · cases h
    exact .lookup
  · obtain ⟨⟨t', reserve⟩, hAct, hEq⟩ := Option.map_eq_some_iff.mp h
    cases hEq
    exact .reserve hAct
  · obtain ⟨⟨t', reserve⟩, hAct, hEq⟩ := Option.map_eq_some_iff.mp h
    cases hEq
    exact .resume hAct
  · obtain ⟨call, hRespond, hEq⟩ := Option.map_eq_some_iff.mp h
    cases hEq
    exact .respond hRespond
  · cases h

end Columbia.Issuer.Issue
