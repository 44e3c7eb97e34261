import Columbia.Issuer.Authorisation
import Columbia.Lib.Reader
import Columbia.Relay.IssuerKeyCache

/-! # The issuer's epoch keys and the document that publishes them

`createEpochKeyProvider` reads a manifest of at most two private keys, or one legacy key. The keys are imported
all or none; a key is handed out only for an epoch that is live before and after the import. `handleIssuerKeys`
looks two of them up, one after the other, and writes the document that the relay's `parse` reads.
-/
namespace Columbia.Issuer.EpochKeys
open Columbia.Js Columbia.Lib
open Columbia.Issuer.Issue (SigningKey Imported Config currentEpoch isLive loadedKeys)
open Columbia.Relay.IssuerKeyCache (KeyType PublicKey Crypto Parsed Entry parse parseEntry fingerprintOf suite)
set_option autoImplicit false

/-! ## Importing a private key -/

structure Jwk where
  n : Str
  e : Str
  d : Str

/-- `jwk` is `none` when the key has no such form. -/
structure NodeKey where
  asymmetricKeyType : KeyType
  modulusLength : Nat
  jwk : Option Jwk

inductive KeyInput
  | pem (text : Str)
  | pkcs8 (der : Bytes)
  | pkcs1 (der : Bytes)

/-- `spkiOf`: the public half of a key that WebCrypto imports, as it exports it. `none` is an exception. -/
structure Platform where
  createPrivateKey : KeyInput → Option NodeKey
  spkiOf : Jwk → Option Bytes
  sha256 : Bytes → Digest
  jsonParse : Str → Option Value

section
variable (platform : Platform)

def parsePrivateKeyEnv (envValue : Str) : Option NodeKey :=
  let value := trim envValue
  if value = [] then none
  else if str "-----BEGIN" <:+: value then platform.createPrivateKey (.pem value)
  else (platform.createPrivateKey (.pkcs8 (base64Decode value))).orElse fun _ =>
    platform.createPrivateKey (.pkcs1 (base64Decode value))

def keyIdFromSpki (spkiBytes : Bytes) : Str := (hex (platform.sha256 spkiBytes).val).take 32

def importSpki (material : Str) : Option (Jwk × Bytes) := do
  let nodeKey ← parsePrivateKeyEnv platform material
  guard (nodeKey.asymmetricKeyType ∈ [.rsa, .rsaPss] ∧ nodeKey.modulusLength = 2048)
  let jwk ← nodeKey.jwk
  let spki ← platform.spkiOf jwk
  some (jwk, spki)

def publicEntry (spki : Bytes) : SigningKey := ⟨keyIdFromSpki platform spki, base64Encode spki⟩

def materialFingerprint (jwk : Jwk) : Str := hex (platform.sha256 (utf8Encode jwk.n ++ 0 :: utf8Encode jwk.e)).val

def importKey (material : Str) : Option (Str × SigningKey) :=
  (importSpki platform material).map fun (jwk, spki) => (materialFingerprint platform jwk, publicEntry platform spki)

/-! ## The provider -/

inductive Provider
  | manifest (records : List (Int × Str))
  | legacy (material : Str)

def MAX_MANIFEST_BYTES : Nat := 32768

def readRecord (now : Int) (records : List (Int × Str)) (record : Value) : Option (List (Int × Str)) := do
  let epoch ← safeIntegerFrom? 0 (record.field "epoch")
  guard (epoch ∈ [now, now - 1] ∧ epoch ∉ records.map Prod.fst)
  let privateKey ← string? (record.field "privateKey")
  guard (trim privateKey ≠ [])
  some (records ++ [(epoch, privateKey)])

/-- `now` is what `currentEpoch` says at construction. -/
def createEpochKeyProvider (legacySigningKeyB64 : Str) (manifestJSON : Value) (now : Int) : Option Provider :=
  match manifestJSON with
  | .undefined => some (.legacy legacySigningKeyB64)
  | .str text => do
    guard ((utf8Encode text).length ≤ MAX_MANIFEST_BYTES)
    let manifest ← platform.jsonParse text
    guard (0 ≤ now ∧ now ≤ maxSafeInteger ∧ integer? (manifest.field "version") = some 1)
    match manifest.field "keys" with
    | .arr keys =>
      guard (1 ≤ keys.length ∧ keys.length ≤ 2)
      (keys.foldlM (readRecord now) []).map .manifest
    | _ => none
  | _ => none

def Provider.materials : Provider → List Str
  | .manifest records => records.map Prod.snd
  | .legacy material => [material]

def load : Provider → Option Imported
  | .manifest records => do
    let keys ← records.mapM fun record => (importKey platform record.2).map fun key => (record.1, key)
    guard (keys.map fun key => key.2.1).Nodup
    some (.manifest (keys.map fun key => (key.1, key.2.2)))
  | .legacy material => (importKey platform material).map fun key => .legacy key.2

end

/-! ## The document -/

section
variable (config : Config)

/-- The epoch is live before the import at `before` and after it at `after`. -/
def keysForEpoch (before after epoch : Int) : Option SigningKey :=
  if isLive config before epoch then loadedKeys config after epoch else none

def keyEntry (id : Int) (k : SigningKey) : Value :=
  .obj [(str "epoch", int id), (str "keyId", .str k.keyId), (str "publicKeySpki", .str k.spkiB64)]

def document (epochId : Int) (keys : List Value) : Value :=
  .obj [(str "schemaVersion", int 1), (str "suite", .str suite), (str "epoch", int epochId),
    (str "epochSeconds", int config.EPOCH_SECONDS), (str "keys", .arr keys)]

/-- `none` is the 503. `now n` is the `n`-th reading of the clock: for the epoch, then twice for each key. -/
def handleIssuerKeys (now : Nat → Int) : Option Value :=
  let epochId := currentEpoch config (now 0)
  ([(epochId, 1), (epochId - 1, 3)].mapM fun (id, n) =>
    (keysForEpoch config (now n) (now (n + 1)) id).map (keyEntry id)).map (document config epochId)

end

/-! ## What the issuer publishes -/

section
variable {platform : Platform} {config : Config} {provider : Provider}

/-- The public half of one of the configured keys. -/
def Exported (platform : Platform) (provider : Provider) (spki : Bytes) : Prop :=
  ∃ material ∈ provider.materials, ∃ jwk, importSpki platform material = some (jwk, spki)

def keyAt (imported : Imported) (epoch : Int) : Option SigningKey :=
  match imported with
  | .manifest keys => (keys.find? fun k => k.1 = epoch).map Prod.snd
  | .legacy key => some key

theorem loadedKeys_eq (now epoch : Int) :
    loadedKeys config now epoch = if isLive config now epoch then config.imported.bind (keyAt · epoch) else none := by
  unfold loadedKeys
  split
  · cases config.imported with
    | none => rfl
    | some imported => cases imported <;> rfl
  · rfl

theorem loadedKeys_eq_some {imported : Imported} (hImported : config.imported = some imported) {now epoch : Int}
    {key : SigningKey} (h : loadedKeys config now epoch = some key) : 0 ≤ epoch ∧ keyAt imported epoch = some key := by
  rw [loadedKeys_eq, hImported] at h
  split at h
  · rename_i hLive
    simp only [isLive, decide_eq_true_eq] at hLive
    exact ⟨hLive.2.2.1, h⟩
  · cases h

theorem publicEntry_injective {a b : Bytes} (h : publicEntry platform a = publicEntry platform b) : a = b := by
  have hText : base64Encode a = base64Encode b := congrArg SigningKey.spkiB64 h
  rw [← base64Decode_base64Encode a, hText, base64Decode_base64Encode]

theorem importKey_eq_some {material : Str} {fingerprint : Str} {key : SigningKey}
    (h : importKey platform material = some (fingerprint, key)) :
    ∃ jwk spki, importSpki platform material = some (jwk, spki) ∧ key = publicEntry platform spki := by
  obtain ⟨⟨jwk, spki⟩, hSpki, hEq⟩ := Option.map_eq_some_iff.mp h
  cases hEq
  exact ⟨jwk, spki, hSpki, rfl⟩

theorem load_exported {imported : Imported} {epoch : Int} {key : SigningKey}
    (h : load platform provider = some imported) (hKey : keyAt imported epoch = some key) :
    ∃ spki, Exported platform provider spki ∧ key = publicEntry platform spki := by
  cases provider with
  | legacy material =>
    obtain ⟨⟨fingerprint, entry⟩, hImport, rfl⟩ := Option.map_eq_some_iff.mp h
    cases hKey
    obtain ⟨jwk, spki, hSpki, hEq⟩ := importKey_eq_some hImport
    exact ⟨spki, ⟨material, List.mem_singleton.mpr rfl, jwk, hSpki⟩, hEq⟩
  | manifest records =>
    simp only [load, Option.bind_eq_bind, Option.bind_eq_some_iff, Option.guard_eq_some', exists_const,
      Option.some.injEq] at h
    obtain ⟨keys, hKeys, -, rfl⟩ := h
    obtain ⟨⟨e, entry⟩, hFind, rfl⟩ := Option.map_eq_some_iff.mp hKey
    obtain ⟨⟨e', fingerprint, key⟩, hMem, hEq⟩ := List.mem_map.mp (List.mem_of_find?_eq_some hFind)
    cases hEq
    obtain ⟨⟨e'', material⟩, hRecord, hImport⟩ := exists_of_mapM_eq_some hKeys hMem
    obtain ⟨⟨fingerprint', key'⟩, hImport, hEq⟩ := Option.map_eq_some_iff.mp hImport
    cases hEq
    obtain ⟨jwk, spki, hSpki, hEq⟩ := importKey_eq_some hImport
    exact ⟨spki, ⟨material, List.mem_map_of_mem hRecord, jwk, hSpki⟩, hEq⟩

theorem keysForEpoch_eq_some {before after epoch : Int} {key : SigningKey}
    (h : keysForEpoch config before after epoch = some key) :
    isLive config before epoch = true ∧ loadedKeys config after epoch = some key := by
  unfold keysForEpoch at h
  split at h
  · exact ⟨‹_›, h⟩
  · cases h

theorem handleIssuerKeys_eq_some {now : Nat → Int} {doc : Value} (h : handleIssuerKeys config now = some doc) :
    ∃ current previous,
      keysForEpoch config (now 1) (now 2) (currentEpoch config (now 0)) = some current ∧
      keysForEpoch config (now 3) (now 4) (currentEpoch config (now 0) - 1) = some previous ∧
      doc = document config (currentEpoch config (now 0)) [keyEntry (currentEpoch config (now 0)) current,
        keyEntry (currentEpoch config (now 0) - 1) previous] := by
  obtain ⟨keys, hKeys, rfl⟩ := Option.map_eq_some_iff.mp h
  have hItems := mapM_eq_some.mp hKeys
  obtain ⟨_, _, hFirst, hRest, rfl⟩ := List.forall₂_cons_left_iff.mp hItems
  obtain ⟨_, _, hSecond, hNil, rfl⟩ := List.forall₂_cons_left_iff.mp hRest
  cases hNil
  obtain ⟨current, hCurrent, rfl⟩ := Option.map_eq_some_iff.mp hFirst
  obtain ⟨previous, hPrevious, rfl⟩ := Option.map_eq_some_iff.mp hSecond
  exact ⟨current, previous, hCurrent, hPrevious, rfl⟩

theorem handleIssuerKeys_ne_none {now : Nat → Int} {imported : Imported} (hSeconds : 1 ≤ config.EPOCH_SECONDS)
    (hImported : config.imported = some imported) (hEpoch : 1 ≤ currentEpoch config (now 0))
    (hSame : ∀ n ≤ 4, currentEpoch config (now n) = currentEpoch config (now 0))
    (hCurrent : keyAt imported (currentEpoch config (now 0)) ≠ none)
    (hPrevious : keyAt imported (currentEpoch config (now 0) - 1) ≠ none) : handleIssuerKeys config now ≠ none := by
  have hLive : ∀ n ≤ 4, ∀ e ∈ [currentEpoch config (now 0), currentEpoch config (now 0) - 1],
      isLive config (now n) e = true := by
    intro n hn e he
    unfold isLive
    rw [hSame n hn]
    rcases List.mem_pair.mp he with rfl | rfl <;> simp <;> omega
  obtain ⟨current, hCurrent⟩ := Option.ne_none_iff_exists'.mp hCurrent
  obtain ⟨previous, hPrevious⟩ := Option.ne_none_iff_exists'.mp hPrevious
  have hLookup : ∀ {n m : Nat} {e : Int} {key : SigningKey}, n ≤ 4 → m ≤ 4 →
      e ∈ [currentEpoch config (now 0), currentEpoch config (now 0) - 1] → keyAt imported e = some key →
      keysForEpoch config (now n) (now m) e = some key := by
    intro n m e key hn hm he hKey
    rw [keysForEpoch, if_pos (hLive n hn e he), loadedKeys_eq, if_pos (hLive m hm e he), hImported]
    exact hKey
  rw [handleIssuerKeys]
  simp [hLookup (n := 1) (m := 2) (by omega) (by omega) (by simp) hCurrent,
    hLookup (n := 3) (m := 4) (by omega) (by omega) (by simp) hPrevious]

/-! ## What the relay makes of it -/

/-- A 2048-bit RSA key that the relay imports and exports as it was. -/
structure Rsa2048 (crypto : Crypto) (publicKey : PublicKey) (spki : Bytes) : Prop where
  imports : crypto.createPublicKey spki = some publicKey
  exports : publicKey.spki = spki
  keyType : publicKey.asymmetricKeyType ∈ [KeyType.rsa, KeyType.rsaPss]
  modulusLength : publicKey.modulusLength = 2048
  short : spki.length ≤ 1536

variable {crypto : Crypto} {publicKey : Bytes → PublicKey}

/-- What is cached for the key: its own fingerprint, and the end of the epoch after `e`. -/
def cachedEntry (crypto : Crypto) (publicKey : Bytes → PublicKey) (config : Config) (spki : Bytes) (e : Int) : Entry :=
  ⟨publicKey spki, hex (crypto.sha256 spki).val, (e + 2) * config.EPOCH_SECONDS * 1000⟩

theorem parseEntry_keyEntry (hHash : platform.sha256 = crypto.sha256) {spki : Bytes}
    (hKey : Rsa2048 crypto (publicKey spki) spki) {acc : Parsed} {id epoch : Int} (hEpoch : id ∈ [epoch, epoch - 1])
    (hNew : id ∉ acc.epochs) :
    parseEntry crypto config.EPOCH_SECONDS epoch acc (keyEntry id (publicEntry platform spki)) =
      some ⟨acc.next.set (keyIdFromSpki platform spki) ⟨publicKey spki, hex (crypto.sha256 spki).val,
          max ((id + 2) * config.EPOCH_SECONDS * 1000)
            (((acc.next.get? (keyIdFromSpki platform spki)).map (·.expiresAt)).getD 0)⟩,
        acc.epochs ++ [id]⟩ := by
  have hEpochField : (keyEntry id (publicEntry platform spki)).field "epoch" = int id := rfl
  have hKeyField : (keyEntry id (publicEntry platform spki)).field "keyId" = .str (keyIdFromSpki platform spki) := rfl
  have hSpkiField : (keyEntry id (publicEntry platform spki)).field "publicKeySpki" = .str (base64Encode spki) := rfl
  have hLength : (base64Encode spki).length ≤ 2048 := by
    have hShort := hKey.short
    rw [base64Encode_length]
    omega
  have hFingerprint : fingerprintOf crypto (publicKey spki) = hex (crypto.sha256 spki).val := by
    rw [fingerprintOf, hKey.exports]
  have hId : keyIdFromSpki platform spki = (hex (crypto.sha256 spki).val).take 32 := by
    rw [keyIdFromSpki, hHash]
  simp only [parseEntry, hEpochField, hKeyField, hSpkiField, integer?_int, string?, base64Decode_base64Encode,
    hKey.imports, hFingerprint, hEpoch, hNew, hLength, hKey.keyType, hKey.modulusLength, hId, not_false_eq_true,
    and_self, guard_true, Option.bind_eq_bind, Option.bind_some, Option.pure_def]

theorem currentEpoch_eq (hSeconds : 1 ≤ config.EPOCH_SECONDS) (now : Int) :
    currentEpoch config now = now / 1000 / config.EPOCH_SECONDS :=
  Int.fdiv_eq_ediv_of_nonneg _ (by omega)

theorem parse_document (hSeconds : 1 ≤ config.EPOCH_SECONDS) (hLimit : config.EPOCH_SECONDS ≤ 31557600)
    {keys : List Value} (hLength : keys.length = 2) (time e : Int) :
    parse crypto time (document config e keys) =
      if currentEpoch config time = e then
        (keys.foldlM (parseEntry crypto config.EPOCH_SECONDS e) ⟨.empty, []⟩).bind fun parsed =>
          if e ∈ parsed.epochs then some parsed.next else none
      else none := by
  have hVersion : (document config e keys).field "schemaVersion" = int 1 := rfl
  have hSuite : (document config e keys).field "suite" = .str suite := rfl
  have hEpoch : (document config e keys).field "epoch" = int e := rfl
  have hSecondsField : (document config e keys).field "epochSeconds" = int config.EPOCH_SECONDS := rfl
  have hKeys : (document config e keys).field "keys" = .arr keys := rfl
  have hSafe : safeIntegerFrom? 1 (int config.EPOCH_SECONDS) = some config.EPOCH_SECONDS := by
    apply safeIntegerFrom?_of_le hSeconds
    rw [maxSafeInteger]
    omega
  simp only [parse, hVersion, hSuite, hEpoch, hSecondsField, hKeys, integer?_int, string?, hSafe, hLimit, hLength,
    ← currentEpoch_eq hSeconds, and_self, guard_true, Option.bind_eq_bind, Option.bind_some, Option.pure_def,
    Option.some.injEq, Nat.one_le_ofNat, le_refl]
  by_cases hSame : currentEpoch config time = e
  · subst hSame
    simp only [guard_true, Option.pure_def, Option.bind_some, if_true]
    congr 1
    funext parsed
    by_cases hMem : currentEpoch config time ∈ parsed.epochs
    · simp [hMem]
    · simp [hMem]
  · simp [hSame, Ne.symm hSame]

/-- Both lookups gave the same key, or two keys the relay can tell apart. -/
theorem parseEntries_document (hHash : platform.sha256 = crypto.sha256) (hSeconds : 1 ≤ config.EPOCH_SECONDS)
    {current previous : Bytes} (hCurrent : Rsa2048 crypto (publicKey current) current)
    (hPrevious : Rsa2048 crypto (publicKey previous) previous)
    (hDistinct : keyIdFromSpki platform current = keyIdFromSpki platform previous → current = previous) {e : Int}
    (hEpoch : 1 ≤ e) :
    ∃ parsed, [keyEntry e (publicEntry platform current), keyEntry (e - 1) (publicEntry platform previous)].foldlM
        (parseEntry crypto config.EPOCH_SECONDS e) ⟨.empty, []⟩ = some parsed ∧ e ∈ parsed.epochs ∧
      parsed.next.entries = if current = previous then
          [(keyIdFromSpki platform current, cachedEntry crypto publicKey config current e)]
        else [(keyIdFromSpki platform current, cachedEntry crypto publicKey config current e),
          (keyIdFromSpki platform previous, cachedEntry crypto publicKey config previous (e - 1))] := by
  have hPositive : ∀ a : Int, 0 ≤ a → 0 ≤ (a + 2) * config.EPOCH_SECONDS * 1000 :=
    fun a ha => Int.mul_nonneg (Int.mul_nonneg (by omega) (by omega)) (by omega)
  have hFirst : parseEntry crypto config.EPOCH_SECONDS e ⟨.empty, []⟩ (keyEntry e (publicEntry platform current)) = _ :=
    parseEntry_keyEntry hHash hCurrent (by simp) (by simp)
  have hSecond : ∀ next, parseEntry crypto config.EPOCH_SECONDS e ⟨next, [e]⟩
      (keyEntry (e - 1) (publicEntry platform previous)) = _ :=
    fun next => parseEntry_keyEntry hHash hPrevious (by simp) (by simp)
  simp only [List.foldlM_cons, List.foldlM_nil, hFirst, Option.bind_eq_bind, Option.bind_some, Option.pure_def,
    List.nil_append, hSecond, OrderedMap.get?_empty, Option.map_none, Option.getD_none,
    max_eq_left (hPositive e (by omega))]
  refine ⟨_, rfl, by simp, ?_⟩
  change (OrderedMap.set (OrderedMap.set .empty (keyIdFromSpki platform current)
    (cachedEntry crypto publicKey config current e)) _ _).entries = _
  have hEntries : (OrderedMap.set .empty (keyIdFromSpki platform current)
      (cachedEntry crypto publicKey config current e)).entries = [(keyIdFromSpki platform current,
        cachedEntry crypto publicKey config current e)] := rfl
  by_cases hSame : current = previous
  · subst hSame
    have hLonger : (e - 1 + 2) * config.EPOCH_SECONDS * 1000 ≤ (e + 2) * config.EPOCH_SECONDS * 1000 :=
      Int.mul_le_mul_of_nonneg_right (Int.mul_le_mul_of_nonneg_right (by omega) (by omega)) (by omega)
    rw [if_pos rfl, OrderedMap.get?_set_self, OrderedMap.entries_set, OrderedMap.has, OrderedMap.get?_set_self,
      hEntries]
    change [if keyIdFromSpki platform current = keyIdFromSpki platform current then _ else _] = _
    rw [if_pos rfl, Option.map_some, Option.getD_some]
    change [(_, Entry.mk _ _ (max _ ((e + 2) * config.EPOCH_SECONDS * 1000)))] = _
    rw [max_eq_right hLonger]
    rfl
  · have hOther : keyIdFromSpki platform previous ≠ keyIdFromSpki platform current :=
      fun hEq => hSame (hDistinct hEq.symm)
    rw [if_neg hSame, OrderedMap.get?_set_of_ne _ _ hOther, OrderedMap.entries_set, OrderedMap.has,
      OrderedMap.get?_set_of_ne _ _ hOther, hEntries]
    change [_, (_, Entry.mk _ _ (max _ 0))] = _
    rw [max_eq_left (hPositive (e - 1) (by omega))]
    rfl

/-- The issuer's document, read by the relay: one cached entry for each key, under the id that `/issue` answers with,
for as long as the last epoch it is listed for is accepted; and nothing in another epoch. -/
theorem relay_accepts_issuer_keys (hHash : platform.sha256 = crypto.sha256) (hSeconds : 1 ≤ config.EPOCH_SECONDS)
    (hLimit : config.EPOCH_SECONDS ≤ 31557600) {imported : Imported} (hLoad : load platform provider = some imported)
    (hImported : config.imported = some imported)
    (hUsable : ∀ spki, Exported platform provider spki → Rsa2048 crypto (publicKey spki) spki)
    (hDistinct : ∀ a b, Exported platform provider a → Exported platform provider b →
      keyIdFromSpki platform a = keyIdFromSpki platform b → a = b)
    (now : Nat → Int) {e : Int} (hEpoch : currentEpoch config (now 0) = e) :
    (1 ≤ e → keyAt imported e ≠ none → keyAt imported (e - 1) ≠ none →
      (∀ n ≤ 4, currentEpoch config (now n) = e) → handleIssuerKeys config now ≠ none) ∧
    ∀ doc, handleIssuerKeys config now = some doc → ∃ current previous,
      loadedKeys config (now 2) e = some (publicEntry platform current) ∧
      loadedKeys config (now 4) (e - 1) = some (publicEntry platform previous) ∧ ∀ time,
        (currentEpoch config time = e → ∃ keys, parse crypto time doc = some keys ∧
          keys.entries = if current = previous then
              [(keyIdFromSpki platform current, cachedEntry crypto publicKey config current e)]
            else [(keyIdFromSpki platform current, cachedEntry crypto publicKey config current e),
              (keyIdFromSpki platform previous, cachedEntry crypto publicKey config previous (e - 1))]) ∧
        (currentEpoch config time ≠ e → parse crypto time doc = none) := by
  subst hEpoch
  refine ⟨fun hOne hCurrent hPrevious hSame => ?_, fun doc hDoc => ?_⟩
  · exact handleIssuerKeys_ne_none hSeconds hImported hOne hSame hCurrent hPrevious
  obtain ⟨currentKey, previousKey, hCurrent, hPrevious, rfl⟩ := handleIssuerKeys_eq_some hDoc
  obtain ⟨-, hCurrent⟩ := keysForEpoch_eq_some hCurrent
  obtain ⟨-, hPrevious⟩ := keysForEpoch_eq_some hPrevious
  obtain ⟨hLive, hPreviousKey⟩ := loadedKeys_eq_some hImported hPrevious
  obtain ⟨current, hCurrentExported, rfl⟩ := load_exported hLoad (loadedKeys_eq_some hImported hCurrent).2
  obtain ⟨previous, hPreviousExported, rfl⟩ := load_exported hLoad hPreviousKey
  have hOne : 1 ≤ currentEpoch config (now 0) := by omega
  obtain ⟨parsed, hParsed, hMem, hEntries⟩ := parseEntries_document hHash hSeconds (hUsable current hCurrentExported)
    (hUsable previous hPreviousExported) (hDistinct current previous hCurrentExported hPreviousExported) hOne
  refine ⟨current, previous, hCurrent, hPrevious, fun time => ⟨fun hTime => ⟨parsed.next, ?_, hEntries⟩, fun hTime => ?_⟩⟩
  · rw [parse_document hSeconds hLimit rfl, if_pos hTime, hParsed, Option.bind_some, if_pos hMem]
  · rw [parse_document hSeconds hLimit rfl, if_neg hTime]

end

/-! ## A manifest of two keys, in epoch 2 -/

def testKeys : Platform where
  createPrivateKey
    | .pkcs8 der => some ⟨.rsa, 2048, some ⟨hex der, str "AQAB", []⟩⟩
    | _ => none
  spkiOf jwk := some (utf8Encode jwk.n)
  sha256 bytes := first32 bytes
  jsonParse _ := none

def testPublicKey (spki : Bytes) : PublicKey := ⟨.rsa, 2048, 2 ^ 2047 + 1, 65537, spki⟩

def testRelay : Crypto := ⟨fun spki => some (testPublicKey spki), testKeys.sha256⟩

def testProvider : Provider := .manifest [(2, base64Encode [2]), (1, base64Encode [1])]

def testManifest : Imported := .manifest [(2, publicEntry testKeys [48, 50]), (1, publicEntry testKeys [48, 49])]

def testEpochs : Config := { Issue.testIssuerConfig with EPOCH_SECONDS := 60, imported := some testManifest }

theorem exported_testProvider {spki : Bytes} (h : Exported testKeys testProvider spki) :
    spki = [48, 50] ∨ spki = [48, 49] := by
  obtain ⟨material, hMem, jwk, hSpki⟩ := h
  rcases List.mem_pair.mp hMem with rfl | rfl
  · have hSecond : importSpki testKeys (base64Encode [2]) = some (⟨str "02", str "AQAB", []⟩, [48, 50]) := rfl
    rw [hSecond] at hSpki
    cases hSpki
    exact .inl rfl
  · have hFirst : importSpki testKeys (base64Encode [1]) = some (⟨str "01", str "AQAB", []⟩, [48, 49]) := rfl
    rw [hFirst] at hSpki
    cases hSpki
    exact .inr rfl

theorem relay_accepts_issuer_keys_epoch_two :
    ∃ doc keys, handleIssuerKeys testEpochs (fun _ => 120000) = some doc ∧ parse testRelay 179999 doc = some keys ∧
      keys.entries = [(keyIdFromSpki testKeys [48, 50], cachedEntry testRelay testPublicKey testEpochs [48, 50] 2),
        (keyIdFromSpki testKeys [48, 49], cachedEntry testRelay testPublicKey testEpochs [48, 49] 1)] ∧
      parse testRelay 180000 doc = none := by
  have hLoad : load testKeys testProvider = some testManifest := rfl
  have hUsable : ∀ spki, Exported testKeys testProvider spki → Rsa2048 testRelay (testPublicKey spki) spki := by
    intro spki hSpki
    refine ⟨rfl, rfl, List.mem_cons_self, rfl, ?_⟩
    rcases exported_testProvider hSpki with rfl | rfl
    · decide
    · decide
  have hDistinct : ∀ a b, Exported testKeys testProvider a → Exported testKeys testProvider b →
      keyIdFromSpki testKeys a = keyIdFromSpki testKeys b → a = b := by
    intro a b ha hb hEq
    rcases exported_testProvider ha with rfl | rfl <;> rcases exported_testProvider hb with rfl | rfl
    · rfl
    · exact absurd hEq (by decide)
    · exact absurd hEq (by decide)
    · rfl
  have hAgree := @relay_accepts_issuer_keys testKeys testEpochs testProvider testRelay testPublicKey rfl (by decide)
    (by decide) testManifest hLoad rfl hUsable hDistinct (fun _ => 120000) 2 rfl
  obtain ⟨doc, hDoc⟩ := Option.ne_none_iff_exists'.mp
    (hAgree.1 (by decide) (by decide) (by decide) fun _ _ => rfl)
  obtain ⟨current, previous, hCurrent, hPrevious, hParse⟩ := hAgree.2 doc hDoc
  obtain ⟨keys, hKeys, hEntries⟩ := (hParse 179999).1 rfl
  have hSecond : loadedKeys testEpochs 120000 2 = some (publicEntry testKeys [48, 50]) := rfl
  have hFirst : loadedKeys testEpochs 120000 1 = some (publicEntry testKeys [48, 49]) := rfl
  obtain rfl := publicEntry_injective (Option.some.inj (hSecond.symm.trans hCurrent))
  obtain rfl := publicEntry_injective (Option.some.inj (hFirst.symm.trans hPrevious))
  exact ⟨doc, keys, hDoc, hKeys, hEntries, (hParse 180000).2 (by decide)⟩

end Columbia.Issuer.EpochKeys
