import Columbia.Js.Base64
import Columbia.Lib.OrderedMap
import Columbia.Lib.Transition
import Mathlib.Algebra.Order.Group.Int
import Mathlib.Data.Option.Basic
import Mathlib.Order.Bounds.Basic

/-! # The relay's cache of issuer public keys

`parse` turns a key document into the map that is cached. `get` answers from the map, after a refresh when
the wanted key is missing, expired or the map is older than its TTL. A refresh is one fetch at a time; its
promise is cleared in a later turn than the one in which the document is parsed. Each synchronous section
reads the clock at several places: `now n` is the reading at its `n`-th place.
-/
namespace Columbia.Relay.IssuerKeyCache
open Columbia.Js Columbia.Lib
set_option autoImplicit false

inductive KeyType
  | rsa
  | rsaPss
  | other
  deriving DecidableEq

/-- A key object: what it is, and the bytes it is exported as. -/
structure PublicKey where
  asymmetricKeyType : KeyType
  modulusLength : Nat
  modulus : Nat
  exponent : Nat
  spki : Bytes
  deriving DecidableEq

structure Entry where
  publicKey : PublicKey
  fingerprint : Str
  expiresAt : Int
  deriving DecidableEq

/-- `createPublicKey` of SPKI bytes, `none` when it throws, and SHA-256. -/
structure Crypto where
  createPublicKey : Bytes → Option PublicKey
  sha256 : Bytes → Digest

def fingerprintOf (crypto : Crypto) (key : PublicKey) : Str := hex (crypto.sha256 key.spki).val

structure Parsed where
  next : OrderedMap Str Entry
  epochs : List Int

def parseEntry (crypto : Crypto) (epochSeconds epoch : Int) (acc : Parsed) (entry : Value) : Option Parsed := do
  let entryEpoch ← integer? (entry.field "epoch")
  guard (entryEpoch ∈ [epoch, epoch - 1] ∧ entryEpoch ∉ acc.epochs)
  let publicKeySpki ← string? (entry.field "publicKeySpki")
  guard (publicKeySpki.length ≤ 2048)
  let publicKey ← crypto.createPublicKey (base64Decode publicKeySpki)
  guard (publicKey.asymmetricKeyType ∈ [.rsa, .rsaPss] ∧ publicKey.modulusLength = 2048)
  let fingerprint := fingerprintOf crypto publicKey
  let keyId ← string? (entry.field "keyId")
  guard (keyId = fingerprint.take 32)
  let expiresAt := (entryEpoch + 2) * epochSeconds * 1000
  let prior := acc.next.get? keyId
  some
    { next := acc.next.set keyId ⟨publicKey, fingerprint, max expiresAt ((prior.map (·.expiresAt)).getD 0)⟩
      epochs := acc.epochs ++ [entryEpoch] }

def suite : Str := str "RSABSSA-SHA384-PSS-Deterministic"

def parse (crypto : Crypto) (now : Int) (doc : Value) : Option (OrderedMap Str Entry) := do
  guard (integer? (doc.field "schemaVersion") = some 1 ∧ string? (doc.field "suite") = some suite)
  let epochSeconds ← safeIntegerFrom? 1 (doc.field "epochSeconds")
  guard (epochSeconds ≤ 31557600)
  match doc.field "keys" with
  | .arr keys =>
    guard (1 ≤ keys.length ∧ keys.length ≤ 2)
    let epoch := now / 1000 / epochSeconds
    guard (integer? (doc.field "epoch") = some epoch)
    let parsed ← keys.foldlM (parseEntry crypto epochSeconds epoch) ⟨.empty, []⟩
    guard (epoch ∈ parsed.epochs)
    some parsed.next
  | _ => none

/-- The numbers are safe integers, at least 1; `url` is empty when no issuer is configured. -/
structure Config where
  url : Str
  ttlMs : Int
  backoffMs : Int
  ttlMs_pos : 1 ≤ ttlMs
  backoffMs_pos : 1 ≤ backoffMs

def createIssuerKeyCache (url : Str) (ttlMs backoffMs : Value) : Option Config :=
  match hTtl : safeIntegerFrom? 1 ttlMs, hBackoff : safeIntegerFrom? 1 backoffMs with
  | some ttl, some backoff =>
    some ⟨url, ttl, backoff, one_le_of_safeIntegerFrom? hTtl, one_le_of_safeIntegerFrom? hBackoff⟩
  | _, _ => none

/-- The default times of `createIssuerKeyCache`, with some URL. -/
def defaults : Config := ⟨str "https://issuer", 300000, 5000, by decide, by decide⟩

/-- `pending`: unset, waiting for the document, or waiting for its own `finally`. -/
inductive Pending
  | unset
  | fetching (promise : Nat)
  | clearing (promise : Nat)
  deriving DecidableEq

def Pending.promise? : Pending → Option Nat
  | .unset => none
  | .fetching promise | .clearing promise => some promise

/-- `fetches` are the times at which a fetch was begun. -/
structure KeyCache where
  keys : OrderedMap Str Entry
  refreshedAt : Int
  nextAttempt : Int
  pending : Pending
  promises : Nat
  fetches : List Int

def KeyCache.empty : KeyCache := ⟨.empty, 0, 0, .unset, 0, []⟩

/-- `refresh`, with the promise its caller waits for, if any. -/
def refresh (config : Config) (now : Nat → Int) (cache : KeyCache) : KeyCache × Option Nat :=
  match cache.pending.promise? with
  | some promise => (cache, some promise)
  | none =>
    if config.url = [] ∨ now 2 < cache.nextAttempt then (cache, none)
    else
      ({ cache with
          nextAttempt := now 3 + config.backoffMs
          pending := .fetching cache.promises
          promises := cache.promises + 1
          fetches := cache.fetches ++ [now 3] }, some cache.promises)

/-- `entry`, `null`, or a thrown `RedemptionUnavailable`. -/
inductive Answer
  | entry (e : Entry)
  | null
  | unavailable
  deriving DecidableEq

def answer (now : Nat → Int) (cache : KeyCache) (keyId : Str) : Answer :=
  match (cache.keys.get? keyId).filter fun entry => now 4 < entry.expiresAt with
  | some entry => .entry entry
  | none => if cache.keys.entries.zipIdx.any fun (key, n) => now (5 + n) < key.2.expiresAt then .null else .unavailable

/-- Where a `get` call stands: answered in its first turn, or waiting for a refresh. -/
inductive Get
  | answered (a : Answer)
  | awaiting (promise : Option Nat)
  deriving DecidableEq

def stale (config : Config) (now : Nat → Int) (cache : KeyCache) (keyId : Str) : Bool :=
  match cache.keys.get? keyId with
  | none => true
  | some entry => now 0 ≥ entry.expiresAt ∨ now 1 - cache.refreshedAt ≥ config.ttlMs

def get (config : Config) (now : Nat → Int) (cache : KeyCache) (keyId : Str) : KeyCache × Get :=
  if stale config now cache keyId then
    let (cache, promise) := refresh config now cache
    (cache, .awaiting promise)
  else (cache, .answered (answer now cache keyId))

def getResume (now : Nat → Int) (cache : KeyCache) (keyId : Str) (promise : Option Nat) : Option Answer :=
  if promise.isSome ∧ promise = cache.pending.promise? then none else some (answer now cache keyId)

def fetched (crypto : Crypto) (now : Nat → Int) (doc : Option Value) (cache : KeyCache) : Option KeyCache :=
  match cache.pending with
  | .fetching promise =>
    match doc.bind (parse crypto (now 0)) with
    | some keys => some { cache with keys := keys, refreshedAt := now 1, pending := .clearing promise }
    | none => some { cache with pending := .clearing promise }
  | _ => none

def clear (cache : KeyCache) : Option KeyCache :=
  match cache.pending with
  | .clearing _ => some { cache with pending := .unset }
  | _ => none

/-! ## What the cached entries are -/

/-- The entry is about its own key: keyed by the start of the fingerprint of that key. -/
structure EntrySound (crypto : Crypto) (keyId : Str) (entry : Entry) : Prop where
  fingerprint : entry.fingerprint = fingerprintOf crypto entry.publicKey
  keyId : keyId = entry.fingerprint.take 32
  keyType : entry.publicKey.asymmetricKeyType ∈ [KeyType.rsa, KeyType.rsaPss]
  modulusLength : entry.publicKey.modulusLength = 2048

def KeysSound (crypto : Crypto) (keys : OrderedMap Str Entry) : Prop :=
  ∀ keyId entry, keys.get? keyId = some entry → EntrySound crypto keyId entry

theorem keysSound_empty (crypto : Crypto) : KeysSound crypto .empty := nofun

theorem parseEntry_eq_some {crypto : Crypto} {epochSeconds epoch : Int} {acc acc' : Parsed} {entry : Value}
    (h : parseEntry crypto epochSeconds epoch acc entry = some acc') :
    ∃ keyId e entryEpoch, EntrySound crypto keyId e ∧ string? (entry.field "keyId") = some keyId ∧
      integer? (entry.field "epoch") = some entryEpoch ∧ entryEpoch ∈ [epoch, epoch - 1] ∧
      e.expiresAt = max ((entryEpoch + 2) * epochSeconds * 1000)
        (((acc.next.get? keyId).map (·.expiresAt)).getD 0) ∧
      acc' = ⟨acc.next.set keyId e, acc.epochs ++ [entryEpoch]⟩ := by
  simp only [parseEntry, Option.bind_eq_bind, Option.bind_eq_some_iff, Option.guard_eq_some', exists_const,
    Option.some.injEq] at h
  obtain ⟨entryEpoch, hInteger, ⟨hEpoch, -⟩, spki, -, -, key, -, ⟨hType, hLength⟩, keyId, hString, hKeyId, rfl⟩ := h
  exact ⟨keyId, _, entryEpoch, ⟨rfl, hKeyId, hType, hLength⟩, hString, hInteger, hEpoch, rfl, rfl⟩

theorem parseEntry_sound {crypto : Crypto} {epochSeconds epoch : Int} {acc acc' : Parsed} {entry : Value}
    (hAcc : KeysSound crypto acc.next) (h : parseEntry crypto epochSeconds epoch acc entry = some acc') :
    KeysSound crypto acc'.next := by
  obtain ⟨keyId, e, -, hSound, -, -, -, -, rfl⟩ := parseEntry_eq_some h
  intro keyId' e' hGet
  rw [OrderedMap.get?_set] at hGet
  split at hGet
  · subst keyId'
    cases hGet
    exact hSound
  · exact hAcc keyId' e' hGet

theorem parseEntries_sound {crypto : Crypto} {epochSeconds epoch : Int} (entries : List Value) {acc acc' : Parsed}
    (hAcc : KeysSound crypto acc.next)
    (h : entries.foldlM (parseEntry crypto epochSeconds epoch) acc = some acc') : KeysSound crypto acc'.next := by
  induction entries generalizing acc with
  | nil =>
    cases h
    exact hAcc
  | cons entry rest ih =>
    obtain ⟨mid, hEntry, hRest⟩ := Option.bind_eq_some_iff.mp h
    exact ih (parseEntry_sound hAcc hEntry) hRest

/-- Everything an accepted document passed. -/
theorem parse_eq_some {crypto : Crypto} {now : Int} {doc : Value} {keys : OrderedMap Str Entry}
    (h : parse crypto now doc = some keys) :
    ∃ epochSeconds entries parsed, safeIntegerFrom? 1 (doc.field "epochSeconds") = some epochSeconds ∧
      doc.field "keys" = .arr entries ∧ integer? (doc.field "epoch") = some (now / 1000 / epochSeconds) ∧
      entries.foldlM (parseEntry crypto epochSeconds (now / 1000 / epochSeconds)) ⟨.empty, []⟩ = some parsed ∧
      keys = parsed.next := by
  simp only [parse, Option.bind_eq_bind, Option.bind_eq_some_iff, Option.guard_eq_some', exists_const] at h
  obtain ⟨-, epochSeconds, hSeconds, -, h⟩ := h
  split at h
  · rename_i entries hEntries
    simp only [Option.bind_eq_some_iff, Option.guard_eq_some', exists_const, Option.some.injEq] at h
    obtain ⟨-, hEpoch, parsed, hFold, -, rfl⟩ := h
    exact ⟨epochSeconds, entries, parsed, hSeconds, hEntries, hEpoch, hFold, rfl⟩
  · cases h

theorem parse_sound {crypto : Crypto} {now : Int} {doc : Value} {keys : OrderedMap Str Entry}
    (h : parse crypto now doc = some keys) : KeysSound crypto keys := by
  obtain ⟨_, _, _, -, -, -, hFold, rfl⟩ := parse_eq_some h
  exact parseEntries_sound _ (keysSound_empty crypto) hFold

/-! ## How long they live -/

def Lists (entries : List Value) (keyId : Str) (e : Int) : Prop :=
  ∃ entry ∈ entries, string? (entry.field "keyId") = some keyId ∧ integer? (entry.field "epoch") = some e

/-- A cached key lives for the greatest of its epochs; a listed key is cached. -/
structure Lifetimes (entries : List Value) (epochSeconds epoch : Int) (next : OrderedMap Str Entry) : Prop where
  expiry : ∀ keyId entry, next.get? keyId = some entry → ∃ e, IsGreatest {e | Lists entries keyId e} e ∧
    e ∈ [epoch, epoch - 1] ∧ entry.expiresAt = max ((e + 2) * epochSeconds * 1000) 0
  cached : ∀ keyId e, Lists entries keyId e → next.get? keyId ≠ none

theorem lifetimes_empty (epochSeconds epoch : Int) : Lifetimes [] epochSeconds epoch .empty :=
  ⟨nofun, fun _ _ ⟨_, hMem, _⟩ => nomatch hMem⟩

theorem lists_append_singleton {entries : List Value} {entry : Value} {keyId' : Str} {e' : Int} {keyId : Str} {e : Int}
    (hString : string? (entry.field "keyId") = some keyId') (hInteger : integer? (entry.field "epoch") = some e') :
    Lists (entries ++ [entry]) keyId e ↔ Lists entries keyId e ∨ keyId = keyId' ∧ e = e' := by
  constructor
  · rintro ⟨v, hMem, hKey, hEpoch⟩
    rcases List.mem_append.mp hMem with hMem | hMem
    · exact .inl ⟨v, hMem, hKey, hEpoch⟩
    · obtain rfl := List.mem_singleton.mp hMem
      rw [hString] at hKey
      rw [hInteger] at hEpoch
      cases hKey
      cases hEpoch
      exact .inr ⟨rfl, rfl⟩
  · rintro (⟨v, hMem, hKey, hEpoch⟩ | ⟨rfl, rfl⟩)
    · exact ⟨v, List.mem_append_left _ hMem, hKey, hEpoch⟩
    · exact ⟨entry, List.mem_append_right _ (List.mem_singleton.mpr rfl), hString, hInteger⟩

theorem max_expiry {epochSeconds : Int} (hSeconds : 1 ≤ epochSeconds) (e e' : Int) :
    max ((e + 2) * epochSeconds * 1000) (max ((e' + 2) * epochSeconds * 1000) 0) =
      max ((max e' e + 2) * epochSeconds * 1000) 0 := by
  have hMono : ∀ {a b : Int}, a ≤ b → (a + 2) * epochSeconds * 1000 ≤ (b + 2) * epochSeconds * 1000 := by
    intro a b hab
    exact Int.mul_le_mul_of_nonneg_right
      (Int.mul_le_mul_of_nonneg_right (Int.add_le_add_right hab 2) (by omega)) (by omega)
  rw [← max_assoc]
  congr 1
  rcases le_total e e' with hLe | hLe
  · rw [max_eq_right (hMono hLe), max_eq_left hLe]
  · rw [max_eq_left (hMono hLe), max_eq_right hLe]

theorem parseEntry_lifetimes {crypto : Crypto} {epochSeconds epoch : Int} {done : List Value} {acc acc' : Parsed}
    {entry : Value} (hSeconds : 1 ≤ epochSeconds) (hAcc : Lifetimes done epochSeconds epoch acc.next)
    (h : parseEntry crypto epochSeconds epoch acc entry = some acc') :
    Lifetimes (done ++ [entry]) epochSeconds epoch acc'.next := by
  obtain ⟨keyId, e, entryEpoch, -, hString, hInteger, hEpoch, hExpires, rfl⟩ := parseEntry_eq_some h
  have hLists : ∀ keyId' e', Lists (done ++ [entry]) keyId' e' ↔ Lists done keyId' e' ∨ keyId' = keyId ∧ e' = entryEpoch :=
    fun _ _ => lists_append_singleton hString hInteger
  constructor
  · intro keyId' e' hGet
    rw [OrderedMap.get?_set] at hGet
    split at hGet
    · subst keyId'
      cases hGet
      cases hPrior : acc.next.get? keyId with
      | none =>
        refine ⟨entryEpoch, ⟨(hLists _ _).mpr (.inr ⟨rfl, rfl⟩), fun e₁ he₁ => ?_⟩, hEpoch, ?_⟩
        · rcases (hLists _ _).mp he₁ with hOld | ⟨-, rfl⟩
          · exact absurd hPrior (hAcc.cached _ _ hOld)
          · exact le_rfl
        · rw [hExpires, hPrior]
          rfl
      | some prior =>
        obtain ⟨e₀, ⟨hListed, hGreatest⟩, hOld, hOldExpires⟩ := hAcc.expiry keyId prior hPrior
        refine ⟨max e₀ entryEpoch, ⟨?_, fun e₁ he₁ => ?_⟩, ?_, ?_⟩
        · rcases max_choice e₀ entryEpoch with hMax | hMax
          · rw [hMax]
            exact (hLists _ _).mpr (.inl hListed)
          · rw [hMax]
            exact (hLists _ _).mpr (.inr ⟨rfl, rfl⟩)
        · rcases (hLists _ _).mp he₁ with hBefore | ⟨-, rfl⟩
          · exact le_max_of_le_left (hGreatest hBefore)
          · exact le_max_right _ _
        · rcases max_choice e₀ entryEpoch with hMax | hMax
          · rw [hMax]
            exact hOld
          · rw [hMax]
            exact hEpoch
        · rw [hExpires, hPrior]
          change max _ prior.expiresAt = _
          rw [hOldExpires]
          exact max_expiry hSeconds entryEpoch e₀
    · rename_i hOther
      obtain ⟨e₀, ⟨hListed, hGreatest⟩, hOld, hOldExpires⟩ := hAcc.expiry keyId' e' hGet
      refine ⟨e₀, ⟨(hLists _ _).mpr (.inl hListed), fun e₁ he₁ => ?_⟩, hOld, hOldExpires⟩
      rcases (hLists _ _).mp he₁ with hBefore | ⟨hEq, -⟩
      · exact hGreatest hBefore
      · exact absurd hEq hOther
  · intro keyId' e' hListed
    rw [OrderedMap.get?_set]
    split
    · simp
    · rename_i hOther
      rcases (hLists _ _).mp hListed with hBefore | ⟨hEq, -⟩
      · exact hAcc.cached _ _ hBefore
      · exact absurd hEq hOther

theorem parseEntries_lifetimes {crypto : Crypto} {epochSeconds epoch : Int} (hSeconds : 1 ≤ epochSeconds)
    (entries : List Value) {done : List Value} {acc acc' : Parsed} (hAcc : Lifetimes done epochSeconds epoch acc.next)
    (h : entries.foldlM (parseEntry crypto epochSeconds epoch) acc = some acc') :
    Lifetimes (done ++ entries) epochSeconds epoch acc'.next := by
  induction entries generalizing done acc with
  | nil =>
    cases h
    simpa using hAcc
  | cons entry rest ih =>
    obtain ⟨mid, hEntry, hRest⟩ := Option.bind_eq_some_iff.mp h
    have hMid := ih (parseEntry_lifetimes hSeconds hAcc hEntry) hRest
    simpa using hMid

/-- The entry is in the map of a document accepted at `time`, which lists its key up to epoch `e`. -/
structure Published (crypto : Crypto) (keyId : Str) (entry : Entry) (time : Int) (doc : Value) (epochSeconds e : Int) :
    Prop where
  accepted : ∃ keys, parse crypto time doc = some keys ∧ keys.get? keyId = some entry
  seconds : safeIntegerFrom? 1 (doc.field "epochSeconds") = some epochSeconds
  greatest : ∃ entries, doc.field "keys" = .arr entries ∧ IsGreatest {e | Lists entries keyId e} e
  current_or_previous : e ∈ [time / 1000 / epochSeconds, time / 1000 / epochSeconds - 1]

theorem parse_published {crypto : Crypto} {time : Int} {doc : Value} {keys : OrderedMap Str Entry} {keyId : Str}
    {entry : Entry} (hTime : 0 ≤ time) (h : parse crypto time doc = some keys) (hGet : keys.get? keyId = some entry) :
    ∃ epochSeconds e, Published crypto keyId entry time doc epochSeconds e ∧
      entry.expiresAt = (e + 2) * epochSeconds * 1000 := by
  obtain ⟨epochSeconds, entries, parsed, hSeconds, hEntries, -, hFold, rfl⟩ := parse_eq_some h
  have hPos := (safeIntegerFrom?_eq_some hSeconds).1
  have hLife := parseEntries_lifetimes hPos entries (lifetimes_empty _ _) hFold
  obtain ⟨e, hGreatest, hLive, hExpires⟩ := hLife.expiry keyId entry hGet
  refine ⟨epochSeconds, e, ⟨⟨_, h, hGet⟩, hSeconds, ⟨entries, hEntries, hGreatest⟩, hLive⟩, ?_⟩
  have hEpoch : 0 ≤ time / 1000 / epochSeconds := Int.ediv_nonneg (Int.ediv_nonneg hTime (by omega)) (by omega)
  have hOld : -1 ≤ e := by
    rcases List.mem_pair.mp hLive with rfl | rfl <;> omega
  rw [hExpires]
  apply max_eq_left
  exact Int.mul_nonneg (Int.mul_nonneg (by omega) (by omega)) (by omega)

/-! ## What the operations do to the cached map -/

@[simp] theorem refresh_keys (config : Config) (now : Nat → Int) (cache : KeyCache) :
    (refresh config now cache).1.keys = cache.keys := by
  unfold refresh
  split
  · rfl
  · split <;> rfl

@[simp] theorem get_keys (config : Config) (now : Nat → Int) (cache : KeyCache) (keyId : Str) :
    (get config now cache keyId).1.keys = cache.keys := by
  unfold get
  split
  · exact refresh_keys config now cache
  · rfl

theorem fetched_keys {crypto : Crypto} {now : Nat → Int} {doc : Option Value} {cache cache' : KeyCache}
    (h : fetched crypto now doc cache = some cache') :
    cache'.keys = cache.keys ∨ ∃ d, doc = some d ∧ parse crypto (now 0) d = some cache'.keys := by
  unfold fetched at h
  split at h
  · split at h <;> cases h
    · rename_i hParse
      exact .inr (Option.bind_eq_some_iff.mp hParse)
    · exact .inl rfl
  · cases h

theorem clear_keys {cache cache' : KeyCache} (h : clear cache = some cache') : cache'.keys = cache.keys := by
  unfold clear at h
  split at h <;> cases h
  rfl

theorem answer_entry {now : Nat → Int} {cache : KeyCache} {keyId : Str} {e : Entry}
    (h : answer now cache keyId = .entry e) : cache.keys.get? keyId = some e ∧ now 4 < e.expiresAt := by
  unfold answer at h
  split at h
  · rename_i hGet
    cases h
    simpa using Option.filter_eq_some_iff.mp hGet
  · split at h <;> cases h

theorem answer_null {now : Nat → Int} {cache : KeyCache} {keyId : Str} (h : answer now cache keyId = .null) :
    (∀ e, cache.keys.get? keyId = some e → e.expiresAt ≤ now 4) ∧
      ∃ k e n, cache.keys.get? k = some e ∧ now (5 + n) < e.expiresAt := by
  unfold answer at h
  split at h
  · cases h
  rename_i hFilter
  split at h
  · rename_i hAny
    obtain ⟨⟨⟨k, e⟩, n⟩, hMem, hLive⟩ := List.any_eq_true.mp hAny
    refine ⟨fun e' hGet => ?_, k, e, n, OrderedMap.get?_eq_some_iff.mpr (List.fst_mem_of_mem_zipIdx hMem), ?_⟩
    · have hNot := Option.filter_eq_none_iff.mp hFilter e' hGet
      simpa using hNot
    · simpa using hLive
  · cases h

theorem answer_unavailable {now : Nat → Int} {cache : KeyCache} {keyId k : Str} {e : Entry}
    (h : answer now cache keyId = .unavailable) (hGet : cache.keys.get? k = some e) : ∃ n, e.expiresAt ≤ now n := by
  unfold answer at h
  split at h
  · cases h
  split at h
  · cases h
  rename_i hAny
  obtain ⟨n, hn, hEntry⟩ := List.mem_iff_getElem.mp (OrderedMap.get?_eq_some_iff.mp hGet)
  refine ⟨5 + n, ?_⟩
  by_contra hLive
  apply hAny
  apply List.any_eq_true.mpr
  refine ⟨((k, e), n), List.mem_zipIdx_iff_getElem?.mpr ?_, ?_⟩
  · rw [List.getElem?_eq_getElem hn, hEntry]
  · simpa using hLive

/-- `answer` is exact for a time within the turn that computes it. -/
structure AnswerAt (keys : OrderedMap Str Entry) (keyId : Str) (t : Int) (a : Answer) : Prop where
  entry : ∀ e, a = .entry e ↔ keys.get? keyId = some e ∧ t < e.expiresAt
  unavailable : a = .unavailable ↔ ∀ k e, keys.get? k = some e → e.expiresAt ≤ t
  null : a = .null ↔ (∃ k e, keys.get? k = some e ∧ t < e.expiresAt) ∧ ∀ e, keys.get? keyId = some e → e.expiresAt ≤ t

theorem answer_at (turn : Turn) (cache : KeyCache) (keyId : Str) :
    ∃ t, turn.time 0 ≤ t ∧ t ≤ turn.last ∧ AnswerAt cache.keys keyId t (answer turn.time cache keyId) := by
  have hFrom : ∀ n, turn.time 0 ≤ turn.time n := fun n => turn.monotone (Nat.zero_le n)
  cases hAnswer : answer turn.time cache keyId with
  | entry e =>
    obtain ⟨hGet, hLive⟩ := answer_entry hAnswer
    refine ⟨turn.time 4, hFrom 4, turn.le_last 4, fun e' => ?_, ⟨nofun, fun hAll => ?_⟩, ⟨nofun, fun hAll => ?_⟩⟩
    · rw [hGet]
      constructor
      · rintro ⟨⟩
        exact ⟨rfl, hLive⟩
      · rintro ⟨⟨⟩, -⟩
        rfl
    · exact absurd (hAll keyId e hGet) (not_le.mpr hLive)
    · exact absurd (hAll.2 e hGet) (not_le.mpr hLive)
  | null =>
    obtain ⟨hExpired, k, e, n, hKey, hLive⟩ := answer_null hAnswer
    have hOwn : ∀ e', cache.keys.get? keyId = some e' → e'.expiresAt ≤ turn.time (5 + n) :=
      fun e' hGet => (hExpired e' hGet).trans (turn.monotone (by omega))
    refine ⟨turn.time (5 + n), hFrom _, turn.le_last _, fun e' => ⟨nofun, fun ⟨hGet, hLater⟩ => ?_⟩,
      ⟨nofun, fun hAll => ?_⟩, ⟨fun _ => ⟨⟨k, e, hKey, hLive⟩, hOwn⟩, fun _ => rfl⟩⟩
    · exact absurd (hOwn e' hGet) (not_le.mpr hLater)
    · exact absurd (hAll k e hKey) (not_le.mpr hLive)
  | unavailable =>
    have hAll : ∀ k e, cache.keys.get? k = some e → e.expiresAt ≤ turn.last := by
      intro k e hGet
      obtain ⟨n, hExpired⟩ := answer_unavailable hAnswer hGet
      exact hExpired.trans (turn.le_last _)
    refine ⟨turn.last, (hFrom 0).trans (turn.le_last 0), le_rfl, fun e' => ⟨nofun, fun ⟨hGet, hLater⟩ => ?_⟩,
      ⟨fun _ => hAll, fun _ => rfl⟩, ⟨nofun, fun ⟨⟨k, e, hGet, hLater⟩, _⟩ => ?_⟩⟩
    · exact absurd (hAll keyId e' hGet) (not_le.mpr hLater)
    · exact absurd (hAll k e hGet) (not_le.mpr hLater)

theorem get_answered {config : Config} {now : Nat → Int} {cache cache' : KeyCache} {keyId : Str} {e : Entry}
    (h : get config now cache keyId = (cache', .answered (.entry e))) : cache.keys.get? keyId = some e := by
  unfold get at h
  split at h
  · cases h
  · exact (answer_entry (Get.answered.inj (Prod.mk.inj h).2)).1

theorem getResume_entry {now : Nat → Int} {cache : KeyCache} {keyId : Str} {promise : Option Nat} {e : Entry}
    (h : getResume now cache keyId promise = some (.entry e)) : cache.keys.get? keyId = some e := by
  unfold getResume at h
  split at h
  · cases h
  · exact (answer_entry (Option.some.inj h)).1

end Columbia.Relay.IssuerKeyCache
