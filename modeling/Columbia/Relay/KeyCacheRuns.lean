import Columbia.Lib.Transition
import Columbia.Relay.IssuerKeyCache

/-! # Runs of the issuer key cache

Any number of `get` calls over one cache, with a clock in milliseconds since the Unix epoch that never goes back.
A document arrives, or its fetch fails, at any time after the fetch was begun; the promise is cleared at any time
after that. The state also says which fetches are out and which documents were accepted, and when.
-/
namespace Columbia.Relay.KeyCacheRuns
open Columbia.Js Columbia.Lib IssuerKeyCache
set_option autoImplicit false

structure Shared where
  cache : KeyCache
  clock : Int
  inFlight : List Nat
  accepted : List (Int × Value)

inductive Call
  | idle
  | waiting (keyId : Str) (promise : Option Nat)
  | returned (keyId : Str) (answer : Answer)

inductive Action
  | get (keyId : Str) (turn : Turn)
  | resume (turn : Turn)

inductive Event
  | fetched (turn : Turn) (doc : Option Value)
  | clear

section
variable (crypto : Crypto) (config : Config)

/-- A promise made in this turn is a fetch that is now out. -/
def begun (before after : KeyCache) : List Nat :=
  if before.promises < after.promises then [before.promises] else []

def act (_ : Nat) : Action → Shared → Call → Option (Shared × Call)
  | .get keyId turn, s, .idle =>
    if s.clock ≤ turn.time 0 then
      let (cache, result) := IssuerKeyCache.get config turn.time s.cache keyId
      some ({ s with cache := cache, clock := turn.last, inFlight := s.inFlight ++ begun s.cache cache },
        match result with
        | .answered answer => .returned keyId answer
        | .awaiting promise => .waiting keyId promise)
    else none
  | .resume turn, s, .waiting keyId promise =>
    if s.clock ≤ turn.time 0 then
      (getResume turn.time s.cache keyId promise).map fun answer =>
        ({ s with clock := turn.last }, .returned keyId answer)
    else none
  | _, _, _ => none

def env : Event → Shared → Option Shared
  | .fetched turn doc, s =>
    if s.clock ≤ turn.time 0 then
      (IssuerKeyCache.fetched crypto turn.time doc s.cache).map fun cache =>
        { cache := cache
          clock := turn.last
          inFlight := s.inFlight.filter fun promise => s.cache.pending.promise? ≠ some promise
          accepted := s.accepted ++
            (doc.filter fun doc => (parse crypto (turn.time 0) doc).isSome).toList.map (turn.time 0, ·) }
    else none
  | .clear, s => (IssuerKeyCache.clear s.cache).map fun cache => { s with cache := cache }

def caches : Calls Shared Call Action Event where
  start := ⟨.empty, 0, [], []⟩
  idle := .idle
  act := act config
  env := env crypto

/-! ## What a turn can do -/

variable {crypto config}

/-- A refresh that begins a fetch, seen from the cache. -/
structure Begins (config : Config) (turn : Turn) (s s' : Shared) : Prop where
  unset : s.cache.pending = .unset
  allowed : s.cache.nextAttempt ≤ turn.time 3
  cache : s'.cache = { s.cache with
    nextAttempt := turn.time 3 + config.backoffMs
    pending := .fetching s.cache.promises
    promises := s.cache.promises + 1
    fetches := s.cache.fetches ++ [turn.time 3] }
  inFlight : s'.inFlight = s.inFlight ++ [s.cache.promises]

theorem refresh_cases (config : Config) (turn : Turn) (s : Shared) (clock : Int) :
    (refresh config turn.time s.cache).1 = s.cache ∨ Begins config turn s ⟨(refresh config turn.time s.cache).1, clock,
      s.inFlight ++ begun s.cache (refresh config turn.time s.cache).1, s.accepted⟩ := by
  cases hPending : s.cache.pending with
  | fetching promise => exact .inl (by simp [refresh, hPending, Pending.promise?])
  | clearing promise => exact .inl (by simp [refresh, hPending, Pending.promise?])
  | unset =>
    by_cases hWait : config.url = [] ∨ turn.time 2 < s.cache.nextAttempt
    · exact .inl (by simp [refresh, hPending, Pending.promise?, hWait])
    · right
      have hNext : s.cache.nextAttempt ≤ turn.time 2 := not_lt.mp fun hLt => hWait (.inr hLt)
      simp only [refresh, hPending, Pending.promise?, if_neg hWait]
      refine ⟨hPending, hNext.trans (turn.monotone (by omega)), rfl, ?_⟩
      simp [begun]

theorem get_cases (turn : Turn) (s : Shared) (keyId : Str) (clock : Int) {cache : KeyCache} {result : Get}
    (h : IssuerKeyCache.get config turn.time s.cache keyId = (cache, result)) :
    (cache = s.cache ∨ Begins config turn s ⟨cache, clock, s.inFlight ++ begun s.cache cache, s.accepted⟩) ∧
      ∀ a, result = .answered a → a = answer turn.time s.cache keyId := by
  unfold IssuerKeyCache.get at h
  split at h
  · cases h
    exact ⟨refresh_cases config turn s clock, nofun⟩
  · cases h
    refine ⟨.inl rfl, ?_⟩
    rintro a ⟨⟩
    rfl

theorem act_cases {i : Nat} {action : Action} {s s' : Shared} {call call' : Call}
    (h : act config i action s call = some (s', call')) :
    ∃ turn : Turn, s.clock ≤ turn.time 0 ∧ s'.clock = turn.last ∧ s'.accepted = s.accepted ∧
      ((s'.cache = s.cache ∧ s'.inFlight = s.inFlight) ∨ Begins config turn s s') ∧
      ∀ keyId a, call' = .returned keyId a → a = answer turn.time s.cache keyId := by
  unfold act at h
  split at h
  · rename_i keyId turn
    split at h
    · rename_i hClock
      cases hGet : IssuerKeyCache.get config turn.time s.cache keyId with
      | mk cache result =>
        obtain ⟨hCache, hAnswer⟩ := get_cases turn s keyId turn.last hGet
        simp only [hGet] at h
        cases h
        refine ⟨turn, hClock, rfl, rfl, ?_, ?_⟩
        · rcases hCache with rfl | hBegins
          · exact .inl ⟨rfl, by simp [begun]⟩
          · exact .inr hBegins
        · intro keyId' a hReturned
          split at hReturned
          · cases hReturned
            exact hAnswer a rfl
          · cases hReturned
    · cases h
  · rename_i turn keyId promise
    split at h
    · rename_i hClock
      obtain ⟨a, hResume, hEq⟩ := Option.map_eq_some_iff.mp h
      cases hEq
      refine ⟨turn, hClock, rfl, rfl, .inl ⟨rfl, rfl⟩, ?_⟩
      rintro _ _ ⟨⟩
      unfold getResume at hResume
      split at hResume <;> cases hResume
      rfl
    · cases h
  · cases h

theorem fetched_cases {turn : Turn} {doc : Option Value} {s s' : Shared}
    (h : env crypto (.fetched turn doc) s = some s') :
    s.clock ≤ turn.time 0 ∧ s'.clock = turn.last ∧ ∃ promise, s.cache.pending = .fetching promise ∧
      s'.cache.pending = .clearing promise ∧ s'.cache.nextAttempt = s.cache.nextAttempt ∧
      s'.cache.fetches = s.cache.fetches ∧ s'.inFlight = s.inFlight.filter (· ≠ promise) ∧
      ((s'.cache.keys = s.cache.keys ∧ s'.accepted = s.accepted) ∨
        ∃ d, doc = some d ∧ parse crypto (turn.time 0) d = some s'.cache.keys ∧
          s'.accepted = s.accepted ++ [(turn.time 0, d)]) := by
  unfold env at h
  simp only at h
  split at h
  · rename_i hClock
    obtain ⟨cache, hFetched, rfl⟩ := Option.map_eq_some_iff.mp h
    refine ⟨hClock, rfl, ?_⟩
    unfold IssuerKeyCache.fetched at hFetched
    split at hFetched
    · rename_i promise hPending
      have hFilter : (s.inFlight.filter fun p => s.cache.pending.promise? ≠ some p) = s.inFlight.filter (· ≠ promise) := by
        rw [hPending]
        simp [Pending.promise?, eq_comm]
      split at hFetched
      · rename_i keys hParse
        cases hFetched
        obtain ⟨d, rfl, hDoc⟩ := Option.bind_eq_some_iff.mp hParse
        exact ⟨promise, hPending, rfl, rfl, rfl, hFilter, .inr ⟨d, rfl, hDoc, by simp [hDoc]⟩⟩
      · rename_i hParse
        cases hFetched
        refine ⟨promise, hPending, rfl, rfl, rfl, hFilter, .inl ⟨rfl, ?_⟩⟩
        cases doc with
        | none => simp
        | some d =>
          have hDoc : parse crypto (turn.time 0) d = none := hParse
          simp [hDoc]
    · cases hFetched
  · cases h

theorem clear_cases {s s' : Shared} (h : env crypto .clear s = some s') :
    ∃ promise, s.cache.pending = .clearing promise ∧ s' = { s with cache := { s.cache with pending := .unset } } := by
  obtain ⟨cache, hClear, rfl⟩ := Option.map_eq_some_iff.mp h
  unfold IssuerKeyCache.clear at hClear
  split at hClear
  · rename_i promise hPending
    cases hClear
    exact ⟨promise, hPending, rfl⟩
  · cases hClear

/-! ## What every state satisfies -/

def outstanding : Pending → List Nat
  | .fetching promise => [promise]
  | _ => []

structure Inv (crypto : Crypto) (config : Config) (s : Shared) : Prop where
  clock_nonneg : 0 ≤ s.clock
  inFlight : s.inFlight = outstanding s.cache.pending
  spaced : s.cache.fetches.Pairwise (· + config.backoffMs ≤ ·)
  armed : ∀ f ∈ s.cache.fetches, f + config.backoffMs ≤ s.cache.nextAttempt
  origin : s.cache.keys = .empty ∨ ∃ time doc, (time, doc) ∈ s.accepted ∧ 0 ≤ time ∧ time ≤ s.clock ∧
    parse crypto time doc = some s.cache.keys

theorem inv_start : Inv crypto config (caches crypto config).start :=
  ⟨le_rfl, rfl, .nil, nofun, .inl rfl⟩

theorem act_keeps_inv {i : Nat} {action : Action} {s s' : Shared} {call call' : Call} (hInv : Inv crypto config s)
    (h : act config i action s call = some (s', call')) : Inv crypto config s' := by
  obtain ⟨turn, hClock, hLast, hAccepted, hCache, -⟩ := act_cases h
  have hLater : s.clock ≤ s'.clock := by
    rw [hLast]
    exact hClock.trans (turn.le_last 0)
  have hOrigin : s'.cache.keys = s.cache.keys → s'.cache.keys = .empty ∨ ∃ time doc, (time, doc) ∈ s'.accepted ∧
      0 ≤ time ∧ time ≤ s'.clock ∧ parse crypto time doc = some s'.cache.keys := by
    intro hKeys
    rw [hKeys, hAccepted]
    rcases hInv.origin with hEmpty | ⟨time, doc, hMem, hTime, hBefore, hParse⟩
    · exact .inl hEmpty
    · exact .inr ⟨time, doc, hMem, hTime, hBefore.trans hLater, hParse⟩
  rcases hCache with ⟨hCache, hFlight⟩ | hBegins
  · refine ⟨hInv.clock_nonneg.trans hLater, ?_, ?_, ?_, hOrigin (by rw [hCache])⟩
    · rw [hFlight, hCache]
      exact hInv.inFlight
    · rw [hCache]
      exact hInv.spaced
    · rw [hCache]
      exact hInv.armed
  · have hSpaced : ∀ f ∈ s.cache.fetches, f + config.backoffMs ≤ turn.time 3 :=
      fun f hf => (hInv.armed f hf).trans hBegins.allowed
    refine ⟨hInv.clock_nonneg.trans hLater, ?_, ?_, ?_, hOrigin (by rw [hBegins.cache])⟩
    · rw [hBegins.inFlight, hInv.inFlight, hBegins.unset, hBegins.cache]
      rfl
    · rw [hBegins.cache]
      apply List.pairwise_append.mpr
      refine ⟨hInv.spaced, List.pairwise_singleton _ _, fun f hf t ht => ?_⟩
      rw [List.mem_singleton.mp ht]
      exact hSpaced f hf
    · rw [hBegins.cache]
      intro f hf
      have hBackoff := config.backoffMs_pos
      rcases List.mem_append.mp hf with hf | hf
      · have hOld := hSpaced f hf
        change _ ≤ turn.time 3 + config.backoffMs
        omega
      · rw [List.mem_singleton.mp hf]

theorem env_keeps_inv {event : Event} {s s' : Shared} (hInv : Inv crypto config s)
    (h : env crypto event s = some s') : Inv crypto config s' := by
  cases event with
  | fetched turn doc =>
    obtain ⟨hClock, hLast, promise, hPending, hClearing, hNext, hFetches, hFlight, hKeys⟩ := fetched_cases h
    have hLater : s.clock ≤ s'.clock := by
      rw [hLast]
      exact hClock.trans (turn.le_last 0)
    refine ⟨hInv.clock_nonneg.trans hLater, ?_, ?_, ?_, ?_⟩
    · rw [hFlight, hInv.inFlight, hPending, hClearing]
      simp [outstanding]
    · rw [hFetches]
      exact hInv.spaced
    · rw [hFetches, hNext]
      exact hInv.armed
    · rcases hKeys with ⟨hKeys, hAccepted⟩ | ⟨d, -, hParse, hAccepted⟩
      · rw [hKeys, hAccepted]
        rcases hInv.origin with hEmpty | ⟨time, doc, hMem, hTime, hBefore, hParse⟩
        · exact .inl hEmpty
        · exact .inr ⟨time, doc, hMem, hTime, hBefore.trans hLater, hParse⟩
      · refine .inr ⟨turn.time 0, d, ?_, hInv.clock_nonneg.trans hClock, ?_, hParse⟩
        · rw [hAccepted]
          exact List.mem_append_right _ (List.mem_singleton.mpr rfl)
        · rw [hLast]
          exact turn.le_last 0
  | clear =>
    obtain ⟨promise, hPending, rfl⟩ := clear_cases h
    refine ⟨hInv.clock_nonneg, ?_, hInv.spaced, hInv.armed, hInv.origin⟩
    rw [hInv.inFlight, hPending]
    rfl

theorem caches_invariant {p : Pool Shared Call} (h : (caches crypto config).system.Reachable p) :
    Inv crypto config p.shared := by
  refine (Calls.invariant (Inv crypto config) (fun _ _ _ => True) inv_start (fun _ => trivial) ?_
    (fun _ _ _ _ _ _ _ _ _ _ _ _ => trivial) ?_ h).1
  · intro p i action shared l _ hInv _ hAct
    exact ⟨act_keeps_inv (i := i) hInv hAct, trivial⟩
  · intro p event shared _ hInv hEnv
    exact ⟨env_keeps_inv hInv hEnv, fun _ _ => trivial⟩

/-- One fetch at a time, and never two within the backoff, whoever asks for whichever key. -/
theorem issuer_contact_is_bounded {p : Pool Shared Call} (h : (caches crypto config).system.Reachable p) :
    p.shared.inFlight.length ≤ 1 ∧ p.shared.cache.fetches.Pairwise (· + config.backoffMs ≤ ·) := by
  have hInv := caches_invariant h
  refine ⟨?_, hInv.spaced⟩
  rw [hInv.inFlight]
  unfold outstanding
  split <;> simp

theorem keys_change {p q : Pool Shared Call} {label : Calls.Label Action Event}
    (hNext : (caches crypto config).system.next p label = some q) :
    q.shared.cache.keys = p.shared.cache.keys ∨ ∃ turn doc, label = .env (.fetched turn (some doc)) ∧
      parse crypto (turn.time 0) doc = some q.shared.cache.keys := by
  cases label with
  | act i action =>
    obtain ⟨shared, l, hAct, rfl⟩ := Calls.system_next_act hNext
    obtain ⟨turn, -, -, -, ⟨hCache, -⟩ | hBegins, -⟩ := act_cases (i := i) hAct
    · exact .inl (congrArg KeyCache.keys hCache)
    · left
      change shared.cache.keys = _
      rw [hBegins.cache]
  | env event =>
    obtain ⟨shared, hEnv, rfl⟩ := Calls.system_next_env hNext
    cases event with
    | fetched turn doc =>
      obtain ⟨-, -, _, -, -, -, -, -, ⟨hKeys, -⟩ | ⟨d, rfl, hParse, -⟩⟩ := fetched_cases hEnv
      · exact .inl hKeys
      · exact .inr ⟨turn, d, rfl, hParse⟩
    | clear =>
      have hClear : env crypto .clear p.shared = some shared := hEnv
      obtain ⟨_, -, rfl⟩ := clear_cases hClear
      exact .inl rfl

theorem Inv.published {s : Shared} (h : Inv crypto config s) {keyId : Str} {entry : Entry}
    (hGet : s.cache.keys.get? keyId = some entry) :
    ∃ time doc epochSeconds e, (time, doc) ∈ s.accepted ∧ time ≤ s.clock ∧
      Published crypto keyId entry time doc epochSeconds e ∧ EntrySound crypto keyId entry ∧
      entry.expiresAt = (e + 2) * epochSeconds * 1000 := by
  rcases h.origin with hEmpty | ⟨time, doc, hMem, hTime, hBefore, hParse⟩
  · rw [hEmpty] at hGet
    cases hGet
  · obtain ⟨epochSeconds, e, hPublished, hExpires⟩ := parse_published hTime hParse hGet
    exact ⟨time, doc, epochSeconds, e, hMem, hBefore, hPublished, parse_sound hParse keyId entry hGet, hExpires⟩

/-- Whatever a `get` returns is exact for a time `t` of the turn in which it returns; an entry has its own key and
is within the epochs its document gave it. Only an accepted document changes the cached map. -/
theorem cached_keys_end_with_their_epoch {p q : Pool Shared Call} {label : Calls.Label Action Event}
    (h : (caches crypto config).system.Reachable p) (hNext : (caches crypto config).system.next p label = some q) :
    (∀ i action keyId a, label = .act i action → q.calls i = .returned keyId a →
      ∃ t, p.shared.clock ≤ t ∧ t ≤ q.shared.clock ∧ AnswerAt p.shared.cache.keys keyId t a ∧
        ∀ entry, a = .entry entry → keyId = (hex (crypto.sha256 entry.publicKey.spki).val).take 32 ∧
          ∃ time doc epochSeconds e, (time, doc) ∈ p.shared.accepted ∧ time ≤ t ∧
            Published crypto keyId entry time doc epochSeconds e ∧ t < (e + 2) * epochSeconds * 1000) ∧
    (q.shared.cache.keys = p.shared.cache.keys ∨ ∃ turn doc, label = .env (.fetched turn (some doc)) ∧
      parse crypto (turn.time 0) doc = some q.shared.cache.keys) := by
  refine ⟨?_, keys_change hNext⟩
  rintro i action keyId a rfl hReturned
  obtain ⟨shared, l, hAct, rfl⟩ := Calls.system_next_act hNext
  obtain ⟨turn, hClock, hLast, -, -, hAnswer⟩ := act_cases (i := i) hAct
  obtain rfl := hAnswer keyId a (by simpa using hReturned)
  obtain ⟨t, hFrom, hTo, hAt⟩ := answer_at turn p.shared.cache keyId
  refine ⟨t, hClock.trans hFrom, hTo.trans hLast.ge, hAt, fun entry hEntry => ?_⟩
  obtain ⟨hGet, hLive⟩ := (hAt.entry entry).mp hEntry
  obtain ⟨time, doc, epochSeconds, e, hMem, hBefore, hPublished, hSound, hExpires⟩ := (caches_invariant h).published hGet
  refine ⟨?_, time, doc, epochSeconds, e, hMem, (hBefore.trans hClock).trans hFrom, hPublished, hExpires ▸ hLive⟩
  rw [hSound.keyId, hSound.fingerprint]
  rfl

end

def testCrypto : Crypto where
  createPublicKey spki := some ⟨.rsa, 2048, 2 ^ 2047 + 1, 65537, spki⟩
  sha256 bytes := first32 bytes

def testConfig : Config := defaults

def testKeyId : Str := (hex (testCrypto.sha256 [1]).val).take 32

/-- One key, listed for the epochs 1 and 0. -/
def testDocument : Value :=
  .obj [(str "schemaVersion", int 1), (str "suite", .str suite), (str "epochSeconds", int 60), (str "epoch", int 1),
    (str "keys", .arr ([1, 0].map fun e => .obj [(str "epoch", int e), (str "publicKeySpki", .str (base64Encode [1])),
      (str "keyId", .str testKeyId)]))]

/-- Two calls share a fetch that fails, a third one backs off, a fourth one brings the key in. -/
def contact : List (Calls.Label Action Event) :=
  [.act 0 (.get testKeyId (.still 60000)), .act 1 (.get (str "other") (.still 60001)),
   .env (.fetched (.still 60002) none), .env .clear, .act 0 (.resume (.still 60003)),
   .act 2 (.get testKeyId (.still 64999)), .act 2 (.resume (.still 64999)), .act 3 (.get testKeyId (.still 65000)),
   .env (.fetched (.still 65010) (some testDocument)), .env .clear]

theorem issuer_contact_is_bounded_contact :
    ((caches testCrypto testConfig).system.after contact).shared.cache.fetches = [60000, 65000] ∧
    ((caches testCrypto testConfig).system.after contact).shared.inFlight.length ≤ 1 :=
  ⟨by decide +kernel, (issuer_contact_is_bounded (System.reachable_after _ contact)).1⟩

def lastAnswer : Calls.Label Action Event := .act 3 (.resume (.still 179999))

/-- A millisecond before the end of epoch 2, the key is still given out. -/
theorem cached_keys_end_with_their_epoch_contact :
    ∃ q entry, (caches testCrypto testConfig).system.next ((caches testCrypto testConfig).system.after contact)
        lastAnswer = some q ∧ q.calls 3 = .returned testKeyId (.entry entry) ∧
      ∃ t epochSeconds e : Int, 65010 ≤ t ∧ t < (e + 2) * epochSeconds * 1000 := by
  have hCall : (((caches testCrypto testConfig).system.next ((caches testCrypto testConfig).system.after contact)
      lastAnswer).map fun q => match q.calls 3 with
        | .returned keyId (.entry entry) => some (keyId, entry)
        | _ => none) = some (some (testKeyId,
          ⟨⟨.rsa, 2048, 2 ^ 2047 + 1, 65537, [1]⟩, hex (testCrypto.sha256 [1]).val, 180000⟩)) := by
    decide +kernel
  obtain ⟨q, hNext, hq⟩ := Option.map_eq_some_iff.mp hCall
  split at hq
  · rename_i hReturned
    cases hq
    refine ⟨q, _, hNext, hReturned, ?_⟩
    obtain ⟨t, hFrom, -, -, hEntry⟩ :=
      (cached_keys_end_with_their_epoch (System.reachable_after _ contact) hNext).1 3 _ _ _ rfl hReturned
    obtain ⟨-, -, -, epochSeconds, e, -, -, -, hLive⟩ := hEntry _ rfl
    have hClock : ((caches testCrypto testConfig).system.after contact).shared.clock = 65010 := by decide +kernel
    exact ⟨t, epochSeconds, e, hClock ▸ hFrom, hLive⟩
  · cases hq

end Columbia.Relay.KeyCacheRuns
