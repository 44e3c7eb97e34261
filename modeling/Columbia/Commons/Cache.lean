import Columbia.Commons.Resources
import Columbia.Lib.OrderedMap
import Columbia.Lib.Transition

/-! # The commons cache: lookups, background refreshes, single-flight fetches

A request runs up to its first await in one step, and so does everything that follows a settled upstream
fetch: the promise callbacks of one fetch run before the next request is looked at.
Entries are objects; a refresh remembers the one it was started for by its number.
-/
namespace Columbia.Commons.Cache
open Columbia.Js Columbia.Lib Resources
set_option autoImplicit false

structure Config where
  ttlMs : Int
  swrMs : Int
  maxEntries : Nat
  maxBodyBytes : Int

/-- The stale window is a length of time, and the bound a number of bytes. -/
structure Config.Proper (cfg : Config) : Prop where
  swrMs : 0 ≤ cfg.swrMs
  maxBodyBytes : 0 ≤ cfg.maxBodyBytes

/-- What one upstream fetch comes back with; `broken` is a body that ends in an error. -/
inductive Upstream
  | failed
  | response (status : Nat) (contentType : Option Str) (chunks : List Bytes) (broken : Bool)

structure Fetched where
  status : Nat
  error : Bool
  body : Bytes
  contentType : Str
  deriving DecidableEq

def octetStream : Str := str "application/octet-stream"
def json : Str := str "application/json"

def readBoundedBody (limit : Int) (broken : Bool) : Bytes → List Bytes → Option Bytes
  | read, [] => if broken then none else some read
  | read, chunk :: chunks =>
    if limit < (read.length + chunk.length : Nat) then none else readBoundedBody limit broken (read ++ chunk) chunks

def fetchUpstream (cfg : Config) : Upstream → Fetched
  | .failed => ⟨0, true, [], octetStream⟩
  | .response status contentType chunks broken =>
    if status ≠ 200 then ⟨status, true, [], octetStream⟩
    else
      match readBoundedBody cfg.maxBodyBytes broken [] chunks with
      | some body => ⟨200, false, body, orElse contentType json⟩
      | none => ⟨0, true, [], octetStream⟩

/-- What `JSON.parse`, the route's `shape` and `JSON.stringify` make of a body. -/
inductive Shaped
  | threw
  | unusable
  | out (body : Bytes)

def fetchImgurJson (cfg : Config) (shape : Bytes → Shaped) : Upstream → Fetched
  | .failed => ⟨0, true, [], []⟩
  | .response status _ chunks broken =>
    if status ≠ 200 then ⟨status, true, [], []⟩
    else
      match readBoundedBody cfg.maxBodyBytes broken [] chunks with
      | none => ⟨0, true, [], []⟩
      | some text =>
        match shape text with
        | .threw => ⟨0, true, [], []⟩
        | .unusable => ⟨200, true, [], []⟩
        | .out body => if cfg.maxBodyBytes < body.length then ⟨200, true, [], []⟩ else ⟨200, false, body, json⟩

def allowedContentTypes : List Str :=
  ["application/rss+xml", "application/atom+xml", "application/xml", "text/xml", "application/json"].map str

def safeContentType (raw : Str) : Str :=
  let media := toLowerCase (trim (raw.takeWhile (· ≠ 59)))
  if media ∈ allowedContentTypes then media else octetStream

/-- `shape` is the pair of normalisers of the two imgur routes. -/
def fetcher (cfg : Config) (shape : Resource → Bytes → Shaped) (r : Resource) (up : Upstream) : Fetched :=
  match r with
  | .feed _ _ | .thread _ _ => fetchUpstream cfg up
  | .album _ | .image _ => fetchImgurJson cfg (shape r) up

def storedType : Resource → Fetched → Str
  | .feed _ _, up | .thread _ _, up => safeContentType up.contentType
  | .album _, _ | .image _, _ => json

def headerType : Resource → Str → Str
  | .feed _ _, contentType | .thread _ _, contentType => safeContentType contentType
  | .album _, _ | .image _, _ => json

/-- A cache entry, with its number and the resource whose fetch produced it. -/
structure Entry where
  number : Nat
  source : Resource
  body : Bytes
  contentType : Str
  fetchedAt : Int
  upstreamStatus : Nat
  revalidating : Bool

/-- A fetch under way. `refreshes` is the entry of a background refresh; a leader's fetch has waiters. -/
structure Fetch where
  number : Nat
  key : Str
  resource : Resource
  refreshes : Option Nat
  waiters : List Resource

inductive CacheState
  | hit
  | stale
  | miss
  | coalesced
  deriving DecidableEq

structure Served where
  resource : Resource
  cacheState : CacheState
  body : Option (Bytes × Str)
  source : Resource
  deriving DecidableEq

structure Server where
  cache : OrderedMap Str Entry
  inflight : OrderedMap Str Nat
  fetches : List Fetch
  numbers : Nat
  clock : Int
  requested : List Resource
  served : List Served

def Server.empty (clock : Int) : Server := ⟨.empty, .empty, [], 0, clock, [], []⟩

def cacheSet (cfg : Config) (cache : OrderedMap Str Entry) (key : Str) (val : Entry) : OrderedMap Str Entry :=
  ((cache.delete key).set key val).evict cfg.maxEntries

def serveEntry (s : Server) (r : Resource) (cacheState : CacheState) (entry : Entry) : Server :=
  { s with served := s.served ++ [⟨r, cacheState, some (entry.body, headerType r entry.contentType), entry.source⟩] }

def startRefresh (s : Server) (r : Resource) (entry : Entry) : Server :=
  { s with
    cache := s.cache.set (key r) { entry with revalidating := true }
    fetches := s.fetches ++ [⟨s.numbers, key r, r, some entry.number, []⟩]
    numbers := s.numbers + 1 }

def join (fetches : List Fetch) (number : Nat) (r : Resource) : List Fetch :=
  fetches.map fun f => if f.number = number then { f with waiters := f.waiters ++ [r] } else f

/-- No usable entry: follow the leader of this key or become it. -/
def coldRead (s : Server) (r : Resource) : Server :=
  match s.inflight.get? (key r) with
  | some number => { s with fetches := join s.fetches number r }
  | none => { s with
      fetches := s.fetches ++ [⟨s.numbers, key r, r, none, [r]⟩]
      inflight := s.inflight.set (key r) s.numbers
      numbers := s.numbers + 1 }

def getCached (cfg : Config) (s : Server) (r : Resource) (now : Int) : Server :=
  match s.cache.get? (key r) with
  | some entry =>
    if now - entry.fetchedAt < cfg.ttlMs then serveEntry s r .hit entry
    else if now - entry.fetchedAt < cfg.ttlMs + cfg.swrMs then
      serveEntry (if entry.revalidating then s else startRefresh s r entry) r .stale entry
    else coldRead s r
  | none => coldRead s r

/-- The rejoined requests of a settled leader fetch: the leader first, then those that coalesced onto it. -/
def answers (f : Fetch) (up : Fetched) : List Served :=
  let body := fun r => if up.status = 200 ∧ up.error = false then some (up.body, headerType r (storedType r up)) else none
  match f.waiters with
  | [] => []
  | leader :: followers => ⟨leader, .miss, body leader, f.resource⟩ ::
      followers.map fun r => ⟨r, if (body r).isSome then .coalesced else .miss, body r, f.resource⟩

def fetchedEntry (s : Server) (f : Fetch) (up : Fetched) (now : Int) : Entry :=
  ⟨s.numbers, f.resource, up.body, storedType f.resource up, now, up.status, false⟩

/-- The `finally` of a refresh; an entry that was replaced or evicted is not looked at again. -/
def resetRevalidating (cache : OrderedMap Str Entry) (key : Str) (number : Nat) : OrderedMap Str Entry :=
  match cache.get? key with
  | some entry => if entry.number = number then cache.set key { entry with revalidating := false } else cache
  | none => cache

def stored (cfg : Config) (s : Server) (f : Fetch) (up : Fetched) (now : Int) : OrderedMap Str Entry :=
  if up.status = 200 ∧ up.error = false then cacheSet cfg s.cache f.key (fetchedEntry s f up now) else s.cache

def settle (cfg : Config) (s : Server) (f : Fetch) (up : Fetched) (now : Int) : Server where
  cache :=
    match f.refreshes with
    | some number => resetRevalidating (stored cfg s f up now) f.key number
    | none => stored cfg s f up now
  inflight := if f.refreshes.isSome then s.inflight else s.inflight.delete f.key
  fetches := s.fetches.filter (·.number ≠ f.number)
  numbers := s.numbers + 1
  clock := now
  requested := s.requested
  served := if f.refreshes.isSome then s.served else s.served ++ answers f up

inductive Event
  | request (q : Query) (now : Int)
  | settle (number : Nat) (up : Upstream) (now : Int)

/-- The clock never runs back. -/
def next (cfg : Config) (shape : Resource → Bytes → Shaped) (s : Server) : Event → Option Server
  | .request q now =>
    if s.clock ≤ now then
      match resource? q with
      | some r => some (getCached cfg { s with clock := now, requested := s.requested ++ [r] } r now)
      | none => some { s with clock := now }
    else none
  | .settle number up now =>
    if s.clock ≤ now then
      (s.fetches.find? (·.number = number)).map fun f => settle cfg s f (fetcher cfg shape f.resource up) now
    else none

def commons (cfg : Config) (shape : Resource → Bytes → Shaped) (clock : Int) : System Server Event :=
  ⟨.empty clock, next cfg shape⟩

/-! ## What a step can do -/

section
variable {cfg : Config} {shape : Resource → Bytes → Shaped} {s t : Server}

theorem next_settle_eq_some {number : Nat} {up : Upstream} {now : Int}
    (h : next cfg shape s (.settle number up now) = some t) :
    s.clock ≤ now ∧ ∃ f ∈ s.fetches, f.number = number ∧ t = settle cfg s f (fetcher cfg shape f.resource up) now := by
  simp only [next] at h
  split at h
  · rename_i hClock
    obtain ⟨f, hFind, rfl⟩ := Option.map_eq_some_iff.mp h
    exact ⟨hClock, f, List.mem_of_find?_eq_some hFind, by simpa using List.find?_some hFind, rfl⟩
  · cases h

theorem next_request_eq_some {q : Query} {now : Int} (h : next cfg shape s (.request q now) = some t) :
    s.clock ≤ now ∧ ((∃ r, resource? q = some r ∧
        t = getCached cfg { s with clock := now, requested := s.requested ++ [r] } r now) ∨
      resource? q = none ∧ t = { s with clock := now }) := by
  simp only [next] at h
  split at h
  · rename_i hClock
    split at h <;> cases h
    · rename_i r hr
      exact ⟨hClock, .inl ⟨r, hr, rfl⟩⟩
    · rename_i hNone
      exact ⟨hClock, .inr ⟨hNone, rfl⟩⟩
  · cases h

/-- Another waiter changes nothing else of a fetch. -/
theorem exists_of_mem_join {fetches : List Fetch} {number : Nat} {r : Resource} {g : Fetch}
    (h : g ∈ join fetches number r) :
    ∃ f ∈ fetches, g.number = f.number ∧ g.key = f.key ∧ g.refreshes = f.refreshes := by
  obtain ⟨f, hf, rfl⟩ := List.mem_map.mp h
  refine ⟨f, hf, ?_⟩
  split <;> exact ⟨rfl, rfl, rfl⟩

theorem exists_mem_join {fetches : List Fetch} {f : Fetch} (h : f ∈ fetches) (number : Nat) (r : Resource) :
    ∃ g ∈ join fetches number r, g.number = f.number ∧ g.key = f.key ∧ g.refreshes = f.refreshes := by
  refine ⟨_, List.mem_map_of_mem h, ?_⟩
  split <;> exact ⟨rfl, rfl, rfl⟩

theorem map_join {α : Type} {part : Fetch → α} (hPart : ∀ f waiters, part { f with waiters := waiters } = part f)
    (fetches : List Fetch) (number : Nat) (r : Resource) : (join fetches number r).map part = fetches.map part := by
  rw [join, List.map_map]
  apply List.map_congr_left
  intro f _
  simp only [Function.comp]
  split
  · exact hPart f _
  · rfl

end

end Columbia.Commons.Cache
