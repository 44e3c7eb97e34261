import Columbia.Js.Value
import Columbia.Lib.FixedWindow
import Columbia.Lib.OrderedMap
import Mathlib.Data.Finset.Card

/-! # The relay's limit for each client: `rateLimited`

`rateBuckets` is a `Map`. A bucket whose window is over is set again under its key, which keeps its place; the first
key goes when there are too many. As long as the bucket of a key stays, the calls under that key see a counter with
fixed windows.
-/
namespace Columbia.Relay.RateLimited
open Columbia.Js Columbia.Lib
set_option autoImplicit false

/-- `RATE_LIMIT_RPM`, `RATE_WINDOW_MS` and `RATE_MAX_KEYS`. -/
structure Config where
  rateLimitRpm : Int
  rateWindowMs : Int
  rateMaxKeys : Int

structure Bucket where
  count : Nat
  windowStart : Int
  deriving DecidableEq

/-- `!b || now - b.windowStart >= RATE_WINDOW_MS`. -/
def starts (cfg : Config) (b : Option Bucket) (now : Int) : Bool :=
  match b with
  | none => true
  | some b => cfg.rateWindowMs ≤ now - b.windowStart

def current (cfg : Config) (b : Option Bucket) (now : Int) : Bucket :=
  if starts cfg b now then ⟨0, now⟩ else b.getD ⟨0, now⟩

/-- `b.count += 1`. -/
def bump (b : Bucket) : Bucket := { b with count := b.count + 1 }

/-- The table once the call is counted: `b` is the object in the map. -/
def counted (cfg : Config) (rateBuckets : OrderedMap Str Bucket) (ipBucket : Str) (now : Int) : OrderedMap Str Bucket :=
  rateBuckets.set ipBucket (bump (current cfg (rateBuckets.get? ipBucket) now))

/-- The key that goes, if one has to. -/
def oldest (cfg : Config) (rateBuckets : OrderedMap Str Bucket) : Option Str :=
  if cfg.rateMaxKeys < rateBuckets.size then rateBuckets.keys.head? else none

def rateLimited (cfg : Config) (rateBuckets : OrderedMap Str Bucket) (ipBucket : Str) (now : Int) :
    OrderedMap Str Bucket × Bool :=
  if cfg.rateLimitRpm ≤ 0 then (rateBuckets, false)
  else
    let b := bump (current cfg (rateBuckets.get? ipBucket) now)
    let rateBuckets := rateBuckets.set ipBucket b
    match oldest cfg rateBuckets with
    | none => (rateBuckets, cfg.rateLimitRpm < b.count)
    | some key => (rateBuckets.delete key, cfg.rateLimitRpm < b.count)

/-- A call and what came of it: whether it began a window, its result, and the key whose bucket it evicted. -/
structure Answer where
  key : Str
  now : Int
  starts : Bool
  limited : Bool
  evicted : Option Str
  deriving DecidableEq

def answer (cfg : Config) (rateBuckets : OrderedMap Str Bucket) (key : Str) (now : Int) : Answer :=
  if cfg.rateLimitRpm ≤ 0 then ⟨key, now, false, (rateLimited cfg rateBuckets key now).2, none⟩
  else ⟨key, now, starts cfg (rateBuckets.get? key) now, (rateLimited cfg rateBuckets key now).2,
    oldest cfg (counted cfg rateBuckets key now)⟩

def rateLimitedAll (cfg : Config) (rateBuckets : OrderedMap Str Bucket) :
    List (Str × Int) → List Answer × OrderedMap Str Bucket
  | [] => ([], rateBuckets)
  | (key, now) :: calls =>
    let rest := rateLimitedAll cfg (rateLimited cfg rateBuckets key now).1 calls
    (answer cfg rateBuckets key now :: rest.1, rest.2)

/-! ## The table -/

variable {cfg : Config}

theorem rateLimitedAll_concat (rateBuckets : OrderedMap Str Bucket) (calls : List (Str × Int)) (key : Str) (now : Int) :
    rateLimitedAll cfg rateBuckets (calls ++ [(key, now)]) =
      ((rateLimitedAll cfg rateBuckets calls).1 ++ [answer cfg (rateLimitedAll cfg rateBuckets calls).2 key now],
        (rateLimited cfg (rateLimitedAll cfg rateBuckets calls).2 key now).1) := by
  induction calls generalizing rateBuckets with
  | nil => rfl
  | cons call calls ih => simp only [List.cons_append, rateLimitedAll, ih]

theorem rateLimited_eq (hRpm : 1 ≤ cfg.rateLimitRpm) (rateBuckets : OrderedMap Str Bucket) (key : Str) (now : Int) :
    rateLimited cfg rateBuckets key now =
      (((oldest cfg (counted cfg rateBuckets key now)).map (counted cfg rateBuckets key now).delete).getD
        (counted cfg rateBuckets key now),
        decide (cfg.rateLimitRpm < (bump (current cfg (rateBuckets.get? key) now)).count)) := by
  have hOn : ¬cfg.rateLimitRpm ≤ 0 := by omega
  rw [rateLimited, if_neg hOn]
  cases hOldest : oldest cfg (counted cfg rateBuckets key now) with
  | none =>
    rw [counted] at hOldest
    simp only [hOldest]
    rfl
  | some old =>
    rw [counted] at hOldest
    simp only [hOldest]
    rfl

theorem mem_keys_of_oldest {rateBuckets : OrderedMap Str Bucket} {key : Str}
    (h : oldest cfg rateBuckets = some key) : key ∈ rateBuckets.keys := by
  unfold oldest at h
  split at h
  · exact List.mem_of_head? h
  · cases h

theorem oldest_eq_none {rateBuckets : OrderedMap Str Bucket} (hKeys : 1 ≤ cfg.rateMaxKeys)
    (h : oldest cfg rateBuckets = none) : (rateBuckets.size : Int) ≤ cfg.rateMaxKeys := by
  unfold oldest at h
  split at h
  · rename_i hFull
    rw [List.head?_eq_none_iff] at h
    have hSize : rateBuckets.size = 0 := by
      rw [OrderedMap.size, ← List.length_map (f := Prod.fst)]
      exact List.length_eq_zero_iff.mpr h
    omega
  · omega

/-- A call leaves the other buckets alone, except for the one that it evicts. -/
theorem get?_rateLimited (hRpm : 1 ≤ cfg.rateLimitRpm) {rateBuckets : OrderedMap Str Bucket} {key k : Str} {now : Int}
    (hStays : (answer cfg rateBuckets key now).evicted ≠ some k) :
    (rateLimited cfg rateBuckets key now).1.get? k =
      if k = key then some (bump (current cfg (rateBuckets.get? key) now)) else rateBuckets.get? k := by
  have hOn : ¬cfg.rateLimitRpm ≤ 0 := by omega
  rw [answer, if_neg hOn] at hStays
  rw [rateLimited_eq hRpm]
  cases hOldest : oldest cfg (counted cfg rateBuckets key now) with
  | none => exact OrderedMap.get?_set _ _ _ _
  | some old =>
    have hOther : k ≠ old := fun hEq => hStays (hEq ▸ hOldest)
    change ((counted cfg rateBuckets key now).delete old).get? k = _
    rw [OrderedMap.get?_delete, if_neg hOther]
    exact OrderedMap.get?_set _ _ _ _

theorem size_rateLimited_le (hRpm : 1 ≤ cfg.rateLimitRpm) (hKeys : 1 ≤ cfg.rateMaxKeys)
    {rateBuckets : OrderedMap Str Bucket} (h : (rateBuckets.size : Int) ≤ cfg.rateMaxKeys) (key : Str) (now : Int) :
    ((rateLimited cfg rateBuckets key now).1.size : Int) ≤ cfg.rateMaxKeys := by
  rw [rateLimited_eq hRpm]
  cases hOldest : oldest cfg (counted cfg rateBuckets key now) with
  | none => exact oldest_eq_none hKeys hOldest
  | some old =>
    change (((counted cfg rateBuckets key now).delete old).size : Int) ≤ _
    have hGrows : (counted cfg rateBuckets key now).size ≤ rateBuckets.size + 1 := OrderedMap.size_set_le _ _ _
    have hShrinks := OrderedMap.size_delete_lt (mem_keys_of_oldest hOldest)
    omega

theorem size_rateLimitedAll_le (hRpm : 1 ≤ cfg.rateLimitRpm) (hKeys : 1 ≤ cfg.rateMaxKeys)
    {rateBuckets : OrderedMap Str Bucket} (h : (rateBuckets.size : Int) ≤ cfg.rateMaxKeys) (calls : List (Str × Int)) :
    ((rateLimitedAll cfg rateBuckets calls).2.size : Int) ≤ cfg.rateMaxKeys := by
  induction calls generalizing rateBuckets with
  | nil => exact h
  | cons call calls ih => exact ih (size_rateLimited_le hRpm hKeys h call.1 call.2)

theorem mem_keys_rateLimited {rateBuckets : OrderedMap Str Bucket} {key k : Str} {now : Int}
    (h : k ∈ (rateLimited cfg rateBuckets key now).1.keys) : k = key ∨ k ∈ rateBuckets.keys := by
  unfold rateLimited at h
  split at h
  · exact .inr h
  · dsimp only at h
    split at h
    · exact OrderedMap.mem_keys_set.mp h
    · exact OrderedMap.mem_keys_set.mp (OrderedMap.mem_keys_of_delete h)

/-- As many keys as there is room for: nothing is ever evicted. -/
theorem evicted_of_few_keys {keys : Finset Str} (hFew : (keys.card : Int) ≤ cfg.rateMaxKeys)
    {rateBuckets : OrderedMap Str Bucket} (hTable : ∀ k ∈ rateBuckets.keys, k ∈ keys) {calls : List (Str × Int)}
    (hCalls : ∀ call ∈ calls, call.1 ∈ keys) :
    ∀ a ∈ (rateLimitedAll cfg rateBuckets calls).1, a.evicted = none := by
  induction calls generalizing rateBuckets with
  | nil => nofun
  | cons call calls ih =>
    obtain ⟨key, now⟩ := call
    have hKey : key ∈ keys := hCalls (key, now) List.mem_cons_self
    have hNext : ∀ k ∈ (rateLimited cfg rateBuckets key now).1.keys, k ∈ keys := by
      intro k hk
      rcases mem_keys_rateLimited hk with rfl | hOld
      · exact hKey
      · exact hTable k hOld
    intro a ha
    rcases List.mem_cons.mp ha with rfl | hLater
    · unfold answer
      split
      · rfl
      · have hCounted : ∀ k ∈ (counted cfg rateBuckets key now).keys, k ∈ keys := by
          intro k hk
          rcases OrderedMap.mem_keys_set.mp hk with rfl | hOld
          · exact hKey
          · exact hTable k hOld
        have hSize : (counted cfg rateBuckets key now).size ≤ keys.card := by
          have hNodup : (counted cfg rateBuckets key now).keys.Nodup := (counted cfg rateBuckets key now).nodup
          calc (counted cfg rateBuckets key now).size
              = (counted cfg rateBuckets key now).keys.length := (List.length_map _).symm
            _ = (counted cfg rateBuckets key now).keys.toFinset.card := (List.toFinset_card_of_nodup hNodup).symm
            _ ≤ keys.card := Finset.card_le_card fun k hk => hCounted k (List.mem_toFinset.mp hk)
        have hRoom : ¬cfg.rateMaxKeys < (counted cfg rateBuckets key now).size := by omega
        exact if_neg hRoom
    · exact ih hNext (fun c hc => hCalls c (List.mem_cons_of_mem _ hc)) a hLater

/-! ## One key -/

def Config.window (cfg : Config) : FixedWindow Int := ⟨cfg.rateLimitRpm.toNat, cfg.rateWindowMs⟩

def Bucket.window (b : Bucket) : FixedWindow.Window Int := ⟨b.count, b.windowStart⟩

def Answer.hit (a : Answer) : FixedWindow.Hit Int := ⟨a.now, a.starts, !a.limited⟩

theorem starts_eq (b : Option Bucket) (now : Int) :
    starts cfg b now = cfg.window.starts (b.map Bucket.window) now := by
  cases b with
  | none => rfl
  | some b => rfl

theorem window_bump (b : Option Bucket) (now : Int) :
    (bump (current cfg b now)).window = cfg.window.counted (b.map Bucket.window) now := by
  cases b with
  | none => rfl
  | some b =>
    change _ = if cfg.rateWindowMs ≤ now - b.windowStart then _ else _
    by_cases hOver : cfg.rateWindowMs ≤ now - b.windowStart
    · rw [current, starts, decide_eq_true hOver, if_pos rfl, if_pos hOver]
      rfl
    · rw [current, starts, decide_eq_false hOver, if_neg Bool.false_ne_true, if_neg hOver]
      rfl

theorem hit_answer (hRpm : 1 ≤ cfg.rateLimitRpm) (rateBuckets : OrderedMap Str Bucket) (key : Str) (now : Int) :
    (answer cfg rateBuckets key now).hit =
      ⟨now, cfg.window.starts ((rateBuckets.get? key).map Bucket.window) now,
        decide ((cfg.window.counted ((rateBuckets.get? key).map Bucket.window) now).count ≤ cfg.window.limit)⟩ := by
  have hOn : ¬cfg.rateLimitRpm ≤ 0 := by omega
  have hCount : (!decide (cfg.rateLimitRpm < (bump (current cfg (rateBuckets.get? key) now)).count)) =
      decide ((bump (current cfg (rateBuckets.get? key) now)).window.count ≤ cfg.window.limit) := by
    rw [Bool.eq_iff_iff, Bool.not_eq_true', decide_eq_false_iff_not, decide_eq_true_eq]
    change _ ↔ (bump (current cfg (rateBuckets.get? key) now)).count ≤ cfg.rateLimitRpm.toNat
    omega
  rw [answer, if_neg hOn, rateLimited_eq hRpm, Answer.hit, ← window_bump, ← starts_eq, hCount]

theorem key_answer (rateBuckets : OrderedMap Str Bucket) (key : Str) (now : Int) :
    (answer cfg rateBuckets key now).key = key := by
  unfold answer
  split
  · rfl
  · rfl

theorem now_answer (rateBuckets : OrderedMap Str Bucket) (key : Str) (now : Int) :
    (answer cfg rateBuckets key now).now = now := by
  unfold answer
  split
  · rfl
  · rfl

/-- The calls under a key whose bucket stays are hits of one counter. -/
theorem hits_of_key (hRpm : 1 ≤ cfg.rateLimitRpm) {k : Str} {rateBuckets : OrderedMap Str Bucket}
    {calls : List (Str × Int)} (hStays : ∀ a ∈ (rateLimitedAll cfg rateBuckets calls).1, a.evicted ≠ some k) :
    ((rateLimitedAll cfg rateBuckets calls).1.filter (·.key = k)).map Answer.hit =
      cfg.window.hits ((rateBuckets.get? k).map Bucket.window) ((calls.filter (·.1 = k)).map Prod.snd) := by
  induction calls generalizing rateBuckets with
  | nil => rfl
  | cons call calls ih =>
    obtain ⟨key, now⟩ := call
    have hFirst : (answer cfg rateBuckets key now).evicted ≠ some k := hStays _ List.mem_cons_self
    have hLater : ∀ a ∈ (rateLimitedAll cfg (rateLimited cfg rateBuckets key now).1 calls).1, a.evicted ≠ some k :=
      fun a ha => hStays a (List.mem_cons_of_mem _ ha)
    have hRest := ih hLater
    rw [get?_rateLimited hRpm hFirst] at hRest
    by_cases hKey : key = k
    · subst hKey
      have hMine : (answer cfg rateBuckets key now).key = key := key_answer _ _ _
      rw [if_pos rfl, Option.map_some, window_bump] at hRest
      rw [rateLimitedAll, List.filter_cons_of_pos (by simpa using hMine), List.map_cons, hRest, hit_answer hRpm,
        List.filter_cons_of_pos (by simp), List.map_cons, FixedWindow.hits]
    · have hOther : ¬(answer cfg rateBuckets key now).key = k := by
        rw [key_answer]
        exact hKey
      rw [if_neg (Ne.symm hKey)] at hRest
      rw [rateLimitedAll, List.filter_cons_of_neg (by simpa using hOther), hRest,
        List.filter_cons_of_neg (by simpa using hKey)]

theorem countP_hits (log : List Answer) (k : Str) (p : FixedWindow.Hit Int → Bool) :
    ((log.filter (·.key = k)).map Answer.hit).countP p = log.countP fun a => a.key = k ∧ p a.hit = true := by
  rw [List.countP_map, List.countP_filter]
  apply List.countP_congr
  intro a _
  simp [and_comm]

/-- The calls under a key that keeps its bucket, from the empty table on. -/
theorem hits_from_empty (hRpm : 1 ≤ cfg.rateLimitRpm) {k : Str} {calls : List (Str × Int)}
    (hStays : ∀ a ∈ (rateLimitedAll cfg .empty calls).1, a.evicted ≠ some k) :
    cfg.window.hits none ((calls.filter (·.1 = k)).map Prod.snd) =
      ((rateLimitedAll cfg .empty calls).1.filter (·.key = k)).map Answer.hit := (hits_of_key hRpm hStays).symm

theorem passed_between_starts (hRpm : 1 ≤ cfg.rateLimitRpm) {k : Str} {calls : List (Str × Int)}
    (hStays : ∀ a ∈ (rateLimitedAll cfg .empty calls).1, a.evicted ≠ some k) {before mid after : List Answer}
    {first : Answer} (hLog : (rateLimitedAll cfg .empty calls).1 = before ++ first :: (mid ++ after))
    (hFirst : first.key = k) (hStarts : first.starts = true) (hNone : ∀ a ∈ mid, a.key = k → a.starts = false) :
    ((first :: mid).countP fun a => a.key = k ∧ a.limited = false) ≤ cfg.window.limit := by
  have hHits := hits_from_empty hRpm hStays
  rw [hLog, List.filter_append, List.filter_cons_of_pos (by simpa using hFirst), List.filter_append, List.map_append,
    List.map_cons, List.map_append] at hHits
  have hMid : ∀ h ∈ (mid.filter (·.key = k)).map Answer.hit, h.starts = false := by
    intro h hMem
    obtain ⟨a, ha, rfl⟩ := List.mem_map.mp hMem
    obtain ⟨haMid, haKey⟩ := List.mem_filter.mp ha
    exact hNone a haMid (by simpa using haKey)
  calc ((first :: mid).countP fun a => a.key = k ∧ a.limited = false)
      = (((first :: mid).filter (·.key = k)).map Answer.hit).countP (·.admitted) := by
        rw [countP_hits]
        simp [Answer.hit]
    _ = (first.hit :: (mid.filter (·.key = k)).map Answer.hit).countP (·.admitted) := by
        rw [List.filter_cons_of_pos (by simpa using hFirst), List.map_cons]
    _ ≤ cfg.window.limit := FixedWindow.admitted_between_starts hHits hStarts hMid

theorem passed_in_interval (hRpm : 1 ≤ cfg.rateLimitRpm) (hWindow : 1 ≤ cfg.rateWindowMs) {k : Str}
    {calls : List (Str × Int)} (hTimes : (calls.map Prod.snd).IsChain (· ≤ ·))
    (hStays : ∀ a ∈ (rateLimitedAll cfg .empty calls).1, a.evicted ≠ some k) (t : Int) :
    ((rateLimitedAll cfg .empty calls).1.countP fun a =>
      a.key = k ∧ a.limited = false ∧ t ≤ a.now ∧ a.now < t + cfg.rateWindowMs) ≤ 2 * cfg.window.limit := by
  have hSorted : ((calls.filter (·.1 = k)).map Prod.snd).Pairwise (· ≤ ·) :=
    (List.isChain_iff_pairwise.mp hTimes).sublist (List.filter_sublist.map Prod.snd)
  have hWidth : 0 < cfg.window.width := Int.lt_of_add_one_le hWindow
  calc _ = cfg.window.admittedFrom t (((rateLimitedAll cfg .empty calls).1.filter (·.key = k)).map Answer.hit) := by
        rw [FixedWindow.admittedFrom, countP_hits]
        simp [Answer.hit, Config.window]
    _ = cfg.window.admittedFrom t (cfg.window.hits none ((calls.filter (·.1 = k)).map Prod.snd)) := by
        rw [hits_from_empty hRpm hStays]
    _ ≤ 2 * cfg.window.limit := FixedWindow.admittedFrom_le hWidth t hSorted

/-- The table stays within its size. A key that keeps its bucket is let through no more often than its limit in one
window and twice its limit in any time as long as a window; keys keep their buckets when there are few enough of them. -/
theorem rateLimited_window_bounds (hRpm : 1 ≤ cfg.rateLimitRpm) (hWindow : 1 ≤ cfg.rateWindowMs)
    (hKeys : 1 ≤ cfg.rateMaxKeys) {calls : List (Str × Int)} (hTimes : (calls.map Prod.snd).IsChain (· ≤ ·))
    {log : List Answer} {rateBuckets : OrderedMap Str Bucket}
    (hRun : rateLimitedAll cfg .empty calls = (log, rateBuckets)) :
    (rateBuckets.size : Int) ≤ cfg.rateMaxKeys ∧
    (∀ k, (∀ a ∈ log, a.evicted ≠ some k) →
      (∀ before first mid after, log = before ++ first :: (mid ++ after) → first.key = k → first.starts = true →
        (∀ a ∈ mid, a.key = k → a.starts = false) →
        (((first :: mid).countP fun a => a.key = k ∧ a.limited = false : Nat) : Int) ≤ cfg.rateLimitRpm) ∧
      ∀ t : Int, ((log.countP fun a => a.key = k ∧ a.limited = false ∧ t ≤ a.now ∧ a.now < t + cfg.rateWindowMs : Nat) :
        Int) ≤ 2 * cfg.rateLimitRpm) ∧
    (((calls.map Prod.fst).toFinset.card : Int) ≤ cfg.rateMaxKeys → ∀ a ∈ log, a.evicted = none) := by
  obtain rfl : (rateLimitedAll cfg .empty calls).1 = log := congrArg Prod.fst hRun
  obtain rfl : (rateLimitedAll cfg .empty calls).2 = rateBuckets := congrArg Prod.snd hRun
  have hLimit : (cfg.window.limit : Int) = cfg.rateLimitRpm := Int.toNat_of_nonneg (by omega)
  have hEmpty : ((.empty : OrderedMap Str Bucket).size : Int) ≤ cfg.rateMaxKeys := by
    change ((0 : Nat) : Int) ≤ _
    omega
  refine ⟨size_rateLimitedAll_le hRpm hKeys hEmpty calls, fun k hStays => ⟨?_, fun t => ?_⟩, fun hFew => ?_⟩
  · intro before first mid after hLog hFirst hStarts hNone
    have hBound := passed_between_starts hRpm hStays hLog hFirst hStarts hNone
    omega
  · have hBound := passed_in_interval hRpm hWindow hTimes hStays t
    omega
  · apply evicted_of_few_keys hFew
    · nofun
    · intro call hCall
      exact List.mem_toFinset.mpr (List.mem_map_of_mem hCall)

def testConfig : Config := ⟨2, 60, 2⟩

/-- Calls around the end of a window, and one of another client. -/
def straddling : List (Str × Int) :=
  [(str "a", 0), (str "b", 50), (str "a", 59), (str "a", 60), (str "a", 61), (str "a", 62)]

theorem rateLimited_window_bounds_straddling :
    (rateLimitedAll testConfig .empty straddling).1.map (·.limited) = [false, false, false, false, false, true] ∧
    (((rateLimitedAll testConfig .empty straddling).1.countP fun a =>
      a.key = str "a" ∧ a.limited = false ∧ 5 ≤ a.now ∧ a.now < 5 + testConfig.rateWindowMs : Nat) : Int) ≤
        2 * testConfig.rateLimitRpm := by
  have hRun : rateLimitedAll testConfig .empty straddling = (_, _) := rfl
  have hTimes : (straddling.map Prod.snd).IsChain (· ≤ ·) := by decide
  obtain ⟨-, hLimits, hKept⟩ := rateLimited_window_bounds (by decide) (by decide) (by decide) hTimes hRun
  have hAll := hKept (by decide)
  refine ⟨by decide, (hLimits (str "a") ?_).2 5⟩
  intro a ha
  rw [hAll a ha]
  nofun

end Columbia.Relay.RateLimited
