import Columbia.Commons.SingleFlight

/-! # What the commons cache holds

Every entry comes from a complete response that was settled in the run, and a fetch that fails leaves no trace but
a lowered flag. An entry's flag is up exactly while the refresh that was started from it is pending: entries have
numbers of their own, so a refresh that outlives its entry does not touch the one that took its place.
-/
namespace Columbia.Commons.Contents
open Columbia.Js Columbia.Lib Resources Cache
open SingleFlight (window getCached_cases get?_of_cacheSet resetRevalidating_of_ne)
set_option autoImplicit false

/-! ## What a fetch yields -/

section
variable (cfg : Config) (shape : Resource → Bytes → Shaped)

/-- A response with status 200 that was read to its end within the limit. Without a chunk nothing is compared. -/
def Complete (up : Upstream) (text : Bytes) : Prop :=
  ∃ contentType chunks, up = .response 200 contentType chunks false ∧ text = chunks.flatten ∧
    (chunks = [] ∨ (text.length : Int) ≤ cfg.maxBodyBytes)

/-- The bytes themselves; for the imgur routes, what they are normalised to. -/
def Yields (r : Resource) (up : Upstream) (body : Bytes) : Prop :=
  ∃ text, Complete cfg up text ∧
    match r with
    | .feed _ _ | .thread _ _ => body = text
    | .album _ | .image _ => shape r text = .out body ∧ (body.length : Int) ≤ cfg.maxBodyBytes

end

def Succeeded (up : Fetched) : Prop := up.status = 200 ∧ up.error = false

instance (up : Fetched) : Decidable (Succeeded up) := inferInstanceAs (Decidable (_ ∧ _))

variable {cfg : Config} {shape : Resource → Bytes → Shaped}

theorem Complete.length_le {up : Upstream} {text : Bytes} (h : Complete cfg up text) (hProper : cfg.Proper) :
    (text.length : Int) ≤ cfg.maxBodyBytes := by
  obtain ⟨-, chunks, -, rfl, rfl | hLength⟩ := h
  · exact hProper.maxBodyBytes
  · exact hLength

theorem Yields.length_le {r : Resource} {up : Upstream} {body : Bytes} (h : Yields cfg shape r up body)
    (hProper : cfg.Proper) : (body.length : Int) ≤ cfg.maxBodyBytes := by
  obtain ⟨text, hComplete, hBody⟩ := h
  cases r with
  | feed | thread => exact hBody ▸ hComplete.length_le hProper
  | album | image => exact hBody.2

theorem readBoundedBody_eq_some {limit : Int} {broken : Bool} {read body : Bytes} {chunks : List Bytes} :
    readBoundedBody limit broken read chunks = some body ↔
      broken = false ∧ body = read ++ chunks.flatten ∧ (chunks = [] ∨ (body.length : Int) ≤ limit) := by
  induction chunks generalizing read with
  | nil =>
    cases broken with
    | false => simp [readBoundedBody, eq_comm]
    | true => simp [readBoundedBody]
  | cons chunk chunks ih =>
    rw [readBoundedBody]
    split
    · rename_i hOver
      refine ⟨nofun, ?_⟩
      rintro ⟨-, rfl, hEmpty | hLength⟩
      · cases hEmpty
      · simp only [List.flatten_cons, List.length_append] at hLength
        omega
    · rename_i hFits
      rw [ih, List.flatten_cons, List.append_assoc]
      apply and_congr_right
      intro _
      apply and_congr_right
      rintro rfl
      constructor
      · rintro (rfl | hLength)
        · simpa using hFits
        · exact .inr hLength
      · rintro (hEmpty | hLength)
        · cases hEmpty
        · exact .inr hLength

theorem not_complete_failed {text : Bytes} : ¬Complete cfg .failed text := nofun

theorem complete_response {status : Nat} {contentType : Option Str} {chunks : List Bytes} {broken : Bool} {text : Bytes} :
    Complete cfg (.response status contentType chunks broken) text ↔
      status = 200 ∧ readBoundedBody cfg.maxBodyBytes broken [] chunks = some text := by
  rw [readBoundedBody_eq_some, List.nil_append]
  constructor
  · rintro ⟨_, _, hEq, hText, hLength⟩
    cases hEq
    exact ⟨rfl, rfl, hText, hLength⟩
  · rintro ⟨rfl, rfl, hText, hLength⟩
    exact ⟨contentType, chunks, rfl, hText, hLength⟩

theorem fetchUpstream_succeeded {up : Upstream} {body : Bytes} :
    Succeeded (fetchUpstream cfg up) ∧ (fetchUpstream cfg up).body = body ↔ Complete cfg up body := by
  cases up with
  | failed => simp [fetchUpstream, Succeeded, not_complete_failed]
  | response status contentType chunks broken =>
    by_cases hStatus : status = 200
    · cases hRead : readBoundedBody cfg.maxBodyBytes broken [] chunks with
      | none => simp [fetchUpstream, Succeeded, complete_response, hStatus, hRead]
      | some text => simp [fetchUpstream, Succeeded, complete_response, hStatus, hRead]
    · simp [fetchUpstream, Succeeded, complete_response, hStatus]

theorem fetchImgurJson_succeeded {normalise : Bytes → Shaped} {up : Upstream} {body : Bytes} :
    Succeeded (fetchImgurJson cfg normalise up) ∧ (fetchImgurJson cfg normalise up).body = body ↔
      ∃ text, Complete cfg up text ∧ normalise text = .out body ∧ (body.length : Int) ≤ cfg.maxBodyBytes := by
  cases up with
  | failed => simp [fetchImgurJson, Succeeded, not_complete_failed]
  | response status contentType chunks broken =>
    by_cases hStatus : status = 200
    · cases hRead : readBoundedBody cfg.maxBodyBytes broken [] chunks with
      | none => simp [fetchImgurJson, Succeeded, complete_response, hStatus, hRead]
      | some text =>
        cases hShape : normalise text with
        | threw => simp [fetchImgurJson, Succeeded, complete_response, hStatus, hRead, hShape]
        | unusable => simp [fetchImgurJson, Succeeded, complete_response, hStatus, hRead, hShape]
        | out shaped =>
          simp only [fetchImgurJson, complete_response, hStatus, hRead, hShape, ne_eq, not_true_eq_false, if_false,
            true_and, Option.some.injEq, exists_eq_left', Shaped.out.injEq]
          split
          · rename_i hOver
            constructor
            · rintro ⟨⟨-, hError⟩, -⟩
              cases hError
            · rintro ⟨rfl, hLength⟩
              omega
          · rename_i hFits
            constructor
            · rintro ⟨-, rfl⟩
              exact ⟨rfl, not_lt.mp hFits⟩
            · rintro ⟨rfl, -⟩
              exact ⟨⟨rfl, rfl⟩, rfl⟩
    · simp [fetchImgurJson, Succeeded, complete_response, hStatus]

theorem fetcher_succeeded {r : Resource} {up : Upstream} {body : Bytes} :
    Succeeded (fetcher cfg shape r up) ∧ (fetcher cfg shape r up).body = body ↔ Yields cfg shape r up body := by
  cases r with
  | feed id sort =>
    rw [Yields]
    simp only [exists_eq_right']
    exact fetchUpstream_succeeded
  | thread id sort =>
    rw [Yields]
    simp only [exists_eq_right']
    exact fetchUpstream_succeeded
  | album id => exact fetchImgurJson_succeeded
  | image id => exact fetchImgurJson_succeeded

/-! ## What a settled fetch does to the entries -/

/-- Everything but the flag. -/
def content (e : Entry) : Entry := { e with revalidating := false }

/-- What the `finally` of a fetch does to an entry under its key. -/
def resetBy (f : Fetch) (e : Entry) : Entry := if f.refreshes = some e.number then content e else e

theorem content_resetBy (f : Fetch) (e : Entry) : content (resetBy f e) = content e := by
  unfold resetBy
  split <;> rfl

theorem number_resetBy (f : Fetch) (e : Entry) : (resetBy f e).number = e.number := by
  unfold resetBy
  split <;> rfl

theorem resetRevalidating_self (cache : OrderedMap Str Entry) (k : Str) (number : Nat) :
    (resetRevalidating cache k number).get? k =
      (cache.get? k).map fun e => if e.number = number then content e else e := by
  unfold resetRevalidating
  cases hGet : cache.get? k with
  | none => exact hGet
  | some e =>
    simp only [Option.map_some]
    split
    · exact OrderedMap.get?_set_self _ _ _
    · exact hGet

theorem size_resetRevalidating (cache : OrderedMap Str Entry) (k : Str) (number : Nat) :
    (resetRevalidating cache k number).size = cache.size := by
  unfold resetRevalidating
  split
  · rename_i e hGet
    split
    · exact OrderedMap.size_set_of_get? hGet _
    · rfl
  · rfl

theorem settle_cache_eq (s : Server) (f : Fetch) (up : Fetched) (now : Int) (k : Str) :
    (settle cfg s f up now).cache.get? k =
      if k = f.key then ((stored cfg s f up now).get? k).map (resetBy f) else (stored cfg s f up now).get? k := by
  simp only [settle]
  cases hRefreshes : f.refreshes with
  | none =>
    have hSame : resetBy f = id := by
      funext e
      apply if_neg
      rw [hRefreshes]
      exact Option.some_ne_none _ ∘ Eq.symm
    rw [hSame, Option.map_id_fun, id, ite_self]
  | some number =>
    simp only
    split
    · rename_i hKey
      subst hKey
      have hReset : resetBy f = fun e => if e.number = number then content e else e := by
        funext e
        simp only [resetBy, hRefreshes, Option.some.injEq, eq_comm]
      rw [resetRevalidating_self, hReset]
    · rename_i hKey
      exact resetRevalidating_of_ne _ hKey number

theorem size_settle_le {s : Server} (h : s.cache.size ≤ cfg.maxEntries) (f : Fetch) (up : Fetched) (now : Int) :
    (settle cfg s f up now).cache.size ≤ cfg.maxEntries := by
  have hStored : (stored cfg s f up now).size ≤ cfg.maxEntries := by
    unfold stored
    split
    · exact OrderedMap.size_evict_le _ _
    · exact h
  simp only [settle]
  split
  · rw [size_resetRevalidating]
    exact hStored
  · exact hStored

/-- A fetch that fails: the `finally` is all that happens. -/
theorem settle_cache_failed {s : Server} {f : Fetch} {up : Fetched} (hFailed : ¬Succeeded up) (now : Int) (k : Str) :
    (settle cfg s f up now).cache.get? k =
      if k = f.key then (s.cache.get? k).map (resetBy f) else s.cache.get? k := by
  have hStored : stored cfg s f up now = s.cache := if_neg hFailed
  rw [settle_cache_eq, hStored]

/-- A fetch that succeeds: a new entry under its key, and under the other keys some of the old ones. -/
theorem settle_cache_succeeded {s : Server} {f : Fetch} {up : Fetched} (hOk : Succeeded up) {now : Int} {k : Str}
    {e : Entry} (h : (settle cfg s f up now).cache.get? k = some e) :
    k = f.key ∧ e = fetchedEntry s f up now ∨ k ≠ f.key ∧ s.cache.get? k = some e := by
  have hStored : stored cfg s f up now = cacheSet cfg s.cache f.key (fetchedEntry s f up now) := if_pos hOk
  rw [settle_cache_eq, hStored] at h
  split at h
  · rename_i hKey
    subst hKey
    obtain ⟨new, hNew, rfl⟩ := Option.map_eq_some_iff.mp h
    have hSet := OrderedMap.get?_of_evict hNew
    rw [OrderedMap.get?_set_self] at hSet
    cases hSet
    left
    refine ⟨rfl, ?_⟩
    unfold resetBy
    split <;> rfl
  · rename_i hKey
    exact .inr ⟨hKey, get?_of_cacheSet hKey h⟩

/-! ## Entries, fetches and the in-flight map -/

structure Inv (cfg : Config) (s : Server) : Prop where
  size : s.cache.size ≤ cfg.maxEntries
  entryKnown : ∀ k e, s.cache.get? k = some e → e.number < s.numbers
  entryKey : ∀ k e k' e', s.cache.get? k = some e → s.cache.get? k' = some e' → e.number = e'.number → k = k'
  fetchKnown : ∀ f ∈ s.fetches, f.number < s.numbers
  distinct : (s.fetches.map (·.number)).Nodup
  refreshKnown : ∀ f ∈ s.fetches, ∀ n, f.refreshes = some n → n < s.numbers
  refreshKey : ∀ f ∈ s.fetches, ∀ k e, s.cache.get? k = some e → f.refreshes = some e.number → k = f.key
  refreshOne : ∀ f ∈ s.fetches, ∀ g ∈ s.fetches, ∀ n, f.refreshes = some n → g.refreshes = some n → f.number = g.number
  flagged : ∀ k e, s.cache.get? k = some e → (e.revalidating = true ↔ ∃ f ∈ s.fetches, f.refreshes = some e.number)
  led : ∀ k n, s.inflight.get? k = some n → ∃ f ∈ s.fetches, f.number = n ∧ f.key = k ∧ f.refreshes = none

theorem inv_empty (clock : Int) : Inv cfg (.empty clock) :=
  ⟨Nat.zero_le _, nofun, nofun, nofun, List.nodup_nil, nofun, nofun, nofun, nofun, nofun⟩

theorem Inv.frame {s : Server} (h : Inv cfg s) (clock : Int) (requested : List Resource) (served : List Served) :
    Inv cfg { s with clock := clock, requested := requested, served := served } :=
  ⟨h.size, h.entryKnown, h.entryKey, h.fetchKnown, h.distinct, h.refreshKnown, h.refreshKey, h.refreshOne, h.flagged,
    h.led⟩

/-- A new fetch; the entries keep their numbers, and those that are flagged are those with a refresh under way. -/
theorem Inv.start {s : Server} (h : Inv cfg s) {f : Fetch} {cache : OrderedMap Str Entry}
    {inflight : OrderedMap Str Nat} (hNumber : f.number = s.numbers) (hSize : cache.size = s.cache.size)
    (hOld : ∀ k e, cache.get? k = some e → ∃ old, s.cache.get? k = some old ∧ e.number = old.number)
    (hNew : ∀ n, f.refreshes = some n → (∃ e, s.cache.get? f.key = some e ∧ e.number = n) ∧
      ∀ g ∈ s.fetches, g.refreshes ≠ some n)
    (hFlag : ∀ k e, cache.get? k = some e → (e.revalidating = true ↔ ∃ g ∈ s.fetches ++ [f], g.refreshes = some e.number))
    (hLed : ∀ k n, inflight.get? k = some n →
      ∃ g ∈ s.fetches ++ [f], g.number = n ∧ g.key = k ∧ g.refreshes = none) :
    Inv cfg { s with
      cache := cache, inflight := inflight, fetches := s.fetches ++ [f], numbers := s.numbers + 1 } := by
  have hMem : ∀ {g}, g ∈ s.fetches ++ [f] → g ∈ s.fetches ∨ g = f := fun hg => by
    simpa using hg
  refine ⟨hSize ▸ h.size, fun k e he => ?_, fun k e k' e' he he' hEq => ?_, fun g hg => ?_, ?_, fun g hg n hn => ?_,
    fun g hg k e he hn => ?_, fun g hg g' hg' n hn hn' => ?_, hFlag, hLed⟩
  · obtain ⟨old, hGet, hSame⟩ := hOld k e he
    rw [hSame]
    exact Nat.lt_succ_of_lt (h.entryKnown k old hGet)
  · obtain ⟨old, hGet, hSame⟩ := hOld k e he
    obtain ⟨old', hGet', hSame'⟩ := hOld k' e' he'
    exact h.entryKey k old k' old' hGet hGet' (by rw [← hSame, hEq, hSame'])
  · rcases hMem hg with hg | rfl
    · exact Nat.lt_succ_of_lt (h.fetchKnown g hg)
    · exact hNumber ▸ Nat.lt_succ_self _
  · rw [List.map_append, List.nodup_append]
    refine ⟨h.distinct, List.nodup_singleton _, fun a ha b hb hab => ?_⟩
    obtain ⟨g, hg, rfl⟩ := List.mem_map.mp ha
    have hKnown := h.fetchKnown g hg
    have hLast : b = f.number := List.mem_singleton.mp hb
    omega
  · rcases hMem hg with hg | rfl
    · exact Nat.lt_succ_of_lt (h.refreshKnown g hg n hn)
    · obtain ⟨⟨e, hGet, rfl⟩, -⟩ := hNew n hn
      exact Nat.lt_succ_of_lt (h.entryKnown _ e hGet)
  · obtain ⟨old, hGet, hSame⟩ := hOld k e he
    rw [hSame] at hn
    rcases hMem hg with hg | rfl
    · exact h.refreshKey g hg k old hGet hn
    · obtain ⟨⟨entry, hEntry, hEq⟩, -⟩ := hNew _ hn
      exact h.entryKey k old _ entry hGet hEntry hEq.symm
  · rcases hMem hg with hFirst | rfl
    · rcases hMem hg' with hSecond | rfl
      · exact h.refreshOne g hFirst g' hSecond n hn hn'
      · exact absurd hn ((hNew n hn').2 g hFirst)
    · rcases hMem hg' with hSecond | rfl
      · exact absurd hn' ((hNew n hn).2 g' hSecond)
      · rfl

theorem Inv.startRefresh {s : Server} (h : Inv cfg s) {r : Resource} {entry : Entry}
    (hGet : s.cache.get? (key r) = some entry) (hFlag : entry.revalidating = false) :
    Inv cfg (Cache.startRefresh s r entry) := by
  refine h.start rfl (OrderedMap.size_set_of_get? hGet _) (fun k e he => ?_) ?_ (fun k e he => ?_) fun k n hk => ?_
  · rw [OrderedMap.get?_set] at he
    split at he
    · rename_i hKey
      cases he
      exact ⟨entry, hKey ▸ hGet, rfl⟩
    · exact ⟨e, he, rfl⟩
  · rintro n ⟨rfl⟩
    refine ⟨⟨entry, hGet, rfl⟩, fun g hg hRefreshes => ?_⟩
    have hSet := (h.flagged _ _ hGet).mpr ⟨g, hg, hRefreshes⟩
    rw [hFlag] at hSet
    cases hSet
  · rw [OrderedMap.get?_set] at he
    split at he
    · cases he
      exact ⟨fun _ => ⟨_, List.mem_append_right _ List.mem_cons_self, rfl⟩, fun _ => rfl⟩
    · rename_i hKey
      rw [h.flagged k e he]
      constructor
      · rintro ⟨f, hf, hn⟩
        exact ⟨f, List.mem_append_left _ hf, hn⟩
      · rintro ⟨f, hf, hn⟩
        rcases List.mem_append.mp hf with hf | hf
        · exact ⟨f, hf, hn⟩
        · rw [List.mem_singleton.mp hf] at hn
          exact absurd (h.entryKey k e (key r) entry he hGet (Option.some.inj hn).symm) hKey
  · obtain ⟨f, hf, hRest⟩ := h.led k n hk
    exact ⟨f, List.mem_append_left _ hf, hRest⟩

theorem Inv.coldRead {s : Server} (h : Inv cfg s) (r : Resource) : Inv cfg (Cache.coldRead s r) := by
  unfold Cache.coldRead
  split
  · rename_i number hLeader
    have hNumbers : (join s.fetches number r).map (·.number) = s.fetches.map (·.number) :=
      map_join (fun _ _ => rfl) _ _ _
    refine ⟨h.size, h.entryKnown, h.entryKey, fun g hg => ?_, hNumbers ▸ h.distinct, fun g hg n hn => ?_,
      fun g hg k e he hn => ?_, fun f hf g hg n hf' hg' => ?_, fun k e he => ?_, fun k n hk => ?_⟩
    · obtain ⟨f, hf, hNumber, -, -⟩ := exists_of_mem_join hg
      exact hNumber ▸ h.fetchKnown f hf
    · obtain ⟨f, hf, -, -, hRefreshes⟩ := exists_of_mem_join hg
      exact h.refreshKnown f hf n (hRefreshes ▸ hn)
    · obtain ⟨f, hf, -, hKey, hRefreshes⟩ := exists_of_mem_join hg
      rw [hKey]
      exact h.refreshKey f hf k e he (hRefreshes ▸ hn)
    · obtain ⟨f₀, hf₀, hNumber, -, hRefreshes⟩ := exists_of_mem_join hf
      obtain ⟨g₀, hg₀, hNumber', -, hRefreshes'⟩ := exists_of_mem_join hg
      rw [hNumber, hNumber']
      exact h.refreshOne f₀ hf₀ g₀ hg₀ n (hRefreshes ▸ hf') (hRefreshes' ▸ hg')
    · rw [h.flagged k e he]
      constructor
      · rintro ⟨f, hf, hn⟩
        obtain ⟨g, hg, -, -, hRefreshes⟩ := exists_mem_join hf number r
        exact ⟨g, hg, hRefreshes.trans hn⟩
      · rintro ⟨g, hg, hn⟩
        obtain ⟨f, hf, -, -, hRefreshes⟩ := exists_of_mem_join hg
        exact ⟨f, hf, hRefreshes.symm.trans hn⟩
    · obtain ⟨f, hf, hNumber, hKey, hLeads⟩ := h.led k n hk
      obtain ⟨g, hg, hNumber', hKey', hRefreshes⟩ := exists_mem_join hf number r
      exact ⟨g, hg, hNumber'.trans hNumber, hKey'.trans hKey, hRefreshes.trans hLeads⟩
  · refine h.start rfl rfl (fun k e he => ⟨e, he, rfl⟩) nofun (fun k e he => ?_) fun k n hk => ?_
    · rw [h.flagged k e he]
      constructor
      · rintro ⟨f, hf, hn⟩
        exact ⟨f, List.mem_append_left _ hf, hn⟩
      · rintro ⟨f, hf, hn⟩
        rcases List.mem_append.mp hf with hf | hf
        · exact ⟨f, hf, hn⟩
        · rw [List.mem_singleton.mp hf] at hn
          cases hn
    · rw [OrderedMap.get?_set] at hk
      split at hk
      · rename_i hKey
        cases hk
        exact ⟨_, List.mem_append_right _ List.mem_cons_self, rfl, hKey.symm, rfl⟩
      · obtain ⟨f, hf, hRest⟩ := h.led k n hk
        exact ⟨f, List.mem_append_left _ hf, hRest⟩

theorem Inv.getCached {s : Server} (h : Inv cfg s) (r : Resource) (now : Int) :
    Inv cfg (Cache.getCached cfg s r now) := by
  rcases getCached_cases cfg s r now with ⟨e, state, -, -, hEq⟩ | ⟨e, hGet, -, hFlag, hEq⟩ | ⟨-, hEq⟩
  · rw [hEq]
    exact h.frame _ _ _
  · rw [hEq]
    exact (h.startRefresh hGet hFlag).frame _ _ _
  · rw [hEq]
    exact h.coldRead r

/-- The entries after a fetch has settled: the new one, or old ones with their numbers. -/
theorem Inv.settle_entry {s : Server} (h : Inv cfg s) {f : Fetch} (hf : f ∈ s.fetches) {up : Fetched} {now : Int}
    {k : Str} {e : Entry} (he : (settle cfg s f up now).cache.get? k = some e) :
    (Succeeded up ∧ k = f.key ∧ e = fetchedEntry s f up now) ∨
    ∃ old, s.cache.get? k = some old ∧ e = resetBy f old := by
  have hOther : ∀ old, s.cache.get? k = some old → k ≠ f.key → resetBy f old = old :=
    fun old hGet hKey => if_neg fun hn => hKey (h.refreshKey f hf k old hGet hn)
  by_cases hOk : Succeeded up
  · rcases settle_cache_succeeded hOk he with ⟨hKey, rfl⟩ | ⟨hKey, hGet⟩
    · exact .inl ⟨hOk, hKey, rfl⟩
    · exact .inr ⟨e, hGet, (hOther e hGet hKey).symm⟩
  · rw [settle_cache_failed hOk] at he
    split at he
    · obtain ⟨old, hGet, rfl⟩ := Option.map_eq_some_iff.mp he
      exact .inr ⟨old, hGet, rfl⟩
    · rename_i hKey
      exact .inr ⟨e, he, (hOther e he hKey).symm⟩

/-- An entry after a settled fetch is a new one, or has the number of the one before it. -/
theorem Inv.settle_number {s : Server} (h : Inv cfg s) {f : Fetch} (hf : f ∈ s.fetches) {up : Fetched} {now : Int}
    {k : Str} {e : Entry} (he : (Cache.settle cfg s f up now).cache.get? k = some e) :
    (k = f.key ∧ e.number = s.numbers) ∨ ∃ old, s.cache.get? k = some old ∧ e.number = old.number := by
  obtain ⟨-, hKey, rfl⟩ | ⟨old, hGet, rfl⟩ := h.settle_entry hf he
  · exact .inl ⟨hKey, rfl⟩
  · exact .inr ⟨old, hGet, number_resetBy f old⟩

theorem mem_settle_fetches {s : Server} {f g : Fetch} {up : Fetched} {now : Int} :
    g ∈ (Cache.settle cfg s f up now).fetches ↔ g ∈ s.fetches ∧ g.number ≠ f.number := by
  simp [Cache.settle]

/-- The flag of an entry is up while some other fetch refreshes it. -/
theorem Inv.settle_flagged {s : Server} (h : Inv cfg s) {f : Fetch} (hf : f ∈ s.fetches) {up : Fetched} {now : Int}
    {k : Str} {e : Entry} (he : (Cache.settle cfg s f up now).cache.get? k = some e) :
    e.revalidating = true ↔ ∃ g ∈ (Cache.settle cfg s f up now).fetches, g.refreshes = some e.number := by
  obtain ⟨-, -, rfl⟩ | ⟨old, hGet, rfl⟩ := h.settle_entry hf he
  · apply iff_of_false Bool.false_ne_true
    rintro ⟨g, hg, hn⟩
    exact absurd (h.refreshKnown g (mem_settle_fetches.mp hg).1 _ hn) (lt_irrefl _)
  · rw [number_resetBy]
    by_cases hOwn : f.refreshes = some old.number
    · rw [resetBy, if_pos hOwn]
      apply iff_of_false Bool.false_ne_true
      rintro ⟨g, hg, hn⟩
      obtain ⟨hOld, hOther⟩ := mem_settle_fetches.mp hg
      exact absurd (h.refreshOne g hOld f hf _ hn hOwn) hOther
    · rw [resetBy, if_neg hOwn, h.flagged k old hGet]
      constructor
      · rintro ⟨g, hg, hn⟩
        refine ⟨g, mem_settle_fetches.mpr ⟨hg, fun hEq => hOwn ?_⟩, hn⟩
        rw [← List.inj_on_of_nodup_map h.distinct hg hf hEq]
        exact hn
      · rintro ⟨g, hg, hn⟩
        exact ⟨g, (mem_settle_fetches.mp hg).1, hn⟩

theorem Inv.settle_led {s : Server} (h : Inv cfg s) {f : Fetch} (hf : f ∈ s.fetches) {up : Fetched} {now : Int}
    {k : Str} {n : Nat} (hk : (Cache.settle cfg s f up now).inflight.get? k = some n) :
    ∃ g ∈ (Cache.settle cfg s f up now).fetches, g.number = n ∧ g.key = k ∧ g.refreshes = none := by
  have hOld : s.inflight.get? k = some n ∧ (f.refreshes = none → k ≠ f.key) := by
    simp only [Cache.settle] at hk
    split at hk
    · rename_i hSome
      refine ⟨hk, fun hNone => ?_⟩
      rw [hNone] at hSome
      cases hSome
    · rw [OrderedMap.get?_delete] at hk
      split at hk
      · cases hk
      · exact ⟨hk, fun _ => ‹_›⟩
  obtain ⟨g, hg, hNumber, hKey, hLeads⟩ := h.led k n hOld.1
  refine ⟨g, mem_settle_fetches.mpr ⟨hg, fun hEq => ?_⟩, hNumber, hKey, hLeads⟩
  obtain rfl := List.inj_on_of_nodup_map h.distinct hg hf hEq
  exact hOld.2 hLeads hKey.symm

theorem Inv.settle {s : Server} (h : Inv cfg s) {f : Fetch} (hf : f ∈ s.fetches) (up : Fetched) (now : Int) :
    Inv cfg (Cache.settle cfg s f up now) := by
  constructor
  case size => exact size_settle_le h.size f up now
  case entryKnown =>
    intro k e he
    obtain ⟨-, hEq⟩ | ⟨old, hGet, hEq⟩ := h.settle_number hf he
    · exact hEq ▸ Nat.lt_succ_self _
    · exact hEq ▸ Nat.lt_succ_of_lt (h.entryKnown k old hGet)
  case entryKey =>
    intro k e k' e' he he' hEq
    obtain ⟨rfl, hNew⟩ | ⟨old, hGet, hSame⟩ := h.settle_number hf he <;>
      obtain ⟨rfl, hNew'⟩ | ⟨old', hGet', hSame'⟩ := h.settle_number hf he'
    · rfl
    · have hKnown := h.entryKnown k' old' hGet'
      omega
    · have hKnown := h.entryKnown k old hGet
      omega
    · exact h.entryKey k old k' old' hGet hGet' (by rw [← hSame, hEq, hSame'])
  case fetchKnown => exact fun g hg => Nat.lt_succ_of_lt (h.fetchKnown g (mem_settle_fetches.mp hg).1)
  case distinct => exact (List.filter_sublist.map _).nodup h.distinct
  case refreshKnown => exact fun g hg n hn => Nat.lt_succ_of_lt (h.refreshKnown g (mem_settle_fetches.mp hg).1 n hn)
  case refreshKey =>
    intro g hg k e he hn
    obtain ⟨-, hNew⟩ | ⟨old, hGet, hSame⟩ := h.settle_number hf he
    · have hKnown := h.refreshKnown g (mem_settle_fetches.mp hg).1 _ hn
      omega
    · exact h.refreshKey g (mem_settle_fetches.mp hg).1 k old hGet (hSame ▸ hn)
  case refreshOne =>
    intro g hg g' hg' n hn hn'
    exact h.refreshOne g (mem_settle_fetches.mp hg).1 g' (mem_settle_fetches.mp hg').1 n hn hn'
  case flagged => exact fun k e he => h.settle_flagged hf he
  case led => exact fun k n hk => h.settle_led hf hk

theorem Inv.next {s t : Server} {event : Event} (h : Inv cfg s) (hNext : next cfg shape s event = some t) :
    Inv cfg t := by
  cases event with
  | request q now =>
    obtain ⟨-, ⟨r, -, rfl⟩ | ⟨-, rfl⟩⟩ := next_request_eq_some hNext
    · exact (h.frame now (s.requested ++ [r]) s.served).getCached r now
    · exact h.frame now s.requested s.served
  | settle number up now =>
    obtain ⟨-, f, hf, -, rfl⟩ := next_settle_eq_some hNext
    exact h.settle hf _ now

/-! ## Where the bytes come from -/

/-- The run has settled a fetch, at the time the entry shows, that yields the entry's body. -/
def Settled (cfg : Config) (shape : Resource → Bytes → Shaped) (labels : List Event) (e : Entry) : Prop :=
  ∃ number up, .settle number up e.fetchedAt ∈ labels ∧ Yields cfg shape e.source up e.body

theorem Settled.of_content {labels : List Event} {e old : Entry} (h : Settled cfg shape labels old)
    (hSame : content e = content old) (label : Event) : Settled cfg shape (labels ++ [label]) e := by
  obtain ⟨number, up, hMem, hYields⟩ := h
  have hTime : (content e).fetchedAt = (content old).fetchedAt := by rw [hSame]
  have hSource : (content e).source = (content old).source := by rw [hSame]
  have hBody : (content e).body = (content old).body := by rw [hSame]
  simp only [content] at hTime hSource hBody
  refine ⟨number, up, ?_, ?_⟩
  · rw [hTime]
    exact List.mem_append_left _ hMem
  · rw [hSource, hBody]
    exact hYields

theorem coldRead_cache (s : Server) (r : Resource) : (coldRead s r).cache = s.cache := by
  unfold coldRead
  split <;> rfl

theorem getCached_content {s : Server} {r : Resource} {now : Int} {k : Str} {e : Entry}
    (he : (getCached cfg s r now).cache.get? k = some e) : ∃ old, s.cache.get? k = some old ∧ content e = content old := by
  rcases getCached_cases cfg s r now with ⟨_, _, -, -, hEq⟩ | ⟨entry, hGet, -, -, hEq⟩ | ⟨-, hEq⟩
  · rw [hEq] at he
    exact ⟨e, he, rfl⟩
  · rw [hEq] at he
    change (s.cache.set (key r) { entry with revalidating := true }).get? k = some e at he
    rw [OrderedMap.get?_set] at he
    split at he
    · rename_i hKey
      cases he
      exact ⟨entry, hKey ▸ hGet, rfl⟩
    · exact ⟨e, he, rfl⟩
  · rw [hEq, coldRead_cache] at he
    exact ⟨e, he, rfl⟩

theorem run_settled {clock : Int} {labels : List Event} {s : Server}
    (hRun : (commons cfg shape clock).run (commons cfg shape clock).start labels = some s) :
    Inv cfg s ∧ ∀ k e, s.cache.get? k = some e → Settled cfg shape labels e := by
  refine System.run_invariant (fun labels s => Inv cfg s ∧ ∀ k e, s.cache.get? k = some e → Settled cfg shape labels e)
    ⟨inv_empty clock, fun k e he => ?_⟩ (fun labels s label t hInv hNext => ⟨hInv.1.next hNext, fun k e he => ?_⟩) hRun
  · cases he
  change next cfg shape s label = some t at hNext
  cases label with
  | request q now =>
    have hOld : ∃ old, s.cache.get? k = some old ∧ content e = content old := by
      obtain ⟨-, ⟨r, -, rfl⟩ | ⟨-, rfl⟩⟩ := next_request_eq_some hNext
      · obtain ⟨old, hGet, hSame⟩ := getCached_content he
        exact ⟨old, hGet, hSame⟩
      · exact ⟨e, he, rfl⟩
    obtain ⟨old, hGet, hSame⟩ := hOld
    exact (hInv.2 k old hGet).of_content hSame _
  | settle number up now =>
    obtain ⟨-, f, hf, -, rfl⟩ := next_settle_eq_some hNext
    rcases hInv.1.settle_entry hf he with ⟨hOk, -, rfl⟩ | ⟨old, hGet, rfl⟩
    · exact ⟨number, up, List.mem_append_right _ List.mem_cons_self, fetcher_succeeded.mp ⟨hOk, rfl⟩⟩
    · exact (hInv.2 k old hGet).of_content (content_resetBy f old) _

/-! ## What is served -/

/-- The step answers a request from this entry, at this time. -/
def AnswersFrom (s : Server) (event : Event) (x : Served) (e : Entry) (now : Int) : Prop :=
  ∃ q r, event = .request q now ∧ resource? q = some r ∧ s.cache.get? (key r) = some e ∧
    x.resource = r ∧ x.body = some (e.body, headerType r e.contentType) ∧ x.source = e.source

theorem answers_cacheState {f : Fetch} {up : Fetched} {x : Served} (h : x ∈ answers f up) :
    x.cacheState = .miss ∨ x.cacheState = .coalesced := by
  simp only [answers] at h
  split at h
  · cases h
  · rcases List.mem_cons.mp h with rfl | h
    · exact .inl rfl
    · obtain ⟨r, -, rfl⟩ := List.mem_map.mp h
      simp only
      split
      · exact .inr rfl
      · exact .inl rfl

theorem coldRead_served (s : Server) (r : Resource) : (coldRead s r).served = s.served := by
  unfold coldRead
  split <;> rfl

/-- What a step adds to the answers: those of a fetch, or one from an entry that is not too old. -/
theorem next_served {s t : Server} {event : Event} (h : next cfg shape s event = some t) :
    ∃ new, t.served = s.served ++ new ∧ ∀ x ∈ new, x.cacheState = .miss ∨ x.cacheState = .coalesced ∨
      ∃ e now, AnswersFrom s event x e now ∧ now - e.fetchedAt < window cfg := by
  cases event with
  | request q now =>
    obtain ⟨-, ⟨r, hr, rfl⟩ | ⟨-, rfl⟩⟩ := next_request_eq_some h
    · have hAnswer : ∀ (e : Entry) (state : CacheState), s.cache.get? (key r) = some e →
          now - e.fetchedAt < window cfg → ∀ x ∈ [(⟨r, state, some (e.body, headerType r e.contentType), e.source⟩ :
            Served)], x.cacheState = .miss ∨ x.cacheState = .coalesced ∨
            ∃ e' now', AnswersFrom s (.request q now) x e' now' ∧ now' - e'.fetchedAt < window cfg := by
        intro e state hGet hYoung x hx
        rw [List.mem_singleton.mp hx]
        exact .inr (.inr ⟨e, now, ⟨q, r, rfl, hr, hGet, rfl, rfl, rfl⟩, hYoung⟩)
      rcases getCached_cases cfg { s with clock := now, requested := s.requested ++ [r] } r now with
        ⟨e, state, hGet, hYoung, hEq⟩ | ⟨e, hGet, hYoung, -, hEq⟩ | ⟨-, hEq⟩
      · rw [hEq]
        exact ⟨_, rfl, hAnswer e state hGet hYoung⟩
      · rw [hEq]
        exact ⟨_, rfl, hAnswer e .stale hGet hYoung⟩
      · rw [hEq, coldRead_served]
        exact ⟨[], (List.append_nil _).symm, nofun⟩
    · exact ⟨[], (List.append_nil _).symm, nofun⟩
  | settle number up now =>
    obtain ⟨-, f, -, -, rfl⟩ := next_settle_eq_some h
    simp only [settle]
    split
    · exact ⟨[], (List.append_nil _).symm, nofun⟩
    · exact ⟨_, rfl, fun x hx => (answers_cacheState hx).elim .inl fun hState => .inr (.inl hState)⟩

/-! ## The contents over a whole run -/

theorem Inv.next_settle {s : Server} (h : Inv cfg s) {f : Fetch} (hf : f ∈ s.fetches) (up : Upstream) {now : Int}
    (hClock : s.clock ≤ now) :
    Cache.next cfg shape s (.settle f.number up now) =
      some (Cache.settle cfg s f (fetcher cfg shape f.resource up) now) := by
  have hFind : s.fetches.find? (·.number = f.number) = some f := by
    cases hFind : s.fetches.find? (·.number = f.number) with
    | none => simpa using List.find?_eq_none.mp hFind f hf
    | some g =>
      have hNumber : g.number = f.number := by simpa using List.find?_some hFind
      rw [List.inj_on_of_nodup_map h.distinct (List.mem_of_find?_eq_some hFind) hf hNumber]
  simp only [Cache.next, if_pos hClock, hFind, Option.map_some]

theorem Inv.not_inflight {s : Server} (h : Inv cfg s) {number : Nat} (hGone : ∀ f ∈ s.fetches, f.number ≠ number)
    (k : Str) : s.inflight.get? k ≠ some number := by
  intro hk
  obtain ⟨f, hf, hNumber, -⟩ := h.led k number hk
  exact hGone f hf hNumber

/-- The flag is lowered by the end of the refresh that raised it. -/
theorem Inv.settle_unflagged {s : Server} (h : Inv cfg s) {f : Fetch} (hf : f ∈ s.fetches) {n : Nat}
    (hRefreshes : f.refreshes = some n) {up : Fetched} {now : Int} {k : Str} {e : Entry}
    (he : (Cache.settle cfg s f up now).cache.get? k = some e) (hNumber : e.number = n) : e.revalidating = false := by
  subst hNumber
  rw [Bool.eq_false_iff]
  intro hFlag
  obtain ⟨g, hg, hn⟩ := ((h.settle hf up now).flagged k e he).mp hFlag
  obtain ⟨hOld, hOther⟩ : g ∈ s.fetches ∧ g.number ≠ f.number := by simpa [Cache.settle] using hg
  exact hOther (h.refreshOne g hOld f hf _ hn hRefreshes)

/-- In every state of every run: the cache is not larger than its limit; every entry's body was taken from a complete
response with status 200 that was settled when the entry says; a settled fetch is in flight no more, and one that
yields nothing changes nothing but flags; a flag is up only while the refresh of its own entry is pending, whose end
lowers it; and what is answered from an entry is younger than both windows together. -/
theorem commons_cache_contents (hProper : cfg.Proper) {clock : Int} {labels : List Event} {s : Server}
    (hRun : (commons cfg shape clock).run (commons cfg shape clock).start labels = some s) :
    s.cache.size ≤ cfg.maxEntries ∧
    (∀ k e, s.cache.get? k = some e → (e.body.length : Int) ≤ cfg.maxBodyBytes ∧
      ∃ number up, .settle number up e.fetchedAt ∈ labels ∧ Yields cfg shape e.source up e.body) ∧
    (∀ number up now t, next cfg shape s (.settle number up now) = some t →
      (∀ k, t.inflight.get? k ≠ some number) ∧
      ∃ f ∈ s.fetches, f.number = number ∧ ((¬∃ body, Yields cfg shape f.resource up body) →
        ∀ k, (t.cache.get? k).map content = (s.cache.get? k).map content)) ∧
    (∀ k e, s.cache.get? k = some e → e.revalidating = true →
      ∃ f ∈ s.fetches, f.key = k ∧ f.refreshes = some e.number ∧ ∀ up now, s.clock ≤ now →
        ∃ t, next cfg shape s (.settle f.number up now) = some t ∧
          ∀ k' e', t.cache.get? k' = some e' → e'.number = e.number → e'.revalidating = false) ∧
    ∀ event t, next cfg shape s event = some t → ∃ new, t.served = s.served ++ new ∧
      ∀ x ∈ new, x.cacheState = .miss ∨ x.cacheState = .coalesced ∨
        ∃ e now, AnswersFrom s event x e now ∧ now - e.fetchedAt < cfg.ttlMs + cfg.swrMs := by
  obtain ⟨hInv, hSettled⟩ := run_settled hRun
  refine ⟨hInv.size, fun k e he => ?_, fun number up now t hNext => ?_, fun k e he hFlag => ?_,
    fun event t hNext => ?_⟩
  · obtain ⟨number, up, hMem, hYields⟩ := hSettled k e he
    exact ⟨hYields.length_le hProper, number, up, hMem, hYields⟩
  · have hAfter := hInv.next hNext
    obtain ⟨-, f, hf, rfl, rfl⟩ := next_settle_eq_some hNext
    refine ⟨hAfter.not_inflight fun g hg => ?_, f, hf, rfl, fun hNothing k => ?_⟩
    · simpa [settle] using (List.mem_filter.mp hg).2
    · have hFailed : ¬Succeeded (fetcher cfg shape f.resource up) :=
        fun hOk => hNothing ⟨_, fetcher_succeeded.mp ⟨hOk, rfl⟩⟩
      rw [settle_cache_failed hFailed]
      split
      · rw [Option.map_map]
        exact congrArg (Option.map · _) (funext (content_resetBy f))
      · rfl
  · obtain ⟨f, hf, hRefreshes⟩ := (hInv.flagged k e he).mp hFlag
    refine ⟨f, hf, (hInv.refreshKey f hf k e he hRefreshes).symm, hRefreshes, fun up now hClock => ?_⟩
    refine ⟨_, hInv.next_settle hf up hClock, fun k' e' he' hNumber => ?_⟩
    exact hInv.settle_unflagged hf hRefreshes he' hNumber
  · obtain ⟨new, hServed, hNew⟩ := next_served hNext
    have hWindow : window cfg = cfg.ttlMs + cfg.swrMs := max_eq_right (le_add_of_nonneg_right hProper.swrMs)
    exact ⟨new, hServed, hWindow ▸ hNew⟩

def testStale : Server := (commons SingleFlight.testConfig SingleFlight.testShape 0).after SingleFlight.staleReads

/-- A refresh is pending, and then fails. -/
theorem commons_cache_contents_staleReads : ∃ t,
    next SingleFlight.testConfig SingleFlight.testShape testStale (.settle 2 .failed 70000) = some t ∧
    (testStale.cache.get? (str "news/latest")).map (·.revalidating) = some true ∧
    (t.cache.get? (str "news/latest")).map (·.revalidating) = some false ∧
    ∀ k, (t.cache.get? k).map content = (testStale.cache.get? k).map content := by
  have hRun : (commons SingleFlight.testConfig SingleFlight.testShape 0).run
      (commons SingleFlight.testConfig SingleFlight.testShape 0).start SingleFlight.staleReads = some testStale := rfl
  have hNext : next SingleFlight.testConfig SingleFlight.testShape testStale (.settle 2 .failed 70000) = some _ := rfl
  obtain ⟨-, -, hFailed, -⟩ := commons_cache_contents ⟨by decide, by decide⟩ hRun
  obtain ⟨-, f, -, -, hSame⟩ := hFailed _ _ _ _ hNext
  refine ⟨_, hNext, rfl, rfl, hSame ?_⟩
  rintro ⟨body, text, hComplete, -⟩
  exact not_complete_failed hComplete

end Columbia.Commons.Contents
