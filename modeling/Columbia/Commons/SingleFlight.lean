import Columbia.Commons.Cache

/-! # How far the commons cache is single-flight

Two mechanisms guard the upstream: the in-flight map for cold reads and the flag of an entry for its
refresh. They do not know of each other, so a key is fetched once at a time as long as no cold read meets
a pending refresh of its key.
-/
namespace Columbia.Commons.SingleFlight
open Columbia.Js Columbia.Lib Resources Cache
set_option autoImplicit false

def fetchesOf (s : Server) (k : Str) : List Fetch := s.fetches.filter (·.key = k)

def window (cfg : Config) : Int := max cfg.ttlMs (cfg.ttlMs + cfg.swrMs)

/-- A request for a key with a pending refresh finds an entry that is not rotten yet. -/
def Calm (cfg : Config) (s : Server) : Event → Prop
  | .request q now => ∀ r, resource? q = some r → (∃ f ∈ s.fetches, f.key = key r ∧ f.refreshes ≠ none) →
      ∃ e, s.cache.get? (key r) = some e ∧ now - e.fetchedAt < window cfg
  | .settle _ _ _ => True

structure Inv (cfg : Config) (s : Server) : Prop where
  keys : (s.fetches.map (·.key)).Nodup
  numbers : (s.fetches.map (·.number)).Nodup
  known : ∀ f ∈ s.fetches, f.number < s.numbers
  leads : ∀ f ∈ s.fetches, f.refreshes = none → (s.inflight.get? f.key).isSome
  led : ∀ k number, s.inflight.get? k = some number → ∃ f ∈ s.fetches, f.key = k ∧ f.refreshes = none
  rotten : ∀ f ∈ s.fetches, f.refreshes = none → ∀ e, s.cache.get? f.key = some e →
    window cfg ≤ s.clock - e.fetchedAt
  flagged : ∀ f ∈ s.fetches, f.refreshes ≠ none → ∀ e, s.cache.get? f.key = some e → e.revalidating = true

variable {cfg : Config}

theorem get?_of_cacheSet {cache : OrderedMap Str Entry} {k j : Str} {val e : Entry} (hjk : j ≠ k)
    (h : (cacheSet cfg cache k val).get? j = some e) : cache.get? j = some e := by
  have hSet := OrderedMap.get?_of_evict h
  rw [OrderedMap.get?_set_of_ne _ _ hjk, OrderedMap.get?_delete, if_neg hjk] at hSet
  exact hSet

theorem resetRevalidating_of_ne (cache : OrderedMap Str Entry) {k j : Str} (hjk : j ≠ k) (number : Nat) :
    (resetRevalidating cache k number).get? j = cache.get? j := by
  unfold resetRevalidating
  split
  · split
    · exact OrderedMap.get?_set_of_ne _ _ hjk
    · rfl
  · rfl

theorem fetchesOf_length_le_one {s : Server} (h : (s.fetches.map (·.key)).Nodup) (k : Str) :
    (fetchesOf s k).length ≤ 1 := by
  have hCount := List.nodup_iff_count_le_one.mp h k
  rw [List.count, List.countP_map, List.countP_eq_length_filter] at hCount
  refine le_of_eq_of_le (congrArg List.length ?_) hCount
  exact List.filter_congr fun f _ => Bool.eq_iff_iff.mpr (by simp)

theorem settle_cache {s : Server} {f : Fetch} {up : Fetched} {now : Int} {j : Str} {e : Entry} (hj : j ≠ f.key)
    (h : (settle cfg s f up now).cache.get? j = some e) : s.cache.get? j = some e := by
  have hStored : (stored cfg s f up now).get? j = some e := by
    simp only [settle] at h
    split at h
    · rwa [resetRevalidating_of_ne _ hj] at h
    · exact h
  unfold stored at hStored
  split at hStored
  · exact get?_of_cacheSet hj hStored
  · exact hStored

theorem Inv.settle {s : Server} {f : Fetch} (h : Inv cfg s) (hf : f ∈ s.fetches) (up : Fetched) {now : Int}
    (hClock : s.clock ≤ now) : Inv cfg (settle cfg s f up now) := by
  have hRest : ∀ g ∈ (Cache.settle cfg s f up now).fetches, g ∈ s.fetches ∧ g.key ≠ f.key := by
    intro g hg
    obtain ⟨hg, hNe⟩ := List.mem_filter.mp hg
    refine ⟨hg, fun hKey => ?_⟩
    rw [List.inj_on_of_nodup_map h.keys hg hf hKey] at hNe
    simp at hNe
  have hInflight : ∀ k, k ≠ f.key → (Cache.settle cfg s f up now).inflight.get? k = s.inflight.get? k := by
    intro k hk
    simp only [Cache.settle]
    split
    · rfl
    · exact (OrderedMap.get?_delete _ _ _).trans (if_neg hk)
  have hGone : (Cache.settle cfg s f up now).inflight.get? f.key = none := by
    simp only [Cache.settle]
    split
    · rename_i hRefreshes
      cases hGet : s.inflight.get? f.key with
      | none => rfl
      | some n =>
        obtain ⟨g, hg, hKey, hLeads⟩ := h.led f.key n hGet
        rw [← List.inj_on_of_nodup_map h.keys hg hf hKey, hLeads] at hRefreshes
        cases hRefreshes
    · exact (OrderedMap.get?_delete _ _ _).trans (if_pos rfl)
  refine ⟨?_, ?_, fun g hg => ?_, fun g hg hLeads => ?_, fun k number hk => ?_, fun g hg hLeads e he => ?_,
    fun g hg hRefreshes e he => ?_⟩
  · exact (List.filter_sublist.map _).nodup h.keys
  · exact (List.filter_sublist.map _).nodup h.numbers
  · exact Nat.lt_succ_of_lt (h.known g (hRest g hg).1)
  · rw [hInflight _ (hRest g hg).2]
    exact h.leads g (hRest g hg).1 hLeads
  · rcases eq_or_ne k f.key with rfl | hne
    · rw [hGone] at hk
      cases hk
    · rw [hInflight k hne] at hk
      obtain ⟨g, hg, hKey, hLeads⟩ := h.led k number hk
      refine ⟨g, List.mem_filter.mpr ⟨hg, ?_⟩, hKey, hLeads⟩
      simp only [ne_eq, decide_eq_true_eq]
      intro hNumber
      rw [List.inj_on_of_nodup_map h.numbers hg hf hNumber] at hKey
      exact hne hKey.symm
  · have hOld := h.rotten g (hRest g hg).1 hLeads e (settle_cache (hRest g hg).2 he)
    simp only [Cache.settle]
    omega
  · exact h.flagged g (hRest g hg).1 hRefreshes e (settle_cache (hRest g hg).2 he)

theorem Inv.start {s : Server} (h : Inv cfg s) {f : Fetch} {cache : OrderedMap Str Entry}
    {inflight : OrderedMap Str Nat} (hNew : ∀ g ∈ s.fetches, g.key ≠ f.key) (hNumber : f.number = s.numbers)
    (hCache : ∀ k, k ≠ f.key → cache.get? k = s.cache.get? k)
    (hInflight : ∀ k, inflight.get? k = if k = f.key ∧ f.refreshes = none then some f.number else s.inflight.get? k)
    (hRotten : f.refreshes = none → ∀ e, cache.get? f.key = some e → window cfg ≤ s.clock - e.fetchedAt)
    (hFlagged : f.refreshes ≠ none → ∀ e, cache.get? f.key = some e → e.revalidating = true) :
    Inv cfg { s with
      cache := cache, inflight := inflight, fetches := s.fetches ++ [f], numbers := s.numbers + 1 } := by
  have hMem : ∀ {g}, g ∈ s.fetches ++ [f] → g ∈ s.fetches ∨ g = f := fun hg => by
    simpa using hg
  refine ⟨?_, ?_, fun g hg => ?_, fun g hg hLeads => ?_, fun k number hk => ?_, fun g hg hLeads e he => ?_,
    fun g hg hRefreshes e he => ?_⟩
  · rw [List.map_append, List.nodup_append]
    refine ⟨h.keys, List.nodup_singleton _, fun a ha b hb hab => ?_⟩
    obtain ⟨g, hg, rfl⟩ := List.mem_map.mp ha
    exact hNew g hg (hab.trans (List.mem_singleton.mp hb))
  · rw [List.map_append, List.nodup_append]
    refine ⟨h.numbers, List.nodup_singleton _, fun a ha b hb hab => ?_⟩
    obtain ⟨g, hg, rfl⟩ := List.mem_map.mp ha
    have hKnown := h.known g hg
    have hLast : b = f.number := List.mem_singleton.mp hb
    omega
  · simp only
    rcases hMem hg with hg | rfl
    · exact Nat.lt_succ_of_lt (h.known g hg)
    · omega
  · simp only [hInflight]
    rcases hMem hg with hg | rfl
    · rw [if_neg fun hEq => hNew g hg hEq.1]
      exact h.leads g hg hLeads
    · rw [if_pos ⟨rfl, hLeads⟩]
      rfl
  · simp only [hInflight] at hk
    split at hk
    · rename_i hOwn
      exact ⟨f, List.mem_append_right _ List.mem_cons_self, hOwn.1.symm, hOwn.2⟩
    · obtain ⟨g, hg, hRest⟩ := h.led k number hk
      exact ⟨g, List.mem_append_left _ hg, hRest⟩
  · rcases hMem hg with hg | rfl
    · exact h.rotten g hg hLeads e ((hCache _ (hNew g hg)).symm.trans he)
    · exact hRotten hLeads e he
  · rcases hMem hg with hg | rfl
    · exact h.flagged g hg hRefreshes e ((hCache _ (hNew g hg)).symm.trans he)
    · exact hFlagged hRefreshes e he

theorem Inv.join {s : Server} (h : Inv cfg s) (number : Nat) (r : Resource) :
    Inv cfg { s with fetches := join s.fetches number r } := by
  have hKeys : (Cache.join s.fetches number r).map (·.key) = s.fetches.map (·.key) := map_join (fun _ _ => rfl) _ _ _
  have hNumbers : (Cache.join s.fetches number r).map (·.number) = s.fetches.map (·.number) :=
    map_join (fun _ _ => rfl) _ _ _
  refine ⟨hKeys ▸ h.keys, hNumbers ▸ h.numbers, fun g hg => ?_, fun g hg hLeads => ?_, fun k n hk => ?_,
    fun g hg hLeads e he => ?_, fun g hg hRefreshes e he => ?_⟩
  · obtain ⟨f, hf, hNumber, -, -⟩ := exists_of_mem_join hg
    exact hNumber ▸ h.known f hf
  · obtain ⟨f, hf, -, hKey, hRefreshes⟩ := exists_of_mem_join hg
    rw [hKey]
    exact h.leads f hf (hRefreshes ▸ hLeads)
  · obtain ⟨f, hf, hKey, hLeads⟩ := h.led k n hk
    obtain ⟨g, hg, -, hKey', hRefreshes⟩ := exists_mem_join hf number r
    exact ⟨g, hg, hKey'.trans hKey, hRefreshes.trans hLeads⟩
  · obtain ⟨f, hf, -, hKey, hRefreshes⟩ := exists_of_mem_join hg
    exact h.rotten f hf (hRefreshes ▸ hLeads) e (hKey ▸ he)
  · obtain ⟨f, hf, -, hKey, hRefreshes'⟩ := exists_of_mem_join hg
    exact h.flagged f hf (hRefreshes' ▸ hRefreshes) e (hKey ▸ he)

theorem Inv.served {s : Server} (h : Inv cfg s) (served : List Served) : Inv cfg { s with served := served } :=
  ⟨h.keys, h.numbers, h.known, h.leads, h.led, h.rotten, h.flagged⟩

theorem Inv.later {s : Server} (h : Inv cfg s) {now : Int} (hClock : s.clock ≤ now) (requested : List Resource) :
    Inv cfg { s with clock := now, requested := requested } := by
  refine ⟨h.keys, h.numbers, h.known, h.leads, h.led, fun f hf hLeads e he => ?_, h.flagged⟩
  have hOld := h.rotten f hf hLeads e he
  simp only
  omega

def Cold (cfg : Config) (s : Server) (k : Str) (now : Int) : Prop :=
  ∀ e, s.cache.get? k = some e → window cfg ≤ now - e.fetchedAt

theorem getCached_cases (cfg : Config) (s : Server) (r : Resource) (now : Int) :
    (∃ e state, s.cache.get? (key r) = some e ∧ now - e.fetchedAt < window cfg ∧
      getCached cfg s r now = serveEntry s r state e) ∨
    (∃ e, s.cache.get? (key r) = some e ∧ now - e.fetchedAt < window cfg ∧ e.revalidating = false ∧
      getCached cfg s r now = serveEntry (startRefresh s r e) r .stale e) ∨
    (Cold cfg s (key r) now ∧ getCached cfg s r now = coldRead s r) := by
  cases hGet : s.cache.get? (key r) with
  | none =>
    refine .inr (.inr ⟨fun e he => ?_, by simp only [getCached, hGet]⟩)
    rw [hGet] at he
    cases he
  | some e =>
    by_cases hFresh : now - e.fetchedAt < cfg.ttlMs
    · exact .inl ⟨e, .hit, rfl, by rw [window]; omega, by simp only [getCached, hGet, if_pos hFresh]⟩
    · by_cases hStale : now - e.fetchedAt < cfg.ttlMs + cfg.swrMs
      · cases hFlag : e.revalidating with
        | true =>
          refine .inl ⟨e, .stale, rfl, by rw [window]; omega, ?_⟩
          simp only [getCached, hGet, if_neg hFresh, if_pos hStale, hFlag, if_true]
        | false =>
          refine .inr (.inl ⟨e, rfl, by rw [window]; omega, hFlag, ?_⟩)
          simp [getCached, hGet, hFresh, hStale, hFlag]
      · refine .inr (.inr ⟨fun e' he' => ?_, by simp only [getCached, hGet, if_neg hFresh, if_neg hStale]⟩)
        rw [hGet] at he'
        cases he'
        rw [window]
        omega

theorem Inv.getCached {s : Server} (h : Inv cfg s) (r : Resource)
    (hCalm : (∃ f ∈ s.fetches, f.key = key r ∧ f.refreshes ≠ none) → ¬Cold cfg s (key r) s.clock) :
    Inv cfg (getCached cfg s r s.clock) := by
  rcases getCached_cases cfg s r s.clock with ⟨e, state, -, -, hEq⟩ | ⟨e, hGet, hStale, hFlag, hEq⟩ | ⟨hCold, hEq⟩
  · rw [hEq]
    exact h.served _
  · rw [hEq]
    refine Inv.served (Inv.start h ?_ rfl ?_ ?_ ?_ ?_) _
    · intro g hg hKey
      cases hRefreshes : g.refreshes with
      | none =>
        have hRotten := h.rotten g hg hRefreshes e (hKey ▸ hGet)
        omega
      | some number =>
        have hSet := h.flagged g hg (by rw [hRefreshes]; nofun) e (hKey ▸ hGet)
        rw [hFlag] at hSet
        cases hSet
    · exact fun k hk => OrderedMap.get?_set_of_ne _ _ hk
    · exact fun k => (if_neg fun hEq => nomatch hEq.2).symm
    · intro hNone
      cases hNone
    · intro _ e' he'
      rw [OrderedMap.get?_set_self] at he'
      cases he'
      rfl
  · rw [hEq, coldRead]
    split
    · exact h.join _ r
    · rename_i hNone
      refine Inv.start h ?_ rfl (fun _ _ => rfl) (fun k => ?_) (fun _ => hCold) (fun hNot => absurd rfl hNot)
      · intro g hg hKey
        cases hRefreshes : g.refreshes with
        | none =>
          have hLeads := h.leads g hg hRefreshes
          rw [hKey, hNone] at hLeads
          cases hLeads
        | some number => exact hCalm ⟨g, hg, hKey, by rw [hRefreshes]; nofun⟩ hCold
      · rw [OrderedMap.get?_set]
        simp

theorem calm_iff {s : Server} {q : Query} {now : Int} :
    Calm cfg s (.request q now) ↔ ∀ r, resource? q = some r →
      (∃ f ∈ s.fetches, f.key = key r ∧ f.refreshes ≠ none) → ¬Cold cfg s (key r) now := by
  refine forall₃_congr fun r _ _ => ?_
  constructor
  · rintro ⟨e, he, hYoung⟩ hCold
    have hOld := hCold e he
    omega
  · intro hWarm
    by_contra hNone
    refine hWarm fun e he => ?_
    by_contra hYoung
    exact hNone ⟨e, he, by omega⟩

theorem coldRead_doubles {s : Server} (h : Inv cfg s) {r : Resource}
    (hPending : ∃ f ∈ s.fetches, f.key = key r ∧ f.refreshes ≠ none) : 2 ≤ (fetchesOf (coldRead s r) (key r)).length := by
  obtain ⟨f, hf, hKey, hRefreshes⟩ := hPending
  have hNone : s.inflight.get? (key r) = none := by
    cases hGet : s.inflight.get? (key r) with
    | none => rfl
    | some number =>
      obtain ⟨g, hg, hKey', hLeads⟩ := h.led _ _ hGet
      rw [List.inj_on_of_nodup_map h.keys hg hf (hKey'.trans hKey.symm)] at hLeads
      exact absurd hLeads hRefreshes
  have hPos : 0 < (s.fetches.filter (·.key = key r)).length :=
    List.length_pos_of_mem (List.mem_filter.mpr ⟨hf, by simpa using hKey⟩)
  simp only [coldRead, hNone, fetchesOf, List.filter_append, List.length_append]
  simp
  omega

theorem Inv.next {shape : Resource → Bytes → Shaped} {s t : Server} {event : Event}
    (h : Inv cfg s) (hCalm : Calm cfg s event) (hNext : next cfg shape s event = some t) : Inv cfg t := by
  cases event with
  | request q now =>
    obtain ⟨hClock, ⟨r, hr, rfl⟩ | ⟨-, rfl⟩⟩ := next_request_eq_some hNext
    · exact (h.later hClock _).getCached r (calm_iff.mp hCalm r hr)
    · exact h.later hClock _
  | settle number up now =>
    obtain ⟨hClock, f, hf, -, rfl⟩ := next_settle_eq_some hNext
    exact h.settle hf _ hClock

theorem inv_empty (clock : Int) : Inv cfg (.empty clock) :=
  ⟨List.nodup_nil, List.nodup_nil, nofun, nofun, nofun, nofun, nofun⟩

theorem commons_invariant {shape : Resource → Bytes → Shaped} {clock : Int} {s : Server}
    (h : (commons cfg shape clock).ReachedBy (Calm cfg) s) : Inv cfg s :=
  System.ReachedBy.invariant (Inv cfg) (inv_empty clock) (fun _ _ _ hInv hOk hNext => hInv.next hOk hNext) h

/-- One fetch per key at every moment, as long as no cold read meets a pending refresh of its key; the first
step that breaks this breaks it by such a read. -/
theorem commons_single_flight {shape : Resource → Bytes → Shaped} {clock : Int} {s : Server}
    (h : (commons cfg shape clock).ReachedBy (Calm cfg) s) :
    (∀ k, (fetchesOf s k).length ≤ 1) ∧
    ∀ event t, next cfg shape s event = some t → ((∀ k, (fetchesOf t k).length ≤ 1) ↔ Calm cfg s event) := by
  have hInv := commons_invariant h
  refine ⟨fetchesOf_length_le_one hInv.keys, fun event t hNext => ⟨fun hOne => ?_, fun hCalm => ?_⟩⟩
  · cases event with
    | settle number up now => trivial
    | request q now =>
      refine calm_iff.mpr fun r hr hPending hCold => ?_
      simp only [next, hr] at hNext
      split at hNext <;> cases hNext
      rename_i hClock
      rcases getCached_cases cfg { s with clock := now, requested := s.requested ++ [r] } r now with
        ⟨e, state, hGet, hYoung, -⟩ | ⟨e, hGet, hYoung, -, -⟩ | ⟨-, hEq⟩
      · have hOld := hCold e hGet
        omega
      · have hOld := hCold e hGet
        omega
      · have hTwo := coldRead_doubles (hInv.later hClock (s.requested ++ [r])) hPending
        rw [← hEq] at hTwo
        have hLe := hOne (key r)
        omega
  · exact fetchesOf_length_le_one (hInv.next hCalm hNext).keys

def testConfig : Config := ⟨60000, 300000, 5000, 5000000⟩

def testShape (_ : Resource) (_ : Bytes) : Shaped := .threw

def news : Query := .commons (some (str "news")) none

def staleReads : List Event :=
  [.request news 0, .settle 0 (.response 200 none [[1]] false) 0, .request news 60000, .request news 60001]

theorem resource?_news {r : Resource} (h : resource? news = some r) : r = .feed (str "news") (str "latest") :=
  Option.some.inj (h.symm.trans (by decide))

theorem commons_single_flight_staleReads :
    (fetchesOf ((commons testConfig testShape 0).after staleReads) (str "news/latest")).length = 1 ∧
    ∀ k, (fetchesOf ((commons testConfig testShape 0).after staleReads) k).length ≤ 1 := by
  have hReached : (commons testConfig testShape 0).ReachedBy (Calm testConfig)
      ((commons testConfig testShape 0).after staleReads) := by
    refine (((System.ReachedBy.start.follow (.request news 0) ?_ rfl).follow
      (.settle 0 (.response 200 none [[1]] false) 0) trivial rfl).follow (.request news 60000) ?_ rfl).follow
      (.request news 60001) ?_ rfl
    · rintro r - ⟨f, hf, -⟩
      cases hf
    · rintro r - ⟨f, hf, -⟩
      cases hf
    · intro r hr _
      rw [resource?_news hr]
      exact ⟨_, rfl, by decide⟩
  exact ⟨by decide, (commons_single_flight hReached).1⟩

/-- Late in its stale window an entry is refreshed. The refresh takes five seconds, and the entry turns rotten before the
next request. -/
def rottenRefresh : List Event :=
  [.request news 0, .settle 0 (.response 200 none [[1]] false) 0, .request news 355000, .request news 360000]

theorem commons_single_flight_rotten :
    ¬∀ s, (commons testConfig testShape 0).Reachable s → ∀ k, (fetchesOf s k).length ≤ 1 := by
  intro hAlways
  have hOne := hAlways _ (System.reachable_after _ rottenRefresh) (str "news/latest")
  exact absurd hOne (by decide)

end Columbia.Commons.SingleFlight
