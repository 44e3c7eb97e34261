import Columbia.Commons.Cache

/-! # Whose bytes the commons cache answers with

Every entry, fetch and answer carries the resource its bytes were fetched for. As long as a run never asks
for the feed `imgur` and for the album named like its sort, that resource is the one that was asked for.
-/
namespace Columbia.Commons.Provenance
open Columbia.Js Columbia.Lib Resources Cache
set_option autoImplicit false

def Apart (s : Server) : Event → Prop
  | .request q _ => ∀ r, resource? q = some r → ∀ r' ∈ s.requested, ¬Collides r r' ∧ ¬Collides r' r
  | .settle _ _ _ => True

def Filed (requested : List Resource) (k : Str) (r : Resource) : Prop := r ∈ requested ∧ key r = k

structure Inv (s : Server) : Prop where
  valid : ∀ r ∈ s.requested, Valid r
  apart : ∀ a ∈ s.requested, ∀ b ∈ s.requested, key a = key b → a = b
  entries : ∀ k e, s.cache.get? k = some e → Filed s.requested k e.source
  fetches : ∀ f ∈ s.fetches, f.number < s.numbers ∧ Filed s.requested f.key f.resource ∧
    ∀ w ∈ f.waiters, Filed s.requested f.key w
  inflight : ∀ k number, s.inflight.get? k = some number → number < s.numbers ∧
    ∀ f ∈ s.fetches, f.number = number → f.key = k
  served : ∀ x ∈ s.served, x.source = x.resource

variable {cfg : Config}

theorem Inv.same {s : Server} (h : Inv s) {k : Str} {a b : Resource} (ha : Filed s.requested k a)
    (hb : Filed s.requested k b) : a = b := h.apart a ha.1 b hb.1 (ha.2.trans hb.2.symm)

theorem filed_append {requested : List Resource} {k : Str} {r r' : Resource} (h : Filed requested k r) :
    Filed (requested ++ [r']) k r := ⟨List.mem_append_left _ h.1, h.2⟩

theorem Inv.ask {s : Server} (h : Inv s) {r : Resource} (hValid : Valid r)
    (hApart : ∀ r' ∈ s.requested, ¬Collides r r' ∧ ¬Collides r' r) (now : Int) :
    Inv { s with clock := now, requested := s.requested ++ [r] } := by
  have hNew : ∀ r' ∈ s.requested, key r = key r' → r = r' := by
    intro r' hr' hKey
    rcases (key_eq_iff hValid (h.valid r' hr')).mp hKey with hEq | hLeft | hRight
    · exact hEq
    · exact absurd hLeft (hApart r' hr').1
    · exact absurd hRight (hApart r' hr').2
  refine ⟨fun a ha => ?_, fun a ha b hb hKey => ?_, fun k e he => filed_append (h.entries k e he),
    fun f hf => ⟨(h.fetches f hf).1, filed_append (h.fetches f hf).2.1,
      fun w hw => filed_append ((h.fetches f hf).2.2 w hw)⟩, h.inflight, h.served⟩
  · rcases List.mem_append.mp ha with ha | ha
    · exact h.valid a ha
    · rw [List.mem_singleton.mp ha]
      exact hValid
  · rcases List.mem_append.mp ha with ha | ha
    · rcases List.mem_append.mp hb with hb | hb
      · exact h.apart a ha b hb hKey
      · rw [List.mem_singleton.mp hb] at hKey ⊢
        exact (hNew a ha hKey.symm).symm
    · rw [List.mem_singleton.mp ha] at hKey ⊢
      rcases List.mem_append.mp hb with hb | hb
      · exact hNew b hb hKey
      · exact (List.mem_singleton.mp hb).symm

theorem Inv.serveEntry {s : Server} (h : Inv s) {r : Resource} {e : Entry} (hSource : e.source = r)
    (state : CacheState) : Inv (serveEntry s r state e) := by
  refine ⟨h.valid, h.apart, h.entries, h.fetches, h.inflight, fun x hx => ?_⟩
  rcases List.mem_append.mp hx with hx | hx
  · exact h.served x hx
  · rw [List.mem_singleton.mp hx]
    exact hSource

theorem Inv.start {s : Server} (h : Inv s) {f : Fetch} {cache : OrderedMap Str Entry} {inflight : OrderedMap Str Nat}
    (hNumber : f.number = s.numbers) (hResource : Filed s.requested f.key f.resource)
    (hWaiters : ∀ w ∈ f.waiters, Filed s.requested f.key w)
    (hCache : ∀ k e, cache.get? k = some e → Filed s.requested k e.source)
    (hInflight : ∀ k number, inflight.get? k = some number → s.inflight.get? k = some number ∨
      k = f.key ∧ number = f.number) :
    Inv { s with cache := cache, inflight := inflight, fetches := s.fetches ++ [f], numbers := s.numbers + 1 } := by
  refine ⟨h.valid, h.apart, hCache, fun g hg => ?_, fun k number hk => ?_, h.served⟩
  · rcases List.mem_append.mp hg with hg | hg
    · exact ⟨Nat.lt_succ_of_lt (h.fetches g hg).1, (h.fetches g hg).2⟩
    · rw [List.mem_singleton.mp hg]
      exact ⟨by simp only; omega, hResource, hWaiters⟩
  · rcases hInflight k number hk with hOld | ⟨rfl, rfl⟩
    · obtain ⟨hLt, hKey⟩ := h.inflight k number hOld
      refine ⟨Nat.lt_succ_of_lt hLt, fun g hg hg' => ?_⟩
      rcases List.mem_append.mp hg with hg | hg
      · exact hKey g hg hg'
      · rw [List.mem_singleton.mp hg] at hg'
        omega
    · refine ⟨by simp only; omega, fun g hg hg' => ?_⟩
      rcases List.mem_append.mp hg with hg | hg
      · have hLt := (h.fetches g hg).1
        omega
      · rw [List.mem_singleton.mp hg]

theorem Inv.coldRead {s : Server} (h : Inv s) {r : Resource} (hr : r ∈ s.requested) : Inv (coldRead s r) := by
  unfold Cache.coldRead
  split
  · rename_i number hNumber
    obtain ⟨-, hKey⟩ := h.inflight _ _ hNumber
    refine ⟨h.valid, h.apart, h.entries, fun g hg => ?_, fun k n hk => ⟨(h.inflight k n hk).1, fun g hg hn => ?_⟩,
      h.served⟩
    · obtain ⟨f, hf, rfl⟩ := List.mem_map.mp hg
      obtain ⟨hLt, hResource, hWaiters⟩ := h.fetches f hf
      split
      · rename_i hJoined
        refine ⟨hLt, hResource, fun w hw => ?_⟩
        rcases List.mem_append.mp hw with hw | hw
        · exact hWaiters w hw
        · rw [List.mem_singleton.mp hw]
          exact ⟨hr, (hKey f hf hJoined).symm⟩
      · exact ⟨hLt, hResource, hWaiters⟩
    · obtain ⟨f, hf, rfl⟩ := List.mem_map.mp hg
      have hOld := (h.inflight k n hk).2 f hf
      split at hn
      · rw [if_pos ‹_›]
        exact hOld hn
      · rw [if_neg ‹_›]
        exact hOld hn
  · refine h.start rfl ⟨hr, rfl⟩ (fun w hw => ?_) h.entries fun k number hk => ?_
    · rw [List.mem_singleton.mp hw]
      exact ⟨hr, rfl⟩
    · rw [OrderedMap.get?_set] at hk
      split at hk
      · cases hk
        exact .inr ⟨‹_›, rfl⟩
      · exact .inl hk

theorem Inv.getCached {s : Server} (h : Inv s) {r : Resource} (hr : r ∈ s.requested) (now : Int) :
    Inv (getCached cfg s r now) := by
  unfold Cache.getCached
  split
  · rename_i e hGet
    have hSource : e.source = r := h.same (h.entries _ e hGet) ⟨hr, rfl⟩
    split
    · exact h.serveEntry hSource _
    split
    · split
      · exact h.serveEntry hSource _
      · refine Inv.serveEntry (h.start rfl ⟨hr, rfl⟩ ?_ (fun k e' he' => ?_) fun k number hk => .inl hk) hSource _
        · intro w hw
          cases hw
        · rw [OrderedMap.get?_set] at he'
          split at he'
          · cases he'
            rw [‹k = key r›]
            exact h.entries _ e hGet
          · exact h.entries k e' he'
    · exact h.coldRead hr
  · exact h.coldRead hr

theorem answers_source {s : Server} (h : Inv s) {f : Fetch} (hf : f ∈ s.fetches) (up : Fetched) :
    ∀ x ∈ answers f up, x.source = x.resource := by
  obtain ⟨-, hResource, hWaiters⟩ := h.fetches f hf
  have hOwn : ∀ w ∈ f.waiters, f.resource = w := fun w hw => h.same hResource (hWaiters w hw)
  intro x hx
  unfold answers at hx
  simp only at hx
  split at hx
  · cases hx
  · rename_i leader followers hList
    rw [hList] at hOwn
    rcases List.mem_cons.mp hx with rfl | hx
    · exact hOwn leader List.mem_cons_self
    · obtain ⟨w, hw, rfl⟩ := List.mem_map.mp hx
      exact hOwn w (List.mem_cons_of_mem _ hw)

theorem Inv.stored {s : Server} (h : Inv s) {f : Fetch} (hf : f ∈ s.fetches) (up : Fetched) (now : Int) (k : Str)
    (e : Entry) (he : (stored cfg s f up now).get? k = some e) : Filed s.requested k e.source := by
  unfold Cache.stored at he
  split at he
  · have hSet := OrderedMap.get?_of_evict he
    rw [OrderedMap.get?_set] at hSet
    split at hSet
    · cases hSet
      rw [‹k = f.key›]
      exact (h.fetches f hf).2.1
    · rename_i hk
      rw [OrderedMap.get?_delete, if_neg hk] at hSet
      exact h.entries k e hSet
  · exact h.entries k e he

theorem Inv.settle {s : Server} (h : Inv s) {f : Fetch} (hf : f ∈ s.fetches) (up : Fetched) (now : Int) :
    Inv (settle cfg s f up now) := by
  refine ⟨h.valid, h.apart, fun k e he => ?_, fun g hg => ?_, fun k number hk => ?_, fun x hx => ?_⟩
  · simp only [Cache.settle] at he
    split at he
    · unfold resetRevalidating at he
      split at he
      · rename_i e' hGet
        split at he
        · rw [OrderedMap.get?_set] at he
          split at he
          · cases he
            rw [‹k = f.key›]
            exact h.stored hf up now _ e' hGet
          · exact h.stored hf up now k e he
        · exact h.stored hf up now k e he
      · exact h.stored hf up now k e he
    · exact h.stored hf up now k e he
  · obtain ⟨hLt, hRest⟩ := h.fetches g (List.mem_filter.mp hg).1
    exact ⟨Nat.lt_succ_of_lt hLt, hRest⟩
  · have hOld : s.inflight.get? k = some number := by
      simp only [Cache.settle] at hk
      split at hk
      · exact hk
      · rw [OrderedMap.get?_delete] at hk
        split at hk
        · cases hk
        · exact hk
    obtain ⟨hLt, hKey⟩ := h.inflight k number hOld
    exact ⟨Nat.lt_succ_of_lt hLt, fun g hg => hKey g (List.mem_filter.mp hg).1⟩
  · simp only [Cache.settle] at hx
    split at hx
    · exact h.served x hx
    · rcases List.mem_append.mp hx with hx | hx
      · exact h.served x hx
      · exact answers_source h hf up x hx

theorem Inv.next {shape : Resource → Bytes → Shaped} {s t : Server} {event : Event} (h : Inv s)
    (hApart : Apart s event) (hNext : next cfg shape s event = some t) : Inv t := by
  cases event with
  | request q now =>
    obtain ⟨-, ⟨r, hr, rfl⟩ | ⟨-, rfl⟩⟩ := next_request_eq_some hNext
    · exact (h.ask (valid_of_resource? hr) (hApart r hr) now).getCached
        (List.mem_append_right _ List.mem_cons_self) now
    · exact ⟨h.valid, h.apart, h.entries, h.fetches, h.inflight, h.served⟩
  | settle number up now =>
    obtain ⟨-, f, hf, -, rfl⟩ := next_settle_eq_some hNext
    exact h.settle hf _ now

theorem inv_empty (clock : Int) : Inv (.empty clock) := ⟨nofun, nofun, nofun, nofun, nofun, nofun⟩

theorem commons_invariant {shape : Resource → Bytes → Shaped} {clock : Int} {s : Server}
    (h : (commons cfg shape clock).ReachedBy Apart s) : Inv s :=
  System.ReachedBy.invariant Inv (inv_empty clock) (fun _ _ _ hInv hOk hNext => hInv.next hOk hNext) h

/-- A run whose requests do not collide answers every request with bytes fetched for it, and keys tell accepted
resources apart unless they collide. -/
theorem commons_serves_own_bytes {shape : Resource → Bytes → Shaped} {clock : Int} {s : Server}
    (h : (commons cfg shape clock).ReachedBy Apart s) :
    (∀ x ∈ s.served, x.body.isSome → x.source = x.resource) ∧
    ∀ a b, Valid a → Valid b → ((key a = key b → a = b) ↔ ¬Collides a b ∧ ¬Collides b a) := by
  refine ⟨fun x hx _ => (commons_invariant h).served x hx, fun a b ha hb => ?_⟩
  rw [key_eq_iff ha hb]
  constructor
  · intro hInj
    constructor
    · intro hLeft
      obtain ⟨s, rfl, rfl⟩ := id hLeft
      cases hInj (.inr (.inl hLeft))
    · intro hRight
      obtain ⟨s, rfl, rfl⟩ := id hRight
      cases hInj (.inr (.inr hRight))
  · rintro ⟨hLeft, hRight⟩ (hEq | h | h)
    · exact hEq
    · exact absurd h hLeft
    · exact absurd h hRight

def testConfig : Config := ⟨60000, 300000, 5000, 5000000⟩

def testShape (_ : Resource) (_ : Bytes) : Shaped := .threw

def feedAndAlbum : List Event :=
  [.request (.commons (some (str "cats")) none) 0, .settle 0 (.response 200 none [[1, 2]] false) 1,
   .request (.imgur (some (str "cats")) none) 2, .request (.commons (some (str "cats")) none) 3]

theorem commons_serves_own_bytes_cats :
    ((commons testConfig testShape 0).after feedAndAlbum).served.map (·.cacheState) = [.miss, .hit] ∧
    ∀ x ∈ ((commons testConfig testShape 0).after feedAndAlbum).served, x.body.isSome → x.source = x.resource := by
  have hReached : (commons testConfig testShape 0).ReachedBy Apart
      ((commons testConfig testShape 0).after feedAndAlbum) := by
    refine (((System.ReachedBy.start.follow (.request (.commons (some (str "cats")) none) 0) ?_ rfl).follow
      (.settle 0 (.response 200 none [[1, 2]] false) 1) trivial rfl).follow
      (.request (.imgur (some (str "cats")) none) 2) ?_ rfl).follow
      (.request (.commons (some (str "cats")) none) 3) ?_ rfl
    · rintro r - r' hr'
      cases hr'
    · intro r hr
      obtain rfl : .album (str "cats") = r := Option.some.inj ((by decide : resource? _ = some _).symm.trans hr)
      decide
    · intro r hr
      obtain rfl : .feed (str "cats") (str "latest") = r :=
        Option.some.inj ((by decide : resource? _ = some _).symm.trans hr)
      decide
  exact ⟨by decide, (commons_serves_own_bytes hReached).1⟩

def feedThenAlbum : List Event :=
  [.request (.commons (some (str "imgur")) (some (str "cats"))) 0, .settle 0 (.response 200 none [[1, 2]] false) 1,
   .request (.imgur (some (str "cats")) none) 2]

theorem commons_serves_feed_as_album :
    ¬∀ s, (commons testConfig testShape 0).Reachable s → ∀ x ∈ s.served, x.body.isSome → x.source = x.resource := by
  intro hAlways
  have hOwn := hAlways _ (System.reachable_after _ feedThenAlbum)
    ⟨.album (str "cats"), .hit, some ([1, 2], json), .feed (str "imgur") (str "cats")⟩ (by decide) rfl
  exact absurd hOwn (by decide)

end Columbia.Commons.Provenance
