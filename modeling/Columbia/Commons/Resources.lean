import Columbia.Js.Value

/-! # What the commons cache serves, and the keys it files it under

The four kinds of resource share one cache and one in-flight map. A query is what the handler reads from
the search parameters; only validated queries reach the cache.
-/
namespace Columbia.Commons.Resources
open Columbia.Js
set_option autoImplicit false

inductive Resource
  | feed (id sort : Str)
  | thread (id sort : Str)
  | album (id : Str)
  | image (id : Str)
  deriving DecidableEq

inductive Query
  | commons (id sort : Option Str)
  | comments (id sort : Option Str)
  | imgur (id image : Option Str)

/-- `SORT_RE` and `IMGUR_ID_RE`. -/
def validSort (s : Str) : Bool := s ≠ [] ∧ s.all lower
def validImgurId (s : Str) : Bool := 1 ≤ s.length ∧ s.length ≤ 15 ∧ s.all alphanumeric

/-- `searchParams.get(name) || fallback`. -/
def orElse (param : Option Str) (fallback : Str) : Str :=
  match param with
  | some s => if s = [] then fallback else s
  | none => fallback

def feedQuery (make : Str → Str → Resource) (id sort : Option Str) : Option Resource :=
  let id := (orElse id []).filter word
  let sort := toLowerCase (orElse sort (str "latest"))
  if id ≠ [] ∧ validSort sort then some (make id sort) else none

/-- The validation of the three routes; `none` is answered with 400. -/
def resource? : Query → Option Resource
  | .commons id sort => feedQuery .feed id sort
  | .comments id sort => feedQuery .thread id sort
  | .imgur id image =>
    let id := trim (orElse id [])
    let image := trim (orElse image [])
    if (id ≠ [] ∧ image = [] ∧ validImgurId id) ∨ (image ≠ [] ∧ id = [] ∧ validImgurId image) then
      some (if id ≠ [] then .album id else .image image)
    else none

/-- `getCachedFeed` and the `imgur` route build their keys from these two parts and a slash. -/
def scope : Resource → Str
  | .feed id _ => id
  | .thread id _ => str "comments:" ++ id
  | .album _ => str "imgur"
  | .image _ => str "imgur-image"

def name : Resource → Str
  | .feed _ sort | .thread _ sort => sort
  | .album id | .image id => id

def key (r : Resource) : Str := scope r ++ str "/" ++ name r

structure Valid (r : Resource) : Prop where
  feed : ∀ id sort, r = .feed id sort ∨ r = .thread id sort → id.all word = true ∧ validSort sort = true
  imgur : ∀ id, r = .album id ∨ r = .image id → validImgurId id = true

/-- A feed called `imgur` and the album whose id is the feed's sort. -/
def Collides (a b : Resource) : Prop := ∃ s, a = .feed (str "imgur") s ∧ b = .album s

instance (a b : Resource) : Decidable (Collides a b) :=
  match a, b with
  | .feed id sort, .album s =>
    decidable_of_iff (id = str "imgur" ∧ sort = s) ⟨fun h => ⟨s, by rw [h.1, h.2], rfl⟩, by
      rintro ⟨t, hFeed, hAlbum⟩
      cases hFeed
      cases hAlbum
      exact ⟨rfl, rfl⟩⟩
  | .thread _ _, _ | .album _, _ | .image _, _ => isFalse nofun
  | .feed _ _, .feed _ _ | .feed _ _, .thread _ _ | .feed _ _, .image _ => isFalse nofun

theorem valid_of_resource? {q : Query} {r : Resource} (h : resource? q = some r) : Valid r := by
  have hFeed : ∀ {make : Str → Str → Resource} {id sort : Option Str}, feedQuery make id sort = some r →
      ∃ id sort, r = make id sort ∧ id.all word = true ∧ validSort sort = true := by
    intro make id sort hQuery
    unfold feedQuery at hQuery
    simp only at hQuery
    split at hQuery
    · rename_i hValid
      cases hQuery
      refine ⟨_, _, rfl, ?_, hValid.2⟩
      exact List.all_eq_true.mpr fun c hc => (List.mem_filter.mp hc).2
    · cases hQuery
  cases q with
  | commons id sort =>
    obtain ⟨id, sort, rfl, hId, hSort⟩ := hFeed h
    constructor
    · rintro id' sort' (hEq | hEq) <;> cases hEq
      exact ⟨hId, hSort⟩
    · rintro id' (hEq | hEq) <;> cases hEq
  | comments id sort =>
    obtain ⟨id, sort, rfl, hId, hSort⟩ := hFeed h
    constructor
    · rintro id' sort' (hEq | hEq) <;> cases hEq
      exact ⟨hId, hSort⟩
    · rintro id' (hEq | hEq) <;> cases hEq
  | imgur id image =>
    simp only [resource?] at h
    split at h
    · rename_i hValid
      cases h
      constructor
      · rintro id' sort' (hEq | hEq) <;> split at hEq <;> cases hEq
      · rintro id' (hEq | hEq) <;> split at hEq <;> cases hEq
        · rename_i hId
          rcases hValid with ⟨-, -, hOk⟩ | ⟨-, hNil, -⟩
          · exact hOk
          · exact absurd hNil hId
        · rename_i hId
          rcases hValid with ⟨hNe, -, -⟩ | ⟨-, -, hOk⟩
          · exact absurd hNe hId
          · exact hOk
    · cases h

theorem split_at_slash {a b c d : Str} {x : UInt16} (ha : x ∉ a) (hc : x ∉ c) (h : a ++ x :: b = c ++ x :: d) :
    a = c ∧ b = d := by
  induction a generalizing c with
  | nil =>
    cases c with
    | nil => exact ⟨rfl, (List.cons.inj h).2⟩
    | cons y c =>
      have hx : x = y := (List.cons.inj h).1
      exact absurd (hx ▸ List.mem_cons_self) hc
  | cons y a ih =>
    cases c with
    | nil =>
      have hx : y = x := (List.cons.inj h).1
      exact absurd (hx ▸ List.mem_cons_self) ha
    | cons z c =>
      obtain ⟨hyz, hRest⟩ := List.cons.inj h
      obtain ⟨hac, hbd⟩ := ih (fun hx => ha (List.mem_cons_of_mem _ hx)) (fun hx => hc (List.mem_cons_of_mem _ hx)) hRest
      exact ⟨by rw [hyz, hac], hbd⟩

theorem not_mem_of_all_word {s : Str} (h : s.all word = true) {x : UInt16} (hx : word x = false) : x ∉ s := by
  intro hMem
  have hWord := List.all_eq_true.mp h x hMem
  rw [hx] at hWord
  cases hWord

theorem scope_no_slash {r : Resource} (h : Valid r) : 47 ∉ scope r := by
  cases r with
  | feed id sort => exact not_mem_of_all_word (h.feed id sort (.inl rfl)).1 (by decide)
  | thread id sort =>
    intro hMem
    rcases List.mem_append.mp hMem with hMem | hMem
    · exact absurd hMem (by decide)
    · exact not_mem_of_all_word (h.feed id sort (.inr rfl)).1 (by decide) hMem
  | album id => exact show 47 ∉ str "imgur" by decide
  | image id => exact show 47 ∉ str "imgur-image" by decide

theorem key_eq_iff_parts {a b : Resource} (ha : Valid a) (hb : Valid b) :
    key a = key b ↔ scope a = scope b ∧ name a = name b := by
  constructor
  · intro h
    simp only [key, List.append_assoc] at h
    exact split_at_slash (scope_no_slash ha) (scope_no_slash hb) h
  · rintro ⟨hScope, hName⟩
    rw [key, hScope, hName, key]

theorem feed_scope_ne {id sort t : Str} (h : Valid (.feed id sort)) {x : UInt16} (hx : x ∈ t)
    (hWord : word x = false) : scope (.feed id sort) ≠ t := by
  intro hEq
  have hId := (h.feed id sort (.inl rfl)).1
  exact not_mem_of_all_word hId hWord (by rw [← hEq] at hx; exact hx)

theorem key_eq_iff {a b : Resource} (ha : Valid a) (hb : Valid b) :
    key a = key b ↔ a = b ∨ Collides a b ∨ Collides b a := by
  rw [key_eq_iff_parts ha hb]
  constructor
  · rintro ⟨hScope, hName⟩
    have hHyphen : (45 : UInt16) ∈ str "imgur-image" := by decide
    have hDiffer : str "imgur" ≠ str "imgur-image" := by decide
    have hHead : (some 99 : Option UInt16) ≠ some 105 := by decide
    have hColon : ∀ id : Str, (58 : UInt16) ∈ str "comments:" ++ id := fun id => List.mem_append_left _ (by decide)
    cases a with
    | feed id sort =>
      cases b with
      | feed id' sort' => exact .inl (by rw [show id = id' from hScope, show sort = sort' from hName])
      | thread id' sort' => exact absurd hScope (feed_scope_ne ha (hColon id') (by decide))
      | album id' => exact .inr (.inl ⟨id', by rw [show id = _ from hScope, show sort = id' from hName]; rfl, rfl⟩)
      | image id' => exact absurd hScope (feed_scope_ne ha hHyphen (by decide))
    | thread id sort =>
      cases b with
      | feed id' sort' => exact absurd hScope.symm (feed_scope_ne hb (hColon id) (by decide))
      | thread id' sort' =>
        have hId : id = id' := List.append_cancel_left hScope
        exact .inl (by rw [hId, show sort = sort' from hName])
      | album id' => exact absurd (congrArg List.head? hScope) hHead
      | image id' => exact absurd (congrArg List.head? hScope) hHead
    | album id =>
      cases b with
      | feed id' sort' =>
        exact .inr (.inr ⟨id, by rw [show id' = _ from hScope.symm, show sort' = id from hName.symm]; rfl, rfl⟩)
      | thread id' sort' => exact absurd (congrArg List.head? hScope.symm) hHead
      | album id' => exact .inl (by rw [show id = id' from hName])
      | image id' => exact absurd hScope hDiffer
    | image id =>
      cases b with
      | feed id' sort' => exact absurd hScope.symm (feed_scope_ne hb hHyphen (by decide))
      | thread id' sort' => exact absurd (congrArg List.head? hScope.symm) hHead
      | album id' => exact absurd hScope.symm hDiffer
      | image id' => exact .inl (by rw [show id = id' from hName])
  · rintro (rfl | ⟨s, rfl, rfl⟩ | ⟨s, rfl, rfl⟩)
    · exact ⟨rfl, rfl⟩
    · exact ⟨rfl, rfl⟩
    · exact ⟨rfl, rfl⟩

end Columbia.Commons.Resources
