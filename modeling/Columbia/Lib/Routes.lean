import Mathlib.Data.List.Forall2

/-! # Routes by path

A route is a list of keys, and takes either just the paths that fit them or all longer ones. One key is open: it fits
all segments but some. The tree of the routes is descended segment by segment, first below the segment itself and then
below the open key, and left where it ends.
-/
namespace Columbia.Lib
set_option autoImplicit false

structure Route (S V : Type) where
  keys : List S
  multi : Bool
  value : V
  deriving DecidableEq

namespace Route
variable {S V : Type} [DecidableEq S] (openKey : S) (closed : S → Bool)

def Fits (key segment : S) : Prop := key = segment ∨ key = openKey ∧ closed segment = false

def Takes (r : Route S V) (path : List S) : Prop :=
  if r.multi then ∃ front s rest, path = front ++ s :: rest ∧ List.Forall₂ (Fits openKey closed) r.keys front
  else List.Forall₂ (Fits openKey closed) r.keys path

/-- What is left of a route below a key. -/
def below (key : S) (r : Route S V) : Option (Route S V) :=
  match r.keys with
  | [] => none
  | t :: rest => if t = key then some { r with keys := rest } else none

/-- Of several routes that end here the last one is kept. -/
def ending (multi : Bool) (routes : List (Route S V)) : Option V :=
  ((routes.filter fun r => r.keys = [] ∧ r.multi = multi).getLast?).map value

def matchPath (routes : List (Route S V)) : List S → Option V
  | [] => ending false routes
  | s :: rest =>
    let literal := matchPath (routes.filterMap (below s)) rest
    let wild := if closed s then none else matchPath (routes.filterMap (below openKey)) rest
    (literal.or wild).or (ending true routes)

variable {openKey closed}

theorem below_eq_some {key : S} {r r' : Route S V} : below key r = some r' ↔ r = { r' with keys := key :: r'.keys } := by
  obtain ⟨keys, multi, value⟩ := r
  obtain ⟨keys', multi', value'⟩ := r'
  cases keys with
  | nil => simp [below]
  | cons t rest =>
    by_cases h : t = key
    · simp [below, h, eq_comm]
    · simp [below, h]

omit [DecidableEq S] in
theorem takes_cons {key s : S} (hFits : Fits openKey closed key s) (r : Route S V) {rest : List S}
    (h : r.Takes openKey closed rest) : Takes openKey closed { r with keys := key :: r.keys } (s :: rest) := by
  unfold Takes at h ⊢
  split
  · rename_i hMulti
    rw [if_pos hMulti] at h
    obtain ⟨front, t, back, rfl, hKeys⟩ := h
    exact ⟨s :: front, t, back, rfl, .cons hFits hKeys⟩
  · rename_i hMulti
    rw [if_neg hMulti] at h
    exact .cons hFits h

omit [DecidableEq S] in
theorem ending_eq_some {multi : Bool} {routes : List (Route S V)} {v : V} (h : ending multi routes = some v) :
    ⟨[], multi, v⟩ ∈ routes := by
  obtain ⟨⟨keys, multi', value⟩, hLast, rfl⟩ := Option.map_eq_some_iff.mp h
  have hMem := List.mem_of_getLast? hLast
  simp only [List.mem_filter, decide_eq_true_eq] at hMem
  obtain ⟨hMem, rfl, rfl⟩ := hMem
  exact hMem

omit [DecidableEq S] in
theorem ending_eq_none {multi : Bool} {routes : List (Route S V)} (h : ending multi routes = none) (v : V) :
    ⟨[], multi, v⟩ ∉ routes := by
  intro hMem
  rw [ending, Option.map_eq_none_iff, List.getLast?_eq_none_iff, List.filter_eq_nil_iff] at h
  exact h _ hMem (by simp)

omit [DecidableEq S] in
theorem takes_nil {multi : Bool} {value : V} {path : List S} :
    Takes openKey closed ⟨[], multi, value⟩ path ↔ (multi = false ↔ path = []) := by
  unfold Takes
  cases multi with
  | false => simp [List.forall₂_nil_left_iff]
  | true => cases path <;> simp [List.forall₂_nil_left_iff]

/-- What a path finds is a route that takes it. -/
theorem matchPath_eq_some {routes : List (Route S V)} {path : List S} {v : V}
    (h : matchPath openKey closed routes path = some v) : ∃ r ∈ routes, r.value = v ∧ r.Takes openKey closed path := by
  induction path generalizing routes with
  | nil => exact ⟨_, ending_eq_some h, rfl, takes_nil.mpr ⟨fun _ => rfl, fun _ => rfl⟩⟩
  | cons s rest ih =>
    have hDown : ∀ key, Fits openKey closed key s → matchPath openKey closed (routes.filterMap (below key)) rest = some v →
        ∃ r ∈ routes, r.value = v ∧ r.Takes openKey closed (s :: rest) := by
      intro key hFits hFound
      obtain ⟨r, hr, rfl, hTakes⟩ := ih hFound
      obtain ⟨whole, hWhole, hBelow⟩ := List.mem_filterMap.mp hr
      obtain rfl := below_eq_some.mp hBelow
      exact ⟨_, hWhole, rfl, takes_cons hFits r hTakes⟩
    rcases Option.or_eq_some_iff.mp h with hFound | ⟨-, hEnd⟩
    · rcases Option.or_eq_some_iff.mp hFound with hLiteral | ⟨-, hWild⟩
      · exact hDown s (.inl rfl) hLiteral
      · split at hWild
        · cases hWild
        · rename_i hClosed
          exact hDown openKey (.inr ⟨rfl, by simpa using hClosed⟩) hWild
    · exact ⟨_, ending_eq_some hEnd, rfl, takes_nil.mpr ⟨nofun, nofun⟩⟩

/-- Where no two routes are the same, the path that a route spells out gets this route. -/
theorem matchPath_self {routes : List (Route S V)} {r : Route S V} (hr : r ∈ routes) (hMulti : r.multi = false)
    (hUnique : ∀ other ∈ routes, other.keys = r.keys → other.multi = r.multi → other = r) :
    matchPath openKey closed routes r.keys = some r.value := by
  obtain ⟨keys, multi, value⟩ := r
  obtain rfl : multi = false := hMulti
  induction keys generalizing routes with
  | nil =>
    cases hEnd : ending false routes with
    | none => exact absurd hr (ending_eq_none hEnd value)
    | some v =>
      have hSame := hUnique _ (ending_eq_some hEnd) rfl rfl
      rw [matchPath, hEnd, ← congrArg Route.value hSame]
  | cons key keys ih =>
    have hBelow : (⟨keys, false, value⟩ : Route S V) ∈ routes.filterMap (below key) :=
      List.mem_filterMap.mpr ⟨_, hr, below_eq_some.mpr rfl⟩
    have hLiteral : matchPath openKey closed (routes.filterMap (below key)) keys = some value := by
      refine ih hBelow fun other hOther hKeys hEnds => ?_
      obtain ⟨whole, hWhole, hRest⟩ := List.mem_filterMap.mp hOther
      obtain rfl := below_eq_some.mp hRest
      have hSame := hUnique _ hWhole (congrArg (key :: ·) hKeys) hEnds
      simp only [mk.injEq, List.cons.injEq, true_and] at hSame
      obtain ⟨hKeys, hEnds, hValue⟩ := hSame
      cases other
      simp_all
    rw [matchPath]
    simp only
    rw [hLiteral]
    rfl

end Route
end Columbia.Lib
