import Columbia.Gateway.Bhttp
import Columbia.Lib.Routes
import Mathlib.Data.List.Nodup
import Mathlib.Data.List.TakeWhile

/-! # Which handler a request gets: `http.ServeMux`

A request is matched by its path as it was sent, segment by segment, each unescaped on its own; the handler sees the
path unescaped as a whole. The two differ where an escape stands for a slash.
-/
namespace Columbia.Gateway.ServeMux
open Columbia.Js Columbia.Lib Columbia.Gateway.Varint Columbia.Gateway.Handler Columbia.Gateway.Bhttp
set_option autoImplicit false

def ishex (c : UInt8) : Bool := (48 ≤ c ∧ c ≤ 57) ∨ (97 ≤ c ∧ c ≤ 102) ∨ (65 ≤ c ∧ c ≤ 70)

def unhex (c : UInt8) : UInt8 := if c ≤ 57 then c - 48 else if 97 ≤ c then c - 97 + 10 else c - 65 + 10

def PathUnescape : Bytes → Option Bytes
  | [] => some []
  | 37 :: a :: b :: rest => if ishex a ∧ ishex b then (PathUnescape rest).map ((unhex a * 16 + unhex b) :: ·) else none
  | c :: rest => if c = 37 then none else (PathUnescape rest).map (c :: ·)

def pathUnescape (path : Bytes) : Bytes := (PathUnescape path).getD path

/-- The pieces between the slashes of a path that starts with one. -/
def pieces (path : Bytes) : List Bytes := path.tail.splitOn 47

/-- Repeated `firstSegment`: a slash at the end is a segment of its own. -/
def segmentsOf : List Bytes → List Bytes
  | [] => []
  | [last] => [if last = [] then [47] else pathUnescape last]
  | piece :: rest => pathUnescape piece :: segmentsOf rest

def segments (path : Bytes) : List Bytes := if path = [] then [] else segmentsOf (pieces path)

/-! ## Clean paths -/

def cleanPiece (stack : List Bytes) (piece : Bytes) : List Bytes :=
  if piece = [] ∨ piece = text "." then stack
  else if piece = text ".." then stack.dropLast
  else stack ++ [piece]

/-- `path.Clean` of a rooted path. -/
def Clean (path : Bytes) : Bytes := 47 :: List.intercalate [47] ((pieces path).foldl cleanPiece [])

def cleanPath (p : Bytes) : Bytes :=
  if p = [] then [47]
  else
    let p := if p.head? = some 47 then p else 47 :: p
    let np := Clean p
    if p.getLast? = some 47 ∧ np ≠ [47] then np ++ [47] else np

example : cleanPath (text "/a/./b/../c//") = text "/a/c/" := by decide

/-! ## Patterns -/

/-- `s` is what a literal segment stands for, or the name of a wildcard. -/
structure Segment where
  s : Bytes
  wild : Bool
  multi : Bool
  deriving DecidableEq

structure Pattern where
  str : Bytes
  method : Bytes
  host : Bytes
  segments : List Segment
  deriving DecidableEq

def literal (piece : Bytes) : Segment := ⟨pathUnescape piece, false, false⟩

/-- The slash at the end of a pattern. -/
def trailingSlash : Segment := ⟨[], true, true⟩

section
variable (isValidWildcardName : Bytes → Bool)

def parseWildcard (last : Bool) (seenNames : List Bytes) (name : Bytes) : Option Segment :=
  let multi := decide (text "..." <:+ name)
  let name := if multi then name.dropLast.dropLast.dropLast else name
  if multi = true ∧ last = false ∨ name = [] ∨ isValidWildcardName name = false ∨ name ∈ seenNames then none
  else some ⟨name, true, multi⟩

def parseSegment (last : Bool) (seenNames : List Bytes) (seg : Bytes) : Option Segment :=
  if 123 ∉ seg then some (literal seg)
  else if seg.head? ≠ some 123 ∨ seg.getLast? ≠ some 125 then none
  else
    let name := seg.tail.dropLast
    if name = text "$" then if last then some ⟨[47], false, false⟩ else none
    else parseWildcard isValidWildcardName last seenNames name

def parseSegments (seenNames : List Bytes) : List Bytes → Option (List Segment)
  | [] => some []
  | [last] =>
    if last = [] then some [trailingSlash]
    else (parseSegment isValidWildcardName true seenNames last).map fun seg => [seg]
  | piece :: rest => do
    let seg ← parseSegment isValidWildcardName false seenNames piece
    let segs ← parseSegments (if seg.wild then seg.s :: seenNames else seenNames) rest
    return seg :: segs

def isBlank (c : UInt8) : Bool := c = 32 ∨ c = 9

def isToken (s : Bytes) : Bool := s ≠ [] ∧ s.all validHeaderFieldByte = true

/-- `[METHOD][HOST]/[PATH]`. -/
def parsePattern (s : Bytes) : Option Pattern :=
  let first := s.takeWhile fun c => !isBlank c
  let found := first.length < s.length
  let method := if found then first else []
  let rest := if found then (s.drop (first.length + 1)).dropWhile isBlank else s
  let host := rest.takeWhile (· ≠ 47)
  let path := rest.drop host.length
  if s = [] ∨ method ≠ [] ∧ isToken method = false then none
  else if path = [] ∨ 123 ∈ host then none
  else if method ≠ [] ∧ method ≠ text "CONNECT" ∧ path ≠ cleanPath path then none
  else (parseSegments isValidWildcardName [] (pieces path)).map fun segments => ⟨s, method, host, segments⟩

end

def Pattern.multi (p : Pattern) : Bool := p.segments.getLast?.any Segment.multi

/-! ## Which patterns conflict -/

/-- Which of the requests that two patterns match they share. -/
inductive Relationship
  | equivalent
  | moreGeneral
  | moreSpecific
  | disjoint
  | overlaps
  deriving DecidableEq

def inverseRelationship : Relationship → Relationship
  | .moreSpecific => .moreGeneral
  | .moreGeneral => .moreSpecific
  | r => r

def combineRelationships (r1 r2 : Relationship) : Relationship :=
  match r1 with
  | .equivalent => r2
  | .disjoint => .disjoint
  | .overlaps => if r2 = .disjoint then .disjoint else .overlaps
  | _ => if r2 = .equivalent then r1 else if r2 = inverseRelationship r1 then .overlaps else r2

def compareMethods (p1 p2 : Pattern) : Relationship :=
  if p1.method = p2.method then .equivalent
  else if p1.method = [] then .moreGeneral
  else if p2.method = [] then .moreSpecific
  else if p1.method = text "GET" ∧ p2.method = text "HEAD" then .moreGeneral
  else if p2.method = text "GET" ∧ p1.method = text "HEAD" then .moreSpecific
  else .disjoint

def compareSegments (s1 s2 : Segment) : Relationship :=
  if s1.multi ∧ s2.multi then .equivalent
  else if s1.multi then .moreGeneral
  else if s2.multi then .moreSpecific
  else if s1.wild ∧ s2.wild then .equivalent
  else if s1.wild then if s2.s = [47] then .disjoint else .moreGeneral
  else if s2.wild then if s1.s = [47] then .disjoint else .moreSpecific
  else if s1.s = s2.s then .equivalent
  else .disjoint

/-- The loop of `comparePaths`, and what follows it. -/
def compareFrom (multi1 multi2 : Bool) : Relationship → List Segment → List Segment → Relationship
  | rel, s1 :: segs1, s2 :: segs2 =>
    let rel := combineRelationships rel (compareSegments s1 s2)
    if rel = .disjoint then rel else compareFrom multi1 multi2 rel segs1 segs2
  | rel, [], [] => rel
  | rel, [], _ :: _ => if multi1 then combineRelationships rel .moreGeneral else .disjoint
  | rel, _ :: _, [] => if multi2 then combineRelationships rel .moreSpecific else .disjoint

def comparePaths (p1 p2 : Pattern) : Relationship :=
  if p1.segments.length ≠ p2.segments.length ∧ p1.multi = false ∧ p2.multi = false then .disjoint
  else compareFrom p1.multi p2.multi .equivalent p1.segments p2.segments

def comparePathsAndMethods (p1 p2 : Pattern) : Relationship :=
  let mrel := compareMethods p1 p2
  if mrel = .disjoint then .disjoint else combineRelationships mrel (comparePaths p1 p2)

def conflictsWith (p1 p2 : Pattern) : Bool :=
  p1.host = p2.host ∧ (comparePathsAndMethods p1 p2 = .equivalent ∨ comparePathsAndMethods p1 p2 = .overlaps)

/-! ## `ServeMux` -/

structure RoutingNode (H : Type) where
  pattern : Pattern
  handler : H

abbrev Mux (H : Type) := List (RoutingNode H)

/-- The edge of the tree for a segment: a wildcard shares it with the empty literal. -/
def key (seg : Segment) : Bytes := if seg.wild then [] else seg.s

def Pattern.keys (p : Pattern) : List Bytes := (if p.multi then p.segments.dropLast else p.segments).map key

section
variable {H : Type}

def RoutingNode.route (n : RoutingNode H) : Route Bytes (RoutingNode H) := ⟨n.pattern.keys, n.pattern.multi, n⟩

/-- Two patterns for one leaf of the tree. -/
def sameLeaf (p1 p2 : Pattern) : Bool :=
  p1.host = p2.host ∧ p1.method = p2.method ∧ p1.multi = false ∧ p2.multi = false ∧ p1.keys = p2.keys

def Clash (n1 n2 : RoutingNode H) : Prop :=
  conflictsWith n2.pattern n1.pattern = true ∨ sameLeaf n2.pattern n1.pattern = true

instance : DecidableRel (Clash (H := H)) := fun _ _ => inferInstanceAs (Decidable (_ ∨ _))

/-- Where `HandleFunc` panics, it says why. -/
def HandleFunc (isValidWildcardName : Bytes → Bool) (mux : Mux H) (pattern : Bytes) (handler : H) :
    Except Failure (Mux H) :=
  match parsePattern isValidWildcardName pattern with
  | none => .error .panicked
  | some p =>
    let n : RoutingNode H := ⟨p, handler⟩
    if mux.any fun n1 => Clash n1 n then .error .panicked else .ok (mux ++ [n])

def exactMatch (path : Bytes) : Option (RoutingNode H) → Bool
  | none => false
  | some n => n.pattern.multi = false ∨
    (path = [] ∨ path.getLast? = some 47) ∧ n.pattern.segments.length = path.count 47

inductive Found (H : Type)
  | redirect (location : Bytes)
  | notFound
  | methodNotAllowed
  | handler (h : H)
  deriving DecidableEq

def Found.map {H' : Type} (f : H → H') : Found H → Found H'
  | .redirect location => .redirect location
  | .notFound => .notFound
  | .methodNotAllowed => .methodNotAllowed
  | .handler h => .handler (f h)

/-- No wildcard stands for the slash at the end of a path. -/
def isSlash (seg : Bytes) : Bool := seg = [47]

/-- `routingNode.matchPath` below a host and a method. -/
def matchPath (mux : Mux H) (host method path : Bytes) : Option (RoutingNode H) :=
  Route.matchPath [] isSlash ((mux.filter fun n => n.pattern.host = host ∧ n.pattern.method = method).map
    RoutingNode.route) (segments path)

def matchMethodAndPath (mux : Mux H) (host method path : Bytes) : Option (RoutingNode H) :=
  ((matchPath mux host method path).or
    (if method = text "HEAD" then matchPath mux host (text "GET") path else none)).or (matchPath mux host [] path)

/-- `routingNode.match`. -/
def matchNode (mux : Mux H) (host method path : Bytes) : Option (RoutingNode H) :=
  (if host = [] then none else matchMethodAndPath mux host method path).or (matchMethodAndPath mux [] method path)

/-- Whether some other method would do, with a slash at the end if need be. -/
def otherMethods (mux : Mux H) (host path : Bytes) : Bool :=
  mux.any fun n => n.pattern.method ≠ [] ∧ (n.pattern.host = host ∨ n.pattern.host = []) ∧
    ((matchPath mux n.pattern.host n.pattern.method path).isSome ∨
      path.getLast? ≠ some 47 ∧ (matchPath mux n.pattern.host n.pattern.method (path ++ [47])).isSome)

/-- The host of `net.SplitHostPort`. -/
def SplitHostPort (hostport : Bytes) : Option Bytes :=
  let port := (hostport.reverse.takeWhile (· ≠ 58)).reverse
  let front := hostport.take (hostport.length - port.length - 1)
  if hostport.head? = some 91 then
    let host := front.tail.dropLast
    if front.getLast? = some 93 ∧ 93 ∉ host ∧ 91 ∉ host ++ port ∧ 93 ∉ port then some host else none
  else if 58 ∉ front ∧ 91 ∉ hostport ∧ 93 ∉ hostport then some front
  else none

def stripHostPort (h : Bytes) : Bytes := if 58 ∈ h then (SplitHostPort h).getD h else h

example : [text "a:1", text "[::1]:1", text "[::1]", text "::1"].map stripHostPort =
    [text "a", text "::1", text "[::1]", text "::1"] := by decide

/-- A request as the mux sees it: the host of the URL is that of a `CONNECT`. -/
structure Target where
  method : Bytes
  urlHost : Bytes
  host : Bytes
  escapedPath : Bytes
  path : Bytes

/-- `ServeMux.findHandler`. -/
def findHandler (mux : Mux H) (r : Target) : Found H :=
  let connect := r.method = text "CONNECT"
  let host := if connect then r.urlHost else stripHostPort r.host
  let path := if connect then r.escapedPath else cleanPath r.escapedPath
  if exactMatch path (matchNode mux host r.method path) = false ∧ path.getLast? ≠ some 47 ∧
      exactMatch (path ++ [47]) (matchNode mux host r.method (path ++ [47])) = true then
    .redirect (cleanPath r.path ++ [47])
  else if path ≠ r.escapedPath then .redirect path
  else
    match matchNode mux (if connect then r.host else host) r.method path with
    | some n => .handler n.handler
    | none => if otherMethods mux host path then .methodNotAllowed else .notFound

end

/-! ## Paths and their pieces -/

theorem PathUnescape_literal {s : Bytes} (h : 37 ∉ s) : PathUnescape s = some s := by
  induction s using PathUnescape.induct with
  | case1 => rfl
  | case2 => exact absurd List.mem_cons_self h
  | case3 => exact absurd List.mem_cons_self h
  | case4 => exact absurd List.mem_cons_self h
  | case5 c rest hShort hc ih =>
    have hRest := ih fun hMem => h (List.mem_cons_of_mem _ hMem)
    match rest with
    | [] => simp [PathUnescape, hc]
    | [x] => simp [PathUnescape, hc, hRest]
    | x :: y :: rest => simp [PathUnescape, hc, hRest]

theorem mem_splitOn {path piece : Bytes} {c : UInt8} (h : piece ∈ path.splitOn c) : c ∉ piece ∧ piece ⊆ path := by
  induction path generalizing piece with
  | nil =>
    obtain rfl := List.mem_singleton.mp h
    exact ⟨List.not_mem_nil, List.nil_subset _⟩
  | cons x rest ih =>
    rw [List.splitOn_cons_eq_if_modifyHead] at h
    split at h
    · rcases List.mem_cons.mp h with rfl | h
      · exact ⟨List.not_mem_nil, List.nil_subset _⟩
      · exact ⟨(ih h).1, List.subset_cons_of_subset x (ih h).2⟩
    · rename_i hx
      cases hSplit : rest.splitOn c with
      | nil => exact absurd hSplit (List.splitOn_ne_nil c rest)
      | cons first others =>
        rw [hSplit] at h
        rcases List.mem_cons.mp h with rfl | h
        · have hFirst : first ∈ rest.splitOn c := by simp [hSplit]
          obtain ⟨hFree, hSubset⟩ := ih hFirst
          refine ⟨?_, List.cons_subset_cons x hSubset⟩
          rw [List.mem_cons, not_or]
          exact ⟨fun hEq => hx (by simp [hEq]), hFree⟩
        · have hOther : piece ∈ rest.splitOn c := by simp [hSplit, h]
          obtain ⟨hFree, hSubset⟩ := ih hOther
          exact ⟨hFree, List.subset_cons_of_subset x hSubset⟩

theorem intercalate_append (init : List Bytes) {tails : List Bytes} (h : tails ≠ []) :
    List.intercalate [47] (init ++ tails) = init.flatMap (· ++ [47]) ++ List.intercalate [47] tails := by
  induction init with
  | nil => rfl
  | cons piece init ih =>
    rw [List.cons_append, List.intercalate_cons_of_ne_nil (by simp [h]), ih, List.flatMap_cons]
    simp

theorem pieces_concat (path : Bytes) : ∃ init last, pieces path = init ++ [last] :=
  ⟨_, _, (List.dropLast_append_getLast (List.splitOn_ne_nil 47 path.tail)).symm⟩

/-- The pieces of a pattern without escapes, of which the last is empty behind a slash at its end. -/
theorem pieces_literal {e : Bytes} (hSlash : e.head? = some 47) (hLiteral : 37 ∉ e) :
    ∃ init last, e = 47 :: (init.flatMap (· ++ [47]) ++ last) ∧ pieces e = init ++ [last] ∧
      (pieces e).map pathUnescape = pieces e ∧ (∀ piece ∈ pieces e, 47 ∉ piece) ∧ (e.getLast? = some 47 ↔ last = []) := by
  obtain ⟨tail, rfl⟩ : ∃ tail, e = 47 :: tail := List.head?_eq_some_iff.mp hSlash
  have hNoSlash : ∀ piece ∈ tail.splitOn 47, 47 ∉ piece := fun _ hPiece => (mem_splitOn hPiece).1
  obtain ⟨init, last, hSplit⟩ : ∃ init last, tail.splitOn 47 = init ++ [last] :=
    ⟨_, _, (List.dropLast_append_getLast (List.splitOn_ne_nil 47 tail)).symm⟩
  have hJoined : List.intercalate [47] (tail.splitOn 47) = tail := List.intercalate_splitOn 47
  have hTail : tail = init.flatMap (· ++ [47]) ++ last := by
    rw [← hJoined, hSplit, intercalate_append _ (by simp), List.intercalate_singleton]
  refine ⟨init, last, by rw [← hTail], hSplit, ?_, hNoSlash, ?_⟩
  · apply (List.map_congr_left fun piece hPiece => ?_).trans (List.map_id _)
    have hFree : 37 ∉ piece := fun hMem => hLiteral (List.mem_cons_of_mem _ ((mem_splitOn hPiece).2 hMem))
    rw [pathUnescape, PathUnescape_literal hFree]
    rfl
  · have hLast : 47 ∉ last := hNoSlash last (by simp [hSplit])
    rw [hTail]
    constructor
    · intro hEnd
      by_contra hSome
      rw [← List.cons_append, List.getLast?_append_of_ne_nil _ hSome] at hEnd
      exact hLast (List.mem_of_getLast? hEnd)
    · rintro rfl
      rw [List.append_nil]
      cases init using List.reverseRecOn with
      | nil => rfl
      | append_singleton init piece =>
        rw [List.flatMap_append, List.flatMap_singleton, ← List.append_assoc, ← List.cons_append, List.getLast?_concat]

/-! ## Plain patterns -/

/-- A pattern without method, host and wildcards, and without empty segments, which the tree takes for wildcards. -/
structure Plain (pattern : Bytes) : Prop where
  slash : pattern.head? = some 47
  noSigns : ∀ c ∈ pattern, c ∉ [32, 9, (123 : UInt8)]
  noEmpty : [] ∉ (pieces pattern).dropLast

instance (pattern : Bytes) : Decidable (Plain pattern) :=
  decidable_of_iff (pattern.head? = some 47 ∧ pattern.all (· ∉ [32, 9, (123 : UInt8)]) = true ∧
    [] ∉ (pieces pattern).dropLast)
    ⟨fun h => ⟨h.1, fun c hc => of_decide_eq_true (List.all_eq_true.mp h.2.1 c hc), h.2.2⟩,
      fun h => ⟨h.1, List.all_eq_true.mpr fun c hc => decide_eq_true (h.2 c hc), h.3⟩⟩

def plainSegments : List Bytes → List Segment
  | [] => []
  | [last] => [if last = [] then trailingSlash else literal last]
  | piece :: rest => literal piece :: plainSegments rest

def plainPattern (pattern : Bytes) : Pattern := ⟨pattern, [], [], plainSegments (pieces pattern)⟩

theorem plainSegments_concat (init : List Bytes) (last : Bytes) : plainSegments (init ++ [last]) =
    init.map literal ++ [if last = [] then trailingSlash else literal last] := by
  induction init with
  | nil => rfl
  | cons piece init ih =>
    rw [List.cons_append, plainSegments, ih]
    · rfl
    · simp

theorem parseSegments_plain (isValidWildcardName : Bytes → Bool) {ps : List Bytes} (h : ∀ piece ∈ ps, 123 ∉ piece) :
    parseSegments isValidWildcardName [] ps = some (plainSegments ps) := by
  induction ps with
  | nil => rfl
  | cons piece rest ih =>
    have hPiece : ∀ last, parseSegment isValidWildcardName last [] piece = some (literal piece) :=
      fun last => if_pos (h piece List.mem_cons_self)
    cases rest with
    | nil =>
      rw [parseSegments, plainSegments, hPiece]
      split <;> rfl
    | cons next rest =>
      have hRest := ih fun other hOther => h other (List.mem_cons_of_mem _ hOther)
      rw [parseSegments, plainSegments, hPiece]
      · simp only [Option.bind_eq_bind, Option.bind_some, literal, Bool.false_eq_true, if_false, hRest]
        rfl
      · simp
      · simp

theorem parsePattern_plain (isValidWildcardName : Bytes → Bool) {pattern : Bytes} (h : Plain pattern) :
    parsePattern isValidWildcardName pattern = some (plainPattern pattern) := by
  obtain ⟨tail, rfl⟩ : ∃ tail, pattern = 47 :: tail := List.head?_eq_some_iff.mp h.slash
  have hBlank : ∀ c ∈ (47 :: tail : Bytes), (!isBlank c) = true := by
    intro c hc
    have hSigns := h.noSigns c hc
    simp only [List.mem_cons, List.not_mem_nil, or_false, not_or] at hSigns
    simp [isBlank, hSigns.1, hSigns.2.1]
  have hFirst : (47 :: tail : Bytes).takeWhile (fun c => !isBlank c) = 47 :: tail :=
    List.takeWhile_eq_self_iff.mpr hBlank
  have hHost : (47 :: tail : Bytes).takeWhile (· ≠ 47) = [] := by simp
  have hPieces : ∀ piece ∈ pieces (47 :: tail), 123 ∉ piece := by
    intro piece hPiece hMem
    exact h.noSigns 123 (List.mem_cons_of_mem _ ((mem_splitOn hPiece).2 hMem)) (by simp)
  unfold parsePattern
  dsimp only
  rw [hFirst, if_neg (lt_irrefl _), if_neg (lt_irrefl _), hHost, List.length_nil, List.drop_zero, if_neg (by simp),
    if_neg (by simp), if_neg (by simp), parseSegments_plain _ hPieces]
  rfl

theorem plainPattern_multi {pattern : Bytes} {init : List Bytes} {last : Bytes} (h : pieces pattern = init ++ [last]) :
    (plainPattern pattern).multi = decide (last = []) := by
  rw [Pattern.multi, plainPattern, h, plainSegments_concat, List.getLast?_concat]
  by_cases hLast : last = []
  · simp [hLast, trailingSlash]
  · simp [hLast, literal]

theorem plainPattern_keys {pattern : Bytes} {init : List Bytes} {last : Bytes} (h : pieces pattern = init ++ [last]) :
    (plainPattern pattern).keys = (if last = [] then init else init ++ [last]).map pathUnescape := by
  have hKeys : ∀ ps : List Bytes, (ps.map literal).map key = ps.map pathUnescape := by
    intro ps
    rw [List.map_map]
    rfl
  rw [Pattern.keys, plainPattern_multi h, plainPattern, h, plainSegments_concat]
  by_cases hLast : last = []
  · simp only [hLast, decide_true, if_true, List.dropLast_concat]
    exact hKeys init
  · simp only [hLast, decide_false, Bool.false_eq_true, if_false, List.map_append, hKeys]
    rfl

theorem plainPattern_segments (pattern : Bytes) : (plainPattern pattern).segments =
    (plainPattern pattern).keys.map (fun s => ⟨s, false, false⟩) ++
      if (plainPattern pattern).multi then [trailingSlash] else [] := by
  obtain ⟨init, last, hPieces⟩ := pieces_concat pattern
  have hLiteral : ∀ ps : List Bytes, (ps.map pathUnescape).map (fun s => (⟨s, false, false⟩ : Segment)) =
      ps.map literal := by
    intro ps
    rw [List.map_map]
    rfl
  rw [plainPattern_multi hPieces, plainPattern_keys hPieces, hLiteral, plainPattern, hPieces, plainSegments_concat]
  by_cases hLast : last = []
  · simp [hLast]
  · simp [hLast]

section
variable {H : Type}

end

/-! ## Patterns that clash -/

theorem compareSegments_self (seg : Segment) : compareSegments seg seg = .equivalent := by
  unfold compareSegments
  cases seg.multi <;> cases seg.wild <;> simp

theorem compareFrom_self (multi : Bool) (segs : List Segment) :
    compareFrom multi multi .equivalent segs segs = .equivalent := by
  induction segs with
  | nil => rfl
  | cons seg segs ih =>
    rw [compareFrom, compareSegments_self]
    exact ih

theorem plainSegments_cons (piece next : Bytes) (rest : List Bytes) :
    plainSegments (piece :: next :: rest) = literal piece :: plainSegments (next :: rest) := rfl

theorem compareSegments_literal (p q : Bytes) : compareSegments (literal p) (literal q) =
    if literal p = literal q then .equivalent else .disjoint := by
  simp only [compareSegments, literal, Bool.false_eq_true, and_self, if_false, Segment.mk.injEq, and_true]
  rfl

def Joint (rel : Relationship) : Prop := rel = .equivalent ∨ rel = .overlaps

theorem plainSegments_ne_nil {ps : List Bytes} (h : ps ≠ []) : ∃ seg segs, plainSegments ps = seg :: segs := by
  obtain ⟨piece, rest, rfl⟩ := List.exists_cons_of_ne_nil h
  cases rest with
  | nil => exact ⟨_, _, rfl⟩
  | cons next rest => exact ⟨_, _, plainSegments_cons piece next rest⟩

/-- Where one pattern has ended, only a slash at its end makes it meet the other. -/
theorem not_joint_of_shorter {multi1 multi2 : Bool} {p q : Bytes} {qs : List Bytes} (hq : qs ≠ [])
    (hMulti1 : multi1 = decide (p = [])) :
    ¬Joint (compareFrom multi1 multi2 .equivalent (plainSegments [p]) (literal q :: plainSegments qs)) ∧
      ¬Joint (compareFrom multi2 multi1 .equivalent (literal q :: plainSegments qs) (plainSegments [p])) := by
  obtain ⟨seg, segs, hSegs⟩ := plainSegments_ne_nil hq
  rw [plainSegments, compareFrom, compareFrom, hSegs]
  by_cases hEnd : p = []
  · simp [hMulti1, hEnd, compareSegments, combineRelationships, inverseRelationship, trailingSlash, literal, Joint,
      compareFrom]
  · rw [if_neg hEnd, compareSegments_literal, compareSegments_literal]
    by_cases hSame : literal p = literal q
    · simp [hMulti1, hEnd, hSame, combineRelationships, Joint, compareFrom]
    · simp [hSame, Ne.symm hSame, combineRelationships, Joint]

/-- Two plain patterns are compared up to the first place where they differ, or where one of them ends. -/
theorem compareFrom_plain {ps qs : List Bytes} (hp : ps ≠ []) (hq : qs ≠ []) {multi1 multi2 : Bool}
    (hMulti1 : multi1 = decide (ps.getLast? = some [])) (hMulti2 : multi2 = decide (qs.getLast? = some [])) :
    Joint (compareFrom multi1 multi2 .equivalent (plainSegments ps) (plainSegments qs)) ↔
      plainSegments ps = plainSegments qs := by
  induction ps generalizing qs with
  | nil => exact absurd rfl hp
  | cons p ps ih =>
    obtain ⟨q, qs, rfl⟩ := List.exists_cons_of_ne_nil hq
    cases ps with
    | nil =>
      cases qs with
      | nil =>
        rw [plainSegments, plainSegments, compareFrom]
        by_cases hpEnd : p = []
        · by_cases hqEnd : q = []
          · simp [hpEnd, hqEnd, compareSegments, combineRelationships, trailingSlash, Joint, compareFrom]
          · simp [hpEnd, hqEnd, compareSegments, combineRelationships, trailingSlash, literal, Joint, compareFrom]
        · by_cases hqEnd : q = []
          · simp [hpEnd, hqEnd, compareSegments, combineRelationships, trailingSlash, literal, Joint, compareFrom]
          · rw [if_neg hpEnd, if_neg hqEnd, compareSegments_literal]
            by_cases hSame : literal p = literal q
            · simp [hSame, combineRelationships, Joint, compareFrom]
            · simp [hSame, combineRelationships, Joint]
      | cons q' qs =>
        obtain ⟨seg, segs, hSegs⟩ := plainSegments_ne_nil (List.cons_ne_nil q' qs)
        rw [plainSegments_cons]
        refine iff_of_false (not_joint_of_shorter (by simp) (by simpa using hMulti1)).1 ?_
        simp [plainSegments, hSegs]
    | cons p' ps =>
      cases qs with
      | nil =>
        obtain ⟨seg, segs, hSegs⟩ := plainSegments_ne_nil (List.cons_ne_nil p' ps)
        rw [plainSegments_cons]
        refine iff_of_false (not_joint_of_shorter (by simp) (by simpa using hMulti2)).2 ?_
        simp [plainSegments, hSegs]
      | cons q' qs =>
        rw [plainSegments_cons, plainSegments_cons, compareFrom, compareSegments_literal]
        by_cases hSame : literal p = literal q
        · rw [if_pos hSame]
          simp only [combineRelationships, reduceCtorEq, if_false, hSame, List.cons.injEq, true_and]
          exact ih (by simp) (by simp) (by simpa using hMulti1) (by simpa using hMulti2)
        · rw [if_neg hSame]
          simp [combineRelationships, hSame, Joint]

section
variable {H : Type}

theorem clash_of_same {n1 n2 : RoutingNode H} (hHost : n1.pattern.host = n2.pattern.host)
    (hMethod : n1.pattern.method = n2.pattern.method) (hSegments : n1.pattern.segments = n2.pattern.segments) :
    Clash n1 n2 := by
  have hMulti : n1.pattern.multi = n2.pattern.multi := by rw [Pattern.multi, Pattern.multi, hSegments]
  have hPaths : comparePaths n2.pattern n1.pattern = .equivalent := by
    rw [comparePaths, hSegments, hMulti, if_neg fun h => h.1 rfl, compareFrom_self]
  have hBoth : comparePathsAndMethods n2.pattern n1.pattern = .equivalent := by
    rw [comparePathsAndMethods, compareMethods, if_pos hMethod.symm, hPaths]
    rfl
  left
  simp [conflictsWith, hHost, hBoth]

/-- Plain patterns clash when they stand for the same route. -/
theorem clash_plain_iff (e1 e2 : Bytes) (handler1 handler2 : H) :
    Clash ⟨plainPattern e1, handler1⟩ ⟨plainPattern e2, handler2⟩ ↔
      (plainPattern e1).segments = (plainPattern e2).segments := by
  have hMulti : ∀ e, (plainPattern e).multi = decide ((pieces e).getLast? = some []) := by
    intro e
    obtain ⟨init, last, hPieces⟩ := pieces_concat e
    rw [plainPattern_multi hPieces, hPieces, List.getLast?_concat]
    simp
  refine ⟨?_, fun hSame => clash_of_same rfl rfl hSame⟩
  rintro (hConflict | hLeaf)
  · have hMethods : compareMethods (plainPattern e2) (plainPattern e1) = .equivalent := if_pos rfl
    simp only [conflictsWith, comparePathsAndMethods, hMethods, combineRelationships, reduceCtorEq, if_false,
      decide_eq_true_eq] at hConflict
    have hJoint := hConflict.2
    unfold comparePaths at hJoint
    split at hJoint
    · simp at hJoint
    · exact ((compareFrom_plain (List.splitOn_ne_nil 47 _) (List.splitOn_ne_nil 47 _) (hMulti e2) (hMulti e1)).mp
        hJoint).symm
  · simp only [sameLeaf, decide_eq_true_eq] at hLeaf
    obtain ⟨-, -, hMulti2, hMulti1, hKeys⟩ := hLeaf
    rw [plainPattern_segments, plainPattern_segments, hKeys, hMulti1, hMulti2]

/-! ## What is registered -/

/-- The nodes of a mux are parsed patterns, no two of which clash. -/
structure Registered (isValidWildcardName : Bytes → Bool) (mux : Mux H) : Prop where
  parsed : ∀ n ∈ mux, parsePattern isValidWildcardName n.pattern.str = some n.pattern
  apart : mux.Pairwise fun n1 n2 => ¬Clash n1 n2

variable {isValidWildcardName : Bytes → Bool}

theorem parsePattern_str {pattern : Bytes} {p : Pattern} (h : parsePattern isValidWildcardName pattern = some p) :
    p.str = pattern := by
  unfold parsePattern at h
  dsimp only at h
  repeat' split at h
  all_goals first | cases h | obtain ⟨segments, -, rfl⟩ := Option.map_eq_some_iff.mp h
  all_goals rfl

theorem handleFunc_eq_ok {mux mux' : Mux H} {pattern : Bytes} {handler : H} :
    HandleFunc isValidWildcardName mux pattern handler = .ok mux' ↔
      ∃ p, parsePattern isValidWildcardName pattern = some p ∧ (∀ n ∈ mux, ¬Clash n ⟨p, handler⟩) ∧
        mux' = mux ++ [⟨p, handler⟩] := by
  unfold HandleFunc
  cases hParse : parsePattern isValidWildcardName pattern with
  | none => exact ⟨nofun, nofun⟩
  | some p =>
    simp only [Option.some.injEq, exists_eq_left']
    split
    · rename_i hClash
      simp only [List.any_eq_true, decide_eq_true_eq] at hClash
      obtain ⟨n, hn, hClash⟩ := hClash
      exact ⟨nofun, fun h => absurd hClash (h.1 n hn)⟩
    · rename_i hFree
      simp only [List.any_eq_true, decide_eq_true_eq, not_exists, not_and] at hFree
      rw [Except.ok.injEq, eq_comm]
      exact ⟨fun h => ⟨hFree, h⟩, And.right⟩

theorem Registered.handleFunc {mux mux' : Mux H} (h : Registered isValidWildcardName mux) {pattern : Bytes} {handler : H}
    (hNext : HandleFunc isValidWildcardName mux pattern handler = .ok mux') : Registered isValidWildcardName mux' := by
  obtain ⟨p, hParse, hFree, rfl⟩ := handleFunc_eq_ok.mp hNext
  constructor
  · intro n hn
    rcases List.mem_append.mp hn with hn | hn
    · exact h.parsed n hn
    · obtain rfl := List.mem_singleton.mp hn
      exact (parsePattern_str hParse).symm ▸ hParse
  · rw [List.pairwise_append]
    refine ⟨h.apart, List.pairwise_singleton _ _, fun n hn last hLast => ?_⟩
    obtain rfl := List.mem_singleton.mp hLast
    exact hFree n hn

theorem Registered.eq_of_same {mux : Mux H} (h : Registered isValidWildcardName mux) {n other : RoutingNode H}
    (hn : n ∈ mux) (hOther : other ∈ mux) (hHost : other.pattern.host = n.pattern.host)
    (hMethod : other.pattern.method = n.pattern.method) (hSegments : other.pattern.segments = n.pattern.segments) :
    other = n := by
  have hUnique : (mux.map fun n => (n.pattern.host, n.pattern.method, n.pattern.segments)).Nodup := by
    refine List.pairwise_map.mpr (h.apart.imp fun hNot hSame => hNot ?_)
    simp only [Prod.mk.injEq] at hSame
    exact clash_of_same hSame.1 hSame.2.1 hSame.2.2
  have hKeys : (other.pattern.host, other.pattern.method, other.pattern.segments) =
      (n.pattern.host, n.pattern.method, n.pattern.segments) := by rw [hHost, hMethod, hSegments]
  exact List.inj_on_of_nodup_map hUnique hOther hn hKeys

/-! ## What a request finds -/

theorem segmentsOf_append (init : List Bytes) (last : Bytes) :
    segmentsOf (init ++ [last]) = init.map pathUnescape ++ [if last = [] then [47] else pathUnescape last] := by
  induction init with
  | nil => rfl
  | cons piece init ih =>
    rw [List.cons_append, segmentsOf, ih, List.map_cons, List.cons_append]
    simp

theorem matchPath_eq_some {mux : Mux H} {host method path : Bytes} {n : RoutingNode H}
    (h : matchPath mux host method path = some n) : n ∈ mux ∧ n.pattern.host = host ∧ n.pattern.method = method ∧
      n.route.Takes [] isSlash (segments path) := by
  obtain ⟨r, hr, hValue, hTakes⟩ := Route.matchPath_eq_some h
  obtain ⟨n', hn', rfl⟩ := List.mem_map.mp hr
  obtain rfl : n' = n := hValue
  have hMem := List.mem_filter.mp hn'
  simp only [decide_eq_true_eq] at hMem
  exact ⟨hMem.1, hMem.2.1, hMem.2.2, hTakes⟩

/-- Without methods and hosts only the path counts. -/
theorem matchNode_plain {mux : Mux H} (hPlain : ∀ n ∈ mux, n.pattern.host = [] ∧ n.pattern.method = [])
    (host method path : Bytes) : matchNode mux host method path =
      Route.matchPath [] isSlash (mux.map RoutingNode.route) (segments path) := by
  have hNone : ∀ host method, host ≠ [] ∨ method ≠ [] → matchPath mux host method path = none := by
    intro host method hSome
    cases hMatch : matchPath mux host method path with
    | none => rfl
    | some n =>
      obtain ⟨hn, rfl, rfl, -⟩ := matchPath_eq_some hMatch
      obtain ⟨hHost, hMethod⟩ := hPlain n hn
      exact absurd hSome (by simp [hHost, hMethod])
  have hAll : matchPath mux [] [] path = Route.matchPath [] isSlash (mux.map RoutingNode.route) (segments path) := by
    rw [matchPath, List.filter_eq_self.mpr fun n hn => by simpa using hPlain n hn]
  have hRoot : matchMethodAndPath mux [] method path = matchPath mux [] [] path := by
    rw [matchMethodAndPath, hNone [] (text "GET") (.inr (by decide)), ite_self, Option.or_none]
    by_cases hMethod : method = []
    · rw [hMethod, Option.or_self]
    · rw [hNone [] method (.inr hMethod), Option.none_or]
  rw [matchNode, hRoot, hAll]
  by_cases hHost : host = []
  · rw [if_pos hHost, Option.none_or]
  · rw [if_neg hHost, matchMethodAndPath, hNone host method (.inl hHost), hNone host _ (.inl hHost), ite_self,
      hNone host [] (.inl hHost)]
    rfl

/-- A clean path that is a pattern itself, without escapes and without a slash at its end, gets the handler of this
pattern, where all patterns are plain. -/
theorem findHandler_self {mux : Mux H} (hMux : Registered isValidWildcardName mux)
    (hPlain : ∀ n ∈ mux, Plain n.pattern.str) {pattern : Bytes} {handler : H}
    (hPattern : ⟨plainPattern pattern, handler⟩ ∈ mux) (hLiteral : 37 ∉ pattern) (hClean : cleanPath pattern = pattern)
    (hEnd : pattern.getLast? ≠ some 47) (method urlHost host path : Bytes) :
    findHandler mux ⟨method, urlHost, host, pattern, path⟩ = .handler handler := by
  have hShape : ∀ n ∈ mux, n.pattern = plainPattern n.pattern.str := fun n hn =>
    Option.some.inj ((hMux.parsed n hn).symm.trans (parsePattern_plain isValidWildcardName (hPlain n hn)))
  have hOwn : Plain pattern := hPlain _ hPattern
  obtain ⟨init, last, -, hPieces, hMap, -, hLast⟩ := pieces_literal hOwn.slash hLiteral
  have hFull : last ≠ [] := fun h => hEnd (hLast.mpr h)
  have hKeys : (plainPattern pattern).keys = pieces pattern := by
    rw [plainPattern_keys hPieces, if_neg hFull, ← hPieces, hMap]
  have hMulti : (plainPattern pattern).multi = false := by rw [plainPattern_multi hPieces, decide_eq_false hFull]
  have hSegments : segments pattern = pieces pattern := by
    have hSome : pattern ≠ [] := by
      rintro rfl
      cases hOwn.slash
    rw [← hMap, segments, if_neg hSome, hPieces, segmentsOf_append, if_neg hFull, List.map_append]
    rfl
  have hMatch : ∀ host, matchNode mux host method pattern = some ⟨plainPattern pattern, handler⟩ := by
    intro host
    have hRoots : ∀ n ∈ mux, n.pattern.host = [] ∧ n.pattern.method = [] := fun n hn => by
      rw [hShape n hn]
      exact ⟨rfl, rfl⟩
    rw [matchNode_plain hRoots, hSegments, ← hKeys]
    refine Route.matchPath_self (r := RoutingNode.route ⟨plainPattern pattern, handler⟩) (List.mem_map_of_mem hPattern)
      hMulti fun other hOther hSameKeys hSameEnd => ?_
    obtain ⟨n, hn, rfl⟩ := List.mem_map.mp hOther
    have hSame : n.pattern.segments = (plainPattern pattern).segments := by
      have hKeys' : (plainPattern n.pattern.str).keys = (plainPattern pattern).keys := hShape n hn ▸ hSameKeys
      have hMulti' : (plainPattern n.pattern.str).multi = (plainPattern pattern).multi := hShape n hn ▸ hSameEnd
      rw [hShape n hn, plainPattern_segments, plainPattern_segments, hKeys', hMulti']
    rw [hMux.eq_of_same hPattern hn (hRoots n hn).1 (hRoots n hn).2 hSame]
  unfold findHandler
  dsimp only
  rw [hClean, ite_self, hMatch, hMatch, if_neg, if_neg (not_not.mpr rfl)]
  rintro ⟨hNot, -⟩
  simp [exactMatch, hMulti] at hNot

end

end Columbia.Gateway.ServeMux
