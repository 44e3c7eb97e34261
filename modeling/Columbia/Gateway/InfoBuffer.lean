import Columbia.Gateway.Ohttp
import Columbia.Lib.Transition

/-! # The info of a request, appended to a shared label

`DecapsulateRequest` starts from the label of the gateway, which all calls share, and appends to it. What fits into the
capacity of the label is written behind it in place, where every other call writes as well; the first append that does
not fit copies the bytes so far. Bytes are written and read one at a time, by calls that run side by side.
-/
namespace Columbia.Gateway.InfoBuffer
open Columbia.Js Columbia.Lib Columbia.Gateway.Hpke Columbia.Gateway.Ohttp
set_option autoImplicit false

/-- The slice `info` is the label and `n` bytes behind it, until it has an array of its own. -/
inductive Call
  | idle
  | appending (req : EncapsulatedRequest) (n : Nat) (chunks : List Bytes)
  | writing (req : EncapsulatedRequest) (n : Nat) (rest : Bytes) (chunks : List Bytes)
  | copying (req : EncapsulatedRequest) (copied : Bytes) (n : Nat) (chunk : Bytes) (chunks : List Bytes)
  | owning (req : EncapsulatedRequest) (info : Bytes) (chunks : List Bytes)

inductive Action
  | decapsulate (req : EncapsulatedRequest)
  | advance

/-- What is appended, one after the other. -/
def chunks (req : EncapsulatedRequest) : List Bytes :=
  [[0x00], [req.KeyID], uint16BE req.kemID.toNat, uint16BE req.kdfID.toNat, uint16BE req.aeadID.toNat]

/-- The bytes behind the label. -/
abbrev Cells := Nat → UInt8

section
variable (label : Bytes) (spare : Nat) (accepts : EncapsulatedRequest → Bool)

def advance (cells : Cells) : Call → Option (Cells × Call)
  | .idle => none
  | .appending req n (chunk :: rest) =>
    some (cells, if n + chunk.length ≤ spare then .writing req n chunk rest else .copying req [] n chunk rest)
  -- the key schedule reads `info` once
  | .appending req n [] => some (cells, .copying req [] n [] [])
  | .writing req n (b :: rest) chunks => some (Function.update cells n b, .writing req (n + 1) rest chunks)
  | .writing req n [] chunks => some (cells, .appending req n chunks)
  | .copying req copied n chunk chunks =>
    some (cells, if copied.length < n then .copying req (copied ++ [cells copied.length]) n chunk chunks
      else .owning req (label ++ copied ++ chunk) chunks)
  | .owning req info (chunk :: rest) => some (cells, .owning req (info ++ chunk) rest)
  | .owning _ _ [] => none

def act (_ : Nat) (action : Action) (cells : Cells) (call : Call) : Option (Cells × Call) :=
  match action, call with
  | .decapsulate req, .idle => if accepts req then some (cells, .appending req 0 (chunks req)) else none
  | .decapsulate _, _ => none
  | .advance, call => advance label spare cells call

/-- Calls of `DecapsulateRequest` for requests whose key and suite are known, over a label with spare capacity. -/
def decapsulations : Calls Cells Call Action Empty where
  start := fun _ => 0
  idle := .idle
  act := act label spare accepts
  env := nofun

/-- What of the chunks is written in place. -/
def fitting (n : Nat) : List Bytes → Bytes
  | [] => []
  | chunk :: rest => if n + chunk.length ≤ spare then chunk ++ fitting (n + chunk.length) rest else []

def inPlace (req : EncapsulatedRequest) : Bytes := fitting spare 0 (chunks req)

end

theorem requestInfo_eq (label : Bytes) (req : EncapsulatedRequest) :
    requestInfo label req.KeyID req.kemID req.kdfID req.aeadID = label ++ (chunks req).flatten := by
  simp [requestInfo, chunks]

/-! ## Calls that agree on what they write in place -/

/-- These bytes are behind the label. -/
def Holds (cells : Cells) (bytes : Bytes) : Prop := ∀ k b, bytes[k]? = some b → cells k = b

section
variable {label : Bytes} {spare : Nat} {accepts : EncapsulatedRequest → Bool}

/-- What a call relies on: `front` is what it has put behind the label so far. -/
def Relies (spare : Nat) (accepts : EncapsulatedRequest → Bool) (label : Bytes) (cells : Cells) : Call → Prop
  | .idle => True
  | .appending req n rest => accepts req = true ∧ ∃ front, front.length = n ∧ Holds cells front ∧
      (chunks req).flatten = front ++ rest.flatten ∧ inPlace spare req = front ++ fitting spare n rest
  | .writing req n chunk rest => accepts req = true ∧ ∃ front, front.length = n ∧ Holds cells front ∧
      (chunks req).flatten = front ++ (chunk ++ rest.flatten) ∧
      inPlace spare req = front ++ (chunk ++ fitting spare (n + chunk.length) rest)
  | .copying req copied n chunk rest => accepts req = true ∧ ∃ front, front.length = n ∧ Holds cells front ∧
      (chunks req).flatten = front ++ (chunk ++ rest.flatten) ∧ front <+: inPlace spare req ∧ copied <+: front
  | .owning req info rest => accepts req = true ∧ info ++ rest.flatten = label ++ (chunks req).flatten

theorem holds_append {cells : Cells} {front : Bytes} {b : UInt8} (h : Holds cells front) :
    Holds (Function.update cells front.length b) (front ++ [b]) := by
  intro k c hGet
  rcases Nat.lt_trichotomy k front.length with hBefore | rfl | hAfter
  · rw [List.getElem?_append_left hBefore] at hGet
    rw [Function.update_of_ne (Nat.ne_of_lt hBefore)]
    exact h k c hGet
  · rw [List.getElem?_concat_length] at hGet
    rw [Function.update_self]
    exact Option.some.inj hGet
  · rw [List.getElem?_eq_none (by simp; omega)] at hGet
    cases hGet

/-- Where all agree, a write of another call puts there what is there. -/
theorem holds_update {cells : Cells} {front whole : Bytes} {n : Nat} {b : UInt8} (h : Holds cells front)
    (hPrefix : front <+: whole) (hWrites : whole[n]? = some b) : Holds (Function.update cells n b) front := by
  intro k c hGet
  by_cases hk : k = n
  · subst hk
    obtain ⟨back, rfl⟩ := hPrefix
    obtain ⟨hLess, -⟩ := List.getElem?_eq_some_iff.mp hGet
    rw [List.getElem?_append_left hLess, hGet] at hWrites
    rw [Function.update_self]
    exact (Option.some.inj hWrites).symm
  · rw [Function.update_of_ne hk]
    exact h k c hGet

/-- A call keeps what it relies on. -/
theorem advance_relies {cells cells' : Cells} {call call' : Call} (h : Relies spare accepts label cells call)
    (hStep : advance label spare cells call = some (cells', call')) : Relies spare accepts label cells' call' := by
  cases call with
  | idle => cases hStep
  | appending req n rest =>
    obtain ⟨hAccepts, front, rfl, hHolds, hChunks, hPlace⟩ := h
    have hPrefix : front <+: inPlace spare req := by
      rw [hPlace]
      exact List.prefix_append _ _
    cases rest with
    | nil =>
      cases hStep
      exact ⟨hAccepts, front, rfl, hHolds, hChunks, hPrefix, List.nil_prefix⟩
    | cons chunk rest =>
      cases hStep
      rw [fitting] at hPlace
      split
      · rename_i hFits
        rw [if_pos hFits] at hPlace
        exact ⟨hAccepts, front, rfl, hHolds, hChunks, hPlace⟩
      · exact ⟨hAccepts, front, rfl, hHolds, hChunks, hPrefix, List.nil_prefix⟩
  | writing req n chunk rest =>
    obtain ⟨hAccepts, front, rfl, hHolds, hChunks, hPlace⟩ := h
    cases chunk with
    | nil =>
      cases hStep
      exact ⟨hAccepts, front, rfl, hHolds, hChunks, hPlace⟩
    | cons b chunk =>
      cases hStep
      refine ⟨hAccepts, front ++ [b], by simp, holds_append hHolds, by simpa using hChunks, ?_⟩
      rw [hPlace, List.length_cons, Nat.add_right_comm, Nat.add_assoc, List.append_assoc, ← Nat.add_assoc]
      rfl
  | copying req copied n chunk rest =>
    obtain ⟨hAccepts, front, rfl, hHolds, hChunks, hPlace, hCopied⟩ := h
    cases hStep
    split
    · rename_i hLess
      refine ⟨hAccepts, front, rfl, hHolds, hChunks, hPlace, ?_⟩
      obtain ⟨back, rfl⟩ := hCopied
      cases back with
      | nil =>
        rw [List.append_nil] at hLess
        exact absurd hLess (Nat.lt_irrefl _)
      | cons b back =>
        rw [hHolds copied.length b (by simp)]
        exact ⟨back, by simp⟩
    · rename_i hDone
      have hSame : copied = front := hCopied.eq_of_length (Nat.le_antisymm hCopied.length_le (Nat.not_lt.mp hDone))
      subst hSame
      refine ⟨hAccepts, ?_⟩
      rw [hChunks]
      simp
  | owning req info rest =>
    obtain ⟨hAccepts, hInfo⟩ := h
    cases rest with
    | nil => cases hStep
    | cons chunk rest =>
      cases hStep
      refine ⟨hAccepts, ?_⟩
      rw [← hInfo, List.append_assoc]
      rfl

/-- What another call does to the cells. -/
theorem advance_cells {cells cells' : Cells} {call call' : Call} (h : Relies spare accepts label cells call)
    (hStep : advance label spare cells call = some (cells', call')) : cells' = cells ∨ ∃ req n b,
      accepts req = true ∧ (inPlace spare req)[n]? = some b ∧ cells' = Function.update cells n b := by
  cases call with
  | writing req n chunk rest =>
    cases chunk with
    | nil =>
      cases hStep
      exact .inl rfl
    | cons b chunk =>
      obtain ⟨hAccepts, front, rfl, -, -, hPlace⟩ := h
      cases hStep
      refine .inr ⟨req, front.length, b, hAccepts, ?_, rfl⟩
      rw [hPlace]
      simp
  | idle => cases hStep
  | appending req n rest =>
    left
    cases rest <;> cases hStep <;> rfl
  | copying req copied n chunk rest =>
    cases hStep
    exact .inl rfl
  | owning req info rest =>
    left
    cases rest <;> cases hStep
    rfl

theorem relies_of_holds {cells cells' : Cells} {call : Call} (h : Relies spare accepts label cells call)
    (hHolds : ∀ req front, accepts req = true → front <+: inPlace spare req → Holds cells front → Holds cells' front) :
    Relies spare accepts label cells' call := by
  cases call with
  | idle => trivial
  | appending req n rest =>
    obtain ⟨hAccepts, front, hLength, hFront, hChunks, hPlace⟩ := h
    exact ⟨hAccepts, front, hLength, hHolds req front hAccepts (hPlace ▸ List.prefix_append _ _) hFront, hChunks, hPlace⟩
  | writing req n chunk rest =>
    obtain ⟨hAccepts, front, hLength, hFront, hChunks, hPlace⟩ := h
    exact ⟨hAccepts, front, hLength, hHolds req front hAccepts (hPlace ▸ List.prefix_append _ _) hFront, hChunks, hPlace⟩
  | copying req copied n chunk rest =>
    obtain ⟨hAccepts, front, hLength, hFront, hChunks, hPlace, hCopied⟩ := h
    exact ⟨hAccepts, front, hLength, hHolds req front hAccepts hPlace hFront, hChunks, hPlace, hCopied⟩
  | owning req info rest => exact h

theorem decapsulate_eq_some (i : Nat) {req : EncapsulatedRequest} {cells cells' : Cells} {call call' : Call} :
    act label spare accepts i (.decapsulate req) cells call = some (cells', call') ↔
      call = .idle ∧ accepts req = true ∧ cells' = cells ∧ call' = .appending req 0 (chunks req) := by
  cases call with
  | idle =>
    unfold act
    dsimp only
    split
    · rename_i hAccepts
      simp [hAccepts, eq_comm]
    · rename_i hAccepts
      simp [hAccepts]
  | _ => simp [act]

theorem relies_of_agree (hAgree : ∀ req other, accepts req = true → accepts other = true →
    inPlace spare req = inPlace spare other) {p : Pool Cells Call}
    (h : (decapsulations label spare accepts).system.Reachable p) (i : Nat) :
    Relies spare accepts label p.shared (p.calls i) := by
  refine (Calls.invariant (C := decapsulations label spare accepts) (fun _ => True)
    (fun _ cells call => Relies spare accepts label cells call) trivial (fun _ => True.intro) ?_ ?_ nofun h).2 i
  · intro p i action cells call _ _ hRelies hAct
    refine ⟨trivial, ?_⟩
    cases action with
    | advance => exact advance_relies hRelies hAct
    | decapsulate req =>
      obtain ⟨-, hAccepts, rfl, rfl⟩ := (decapsulate_eq_some i).mp hAct
      exact ⟨hAccepts, [], rfl, nofun, rfl, rfl⟩
  · intro p i j action cells call _ hji _ hOwn hOther hAct
    cases action with
    | decapsulate req =>
      obtain ⟨-, -, rfl, -⟩ := (decapsulate_eq_some i).mp hAct
      exact hOther
    | advance =>
      rcases advance_cells hOwn hAct with rfl | ⟨req, n, b, hAccepts, hWrites, rfl⟩
      · exact hOther
      · refine relies_of_holds hOther fun other front hOtherAccepts hPrefix hHolds => ?_
        rw [hAgree req other hAccepts hOtherAccepts] at hWrites
        exact holds_update hHolds hPrefix hWrites

/-! ## Calls that do not -/

/-- What is behind the label once these bytes are written from the `n`-th cell on. -/
def writeAt (cells : Cells) (n : Nat) : Bytes → Cells
  | [] => cells
  | b :: rest => writeAt (Function.update cells n b) (n + 1) rest

theorem writeAt_of_lt {cells : Cells} {n k : Nat} (bytes : Bytes) (h : k < n) : writeAt cells n bytes k = cells k := by
  induction bytes generalizing cells n with
  | nil => rfl
  | cons b rest ih =>
    rw [writeAt, ih (Nat.lt_succ_of_lt h), Function.update_of_ne (Nat.ne_of_lt h)]

theorem writeAt_get (cells : Cells) (n : Nat) {k : Nat} {bytes : Bytes} {b : UInt8} (h : bytes[k]? = some b) :
    writeAt cells n bytes (n + k) = b := by
  induction bytes generalizing cells n k with
  | nil => cases h
  | cons c rest ih =>
    cases k with
    | zero =>
      rw [writeAt, Nat.add_zero]
      refine (writeAt_of_lt rest (Nat.lt_add_one n)).trans ?_
      rw [Function.update_self]
      exact Option.some.inj h
    | succ k =>
      have hStep : n + (k + 1) = n + 1 + k := by omega
      rw [writeAt, hStep]
      exact ih _ _ (by simpa using h)

theorem range_writeAt (cells : Cells) (bytes : Bytes) :
    (List.range bytes.length).map (writeAt cells 0 bytes) = bytes := by
  apply List.ext_getElem (by simp)
  intro k hLess hBytes
  rw [List.getElem_map, List.getElem_range]
  have hGet := writeAt_get cells 0 (List.getElem?_eq_getElem hBytes)
  rwa [Nat.zero_add] at hGet

theorem fitting_length {n : Nat} {chunks others : List Bytes} (h : chunks.map List.length = others.map List.length) :
    (fitting spare n chunks).length = (fitting spare n others).length := by
  induction chunks generalizing n others with
  | nil =>
    rw [List.map_nil, eq_comm, List.map_eq_nil_iff] at h
    rw [h]
  | cons chunk rest ih =>
    cases others with
    | nil => cases h
    | cons other others =>
      obtain ⟨hHead, hRest⟩ := List.cons.inj h
      rw [fitting, fitting, hHead]
      split
      · rw [List.length_append, List.length_append, hHead, ih hRest]
      · rfl

variable {calls : Nat → Call} {cells : Cells} {i : Nat} {req : EncapsulatedRequest}

theorem reachable_advance {call call' : Call} {cells' : Cells}
    (h : (decapsulations label spare accepts).system.Reachable ⟨cells, Function.update calls i call⟩)
    (hStep : advance label spare cells call = some (cells', call')) :
    (decapsulations label spare accepts).system.Reachable ⟨cells', Function.update calls i call'⟩ := by
  have hAct : (decapsulations label spare accepts).act i .advance cells (Function.update calls i call i) =
      some (cells', call') := by
    rw [Function.update_self]
    exact hStep
  have hNext := Calls.system_next_of_act (p := ⟨cells, Function.update calls i call⟩) hAct
  rw [Function.update_idem] at hNext
  exact .step h trivial hNext

theorem reachable_written {n : Nat} (chunk : Bytes) {rest : List Bytes}
    (h : (decapsulations label spare accepts).system.Reachable
      ⟨cells, Function.update calls i (.writing req n chunk rest)⟩) :
    (decapsulations label spare accepts).system.Reachable
      ⟨writeAt cells n chunk, Function.update calls i (.appending req (n + chunk.length) rest)⟩ := by
  induction chunk generalizing cells n with
  | nil => exact reachable_advance h rfl
  | cons b chunk ih =>
    have hNext := ih (reachable_advance h rfl)
    rwa [Nat.add_assoc, Nat.add_comm 1] at hNext

theorem writeAt_append (cells : Cells) (n : Nat) (first second : Bytes) :
    writeAt cells n (first ++ second) = writeAt (writeAt cells n first) (n + first.length) second := by
  induction first generalizing cells n with
  | nil => rfl
  | cons b first ih =>
    rw [List.cons_append, writeAt, ih, writeAt, List.length_cons, Nat.add_assoc, Nat.add_comm 1]

/-- A call that is not interrupted fills the capacity, and has some chunks left, of which the first does not fit. -/
theorem reachable_filled {n : Nat} (rest : List Bytes)
    (h : (decapsulations label spare accepts).system.Reachable ⟨cells, Function.update calls i (.appending req n rest)⟩) :
    ∃ left, rest.flatten = fitting spare n rest ++ left.flatten ∧
      (∀ chunk ∈ left.head?, spare < n + (fitting spare n rest).length + chunk.length) ∧
      (decapsulations label spare accepts).system.Reachable ⟨writeAt cells n (fitting spare n rest),
        Function.update calls i (.appending req (n + (fitting spare n rest).length) left)⟩ := by
  induction rest generalizing cells n with
  | nil => exact ⟨[], rfl, nofun, h⟩
  | cons chunk rest ih =>
    by_cases hFits : n + chunk.length ≤ spare
    · have hWriting := reachable_advance h (by rw [advance, if_pos hFits])
      obtain ⟨left, hRest, hLeft, hFilled⟩ := ih (reachable_written chunk hWriting)
      have hFitting : fitting spare n (chunk :: rest) = chunk ++ fitting spare (n + chunk.length) rest := by
        rw [fitting, if_pos hFits]
      refine ⟨left, ?_, ?_, ?_⟩
      · rw [hFitting, List.append_assoc, ← hRest]
        rfl
      · rwa [hFitting, List.length_append, ← Nat.add_assoc]
      · rwa [hFitting, List.length_append, ← Nat.add_assoc, writeAt_append]
    · have hFitting : fitting spare n (chunk :: rest) = [] := by rw [fitting, if_neg hFits]
      refine ⟨chunk :: rest, by rw [hFitting]; rfl, ?_, ?_⟩
      · rintro _ ⟨⟩
        rw [hFitting]
        exact Nat.not_le.mp hFits
      · rw [hFitting]
        exact h

theorem reachable_copied {n : Nat} {chunk : Bytes} {rest : List Bytes} {k : Nat} (hLe : k ≤ n)
    (h : (decapsulations label spare accepts).system.Reachable
      ⟨cells, Function.update calls i (.copying req [] n chunk rest)⟩) :
    (decapsulations label spare accepts).system.Reachable
      ⟨cells, Function.update calls i (.copying req ((List.range k).map cells) n chunk rest)⟩ := by
  induction k with
  | zero => exact h
  | succ k ih =>
    have hNext := reachable_advance (ih (Nat.le_of_succ_le hLe)) rfl
    rw [List.length_map, List.length_range, if_pos (Nat.lt_of_succ_le hLe)] at hNext
    rwa [List.range_succ, List.map_append]

theorem reachable_owned {info : Bytes} (rest : List Bytes)
    (h : (decapsulations label spare accepts).system.Reachable ⟨cells, Function.update calls i (.owning req info rest)⟩) :
    (decapsulations label spare accepts).system.Reachable
      ⟨cells, Function.update calls i (.owning req (info ++ rest.flatten) [])⟩ := by
  induction rest generalizing info with
  | nil => rwa [List.flatten_nil, List.append_nil]
  | cons chunk rest ih =>
    rw [List.flatten_cons, ← List.append_assoc]
    exact ih (reachable_advance h rfl)

/-- From there on the call reads what is behind the label, whoever has written it. -/
theorem reachable_finished {n : Nat} {left : List Bytes} (hLeft : ∀ chunk ∈ left.head?, spare < n + chunk.length)
    (h : (decapsulations label spare accepts).system.Reachable ⟨cells, Function.update calls i (.appending req n left)⟩) :
    (decapsulations label spare accepts).system.Reachable ⟨cells, Function.update calls i
      (.owning req (label ++ (List.range n).map cells ++ left.flatten) [])⟩ := by
  have hOwn : ∀ {chunk rest}, (decapsulations label spare accepts).system.Reachable
      ⟨cells, Function.update calls i (.copying req [] n chunk rest)⟩ →
      (decapsulations label spare accepts).system.Reachable ⟨cells, Function.update calls i
        (.owning req (label ++ (List.range n).map cells ++ chunk ++ rest.flatten) [])⟩ := by
    intro chunk rest hCopying
    have hNext := reachable_advance (reachable_copied (Nat.le_refl n) hCopying) rfl
    rw [if_neg (by simp)] at hNext
    exact reachable_owned rest hNext
  cases left with
  | nil =>
    have hCopying := reachable_advance h rfl
    simpa using hOwn hCopying
  | cons chunk rest =>
    have hFull : ¬n + chunk.length ≤ spare := Nat.not_le.mpr (hLeft chunk rfl)
    have hCopying := reachable_advance h (by rw [advance, if_neg hFull])
    rw [List.flatten_cons, ← List.append_assoc]
    exact hOwn hCopying

theorem reachable_decapsulate (hAccepts : accepts req = true) (hIdle : calls i = .idle)
    (h : (decapsulations label spare accepts).system.Reachable ⟨cells, calls⟩) :
    (decapsulations label spare accepts).system.Reachable
      ⟨cells, Function.update calls i (.appending req 0 (chunks req))⟩ := by
  have hAct : (decapsulations label spare accepts).act i (.decapsulate req) cells (calls i) =
      some (cells, .appending req 0 (chunks req)) := (decapsulate_eq_some i).mpr ⟨hIdle, hAccepts, rfl, rfl⟩
  exact .step h trivial (Calls.system_next_of_act (p := ⟨cells, calls⟩) hAct)

/-- Both calls fill the capacity, one after the other; then the first one goes on, and finds what the second one wrote. -/
theorem mixed_info (label : Bytes) {other : EncapsulatedRequest} (hAccepts : accepts req = true)
    (hOther : accepts other = true)
    (hDiffer : inPlace spare req ≠ inPlace spare other) : ∃ p info,
    (decapsulations label spare accepts).system.Reachable p ∧ p.calls 0 = .owning req info [] ∧
      info ≠ label ++ (chunks req).flatten := by
  have hStart : (decapsulations label spare accepts).system.Reachable ⟨fun _ => 0, fun _ => .idle⟩ := .start
  obtain ⟨left, hFirst, hLeft, hFilled⟩ := reachable_filled _ (reachable_decapsulate (i := 0) hAccepts rfl hStart)
  obtain ⟨left', -, -, hBoth⟩ := reachable_filled _ (reachable_decapsulate (i := 1) hOther rfl hFilled)
  rw [Function.update_comm (by decide)] at hBoth
  have hFinished := reachable_finished hLeft hBoth
  refine ⟨_, _, hFinished, rfl, ?_⟩
  have hLength : (fitting spare 0 (chunks req)).length = (fitting spare 0 (chunks other)).length := fitting_length rfl
  rw [Nat.zero_add, hLength, range_writeAt, hFirst, List.append_assoc]
  intro hSame
  exact hDiffer (List.append_inj (List.append_cancel_left hSame) hLength.symm).1.symm

/-- Calls that run side by side get their own infos, in every interleaving, exactly if all requests have the same bytes
where the label's capacity lets them be written in place. -/
theorem infos_own_iff (label : Bytes) (spare : Nat) (accepts : EncapsulatedRequest → Bool) :
    (∀ p i req info, (decapsulations label spare accepts).system.Reachable p → p.calls i = .owning req info [] →
      info = requestInfo label req.KeyID req.kemID req.kdfID req.aeadID) ↔
    ∀ req other, accepts req = true → accepts other = true → inPlace spare req = inPlace spare other := by
  constructor
  · intro hOwn req other hAccepts hOther
    by_contra hDiffer
    obtain ⟨p, info, hReach, hCall, hMixed⟩ := mixed_info label hAccepts hOther hDiffer
    exact hMixed ((hOwn p 0 req info hReach hCall).trans (requestInfo_eq label req))
  · intro hAgree p i req info hReach hCall
    have hRelies := relies_of_agree hAgree hReach i
    rw [hCall] at hRelies
    rw [requestInfo_eq, ← hRelies.2]
    simp

/-! ## A gateway with several keys -/

variable {SK PK : Type} {P : Primitives SK PK}

/-- What `DecapsulateRequest` checks before it makes `info`. -/
def accepted (g : OhttpGateway SK) (req : EncapsulatedRequest) : Bool :=
  match g.keyMap.get? req.KeyID with
  | none => false
  | some config => kemIsValid config.publicConfig.KEMID && kdfIsValid req.kdfID && aeadIsValid req.aeadID

theorem inPlace_of_two_le (hSpare : 2 ≤ spare) (req : EncapsulatedRequest) : (inPlace spare req)[1]? = some req.KeyID := by
  have hFirst : 0 + [(0 : UInt8)].length ≤ spare := by
    change 1 ≤ spare
    omega
  have hSecond : 0 + [(0 : UInt8)].length + [req.KeyID].length ≤ spare := hSpare
  rw [inPlace, chunks, fitting, if_pos hFirst, fitting, if_pos hSecond]
  rfl

theorem inPlace_of_le_one (hSpare : spare ≤ 1) (req other : EncapsulatedRequest) :
    inPlace spare req = inPlace spare other := by
  rcases Nat.le_one_iff_eq_zero_or_eq_one.mp hSpare with rfl | rfl
  · rfl
  · rfl

/-- With more than one key, the infos of requests that are opened at the same time are their own, in every interleaving,
exactly if the label has no room for a key identifier behind it. -/
theorem infos_mix_between_keys {configs : List (PrivateConfig SK)} {g : OhttpGateway SK} (h : GatewayOf configs g)
    (hDerived : ∀ config ∈ configs, Derived P config) (hTwo : 2 ≤ configs.length) (spare : Nat) :
    (∀ p i req info, (decapsulations g.requestLabel spare (accepted g)).system.Reachable p →
      p.calls i = .owning req info [] → info = requestInfo g.requestLabel req.KeyID req.kemID req.kdfID req.aeadID) ↔
    spare ≤ 1 := by
  rw [infos_own_iff]
  constructor
  · intro hAgree
    by_contra hSpare
    obtain ⟨first, second, rest, rfl⟩ : ∃ first second rest, configs = first :: second :: rest := by
      match configs, hTwo with
      | first :: second :: rest, _ => exact ⟨first, second, rest, rfl⟩
    have hAccepted : ∀ config ∈ first :: second :: rest,
        accepted g ⟨config.publicConfig.ID, 0x20, 1, 1, [], []⟩ = true := by
      intro config hConfig
      have hKem := (hDerived config hConfig).valid.kem
      simp only [accepted, h.get?.mpr ⟨hConfig, rfl⟩, hKem]
      rfl
    have hSame := hAgree _ _ (hAccepted first (by simp)) (hAccepted second (by simp))
    have hKey := congrArg (·[1]?) hSame
    simp only [inPlace_of_two_le (by omega : 2 ≤ spare), Option.some.injEq] at hKey
    have hNodup := h.maps.1
    rw [List.map_cons, List.map_cons, List.nodup_cons, List.mem_cons, not_or] at hNodup
    exact hNodup.1.1 hKey
  · exact fun hSpare req other _ _ => inPlace_of_le_one hSpare req other

/-- The runtime gives the default label room for three bytes more. -/
theorem infos_mix_between_keys_default :
    (∀ p i req info, (decapsulations defaultLabelRequest 3 (accepted testGateway)).system.Reachable p →
      p.calls i = .owning req info [] → info = requestInfo defaultLabelRequest req.KeyID req.kemID req.kdfID req.aeadID) ↔
    3 ≤ 1 :=
  infos_mix_between_keys testGateway_of testConfigs_derived (by decide) 3

end

end Columbia.Gateway.InfoBuffer
