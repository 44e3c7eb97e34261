import Mathlib.Data.List.Basic
import Mathlib.Logic.Function.Basic

/-! # A remote table with conditional writes, lost acknowledgements and late commits

A write names the etag it expects (`none` creates). It is atomic on the table, but its caller may see an
error although it took effect, or before it takes effect, or without any effect. Writes that were given
up on stay in flight until they commit or vanish. The history of effects is kept with the row each
effect replaced.
-/
namespace Columbia.Lib
set_option autoImplicit false

structure RemoteError where
  statusCode : Option Nat
  tableNotFound : Bool
  deriving DecidableEq

structure Write (K V : Type) where
  key : K
  etag : Option Nat
  value : V

structure Effect (K V : Type) where
  owner : Nat
  write : Write K V
  before : Option (Nat × V)

structure RemoteTable (K V : Type) where
  created : Bool
  rows : K → Option (Nat × V)
  revision : Nat
  inflight : List (Nat × Write K V)
  effects : List (Effect K V)

inductive Fault
  | none
  | before (error : RemoteError)
  | lost (error : RemoteError)
  | late (error : RemoteError)

namespace RemoteTable
variable {K V : Type} [DecidableEq K]

def empty : RemoteTable K V := ⟨false, fun _ => none, 0, [], []⟩

def accepts (s : RemoteTable K V) (w : Write K V) : Bool := s.created ∧ (s.rows w.key).map (·.1) = w.etag

def performed (s : RemoteTable K V) (owner : Nat) (w : Write K V) : RemoteTable K V where
  created := s.created
  rows := Function.update s.rows w.key (some (s.revision + 1, w.value))
  revision := s.revision + 1
  inflight := s.inflight
  effects := s.effects ++ [⟨owner, w, s.rows w.key⟩]

def commit (s : RemoteTable K V) (owner : Nat) (w : Write K V) : RemoteTable K V :=
  if s.accepts w then s.performed owner w else s

def refusal (s : RemoteTable K V) (w : Write K V) : RemoteError :=
  if s.created then ⟨some (if w.etag.isNone then 409 else 412), false⟩ else ⟨some 404, true⟩

/-- One write call. Only errors that `ambiguous` allows may be reported for a write that can take effect. -/
def write (ambiguous : RemoteError → Bool) (s : RemoteTable K V) (owner : Nat) (w : Write K V) :
    Fault → Option (RemoteTable K V × Except RemoteError Unit)
  | .none => some (s.commit owner w, if s.accepts w then .ok () else .error (s.refusal w))
  | .before error => some (s, .error error)
  | .lost error => if ambiguous error then some (s.commit owner w, .error error) else none
  | .late error =>
    if ambiguous error then some ({ s with inflight := s.inflight ++ [(owner, w)] }, .error error) else none

def createTable (s : RemoteTable K V) : Fault → RemoteTable K V × Except RemoteError Unit
  | .none => ({ s with created := true }, if s.created then .error ⟨some 409, false⟩ else .ok ())
  | .before error | .late error => (s, .error error)
  | .lost error => ({ s with created := true }, .error error)

def read (s : RemoteTable K V) (key : K) : Fault → Except RemoteError (Nat × V)
  | .none =>
    if s.created then
      match s.rows key with
      | some row => .ok row
      | none => .error ⟨some 404, false⟩
    else .error ⟨some 404, true⟩
  | .before error | .lost error | .late error => .error error

inductive Event
  | tableAppears
  | settle (n : Nat) (takesEffect : Bool)

/-- What happens to the table after its callers gave up. -/
def settle (s : RemoteTable K V) : Event → Option (RemoteTable K V)
  | .tableAppears => some { s with created := true }
  | .settle n takesEffect =>
    match s.inflight[n]? with
    | none => none
    | some (owner, w) =>
      let rest := { s with inflight := s.inflight.eraseIdx n }
      some (if takesEffect then rest.commit owner w else rest)

theorem performed_rows (s : RemoteTable K V) (owner : Nat) (w : Write K V) (key : K) :
    (s.performed owner w).rows key = if key = w.key then some (s.revision + 1, w.value) else s.rows key :=
  Function.update_apply ..

theorem commit_cases (s : RemoteTable K V) (owner : Nat) (w : Write K V) :
    (s.accepts w = false ∧ s.commit owner w = s) ∨
      (s.accepts w = true ∧ (s.rows w.key).map (·.1) = w.etag ∧ s.commit owner w = s.performed owner w) := by
  unfold commit
  cases h : s.accepts w with
  | false => exact .inl ⟨rfl, rfl⟩
  | true =>
    have hEtag := h
    simp only [accepts, decide_eq_true_eq] at hEtag
    exact .inr ⟨rfl, hEtag.2, rfl⟩

@[simp] theorem commit_inflight (s : RemoteTable K V) (owner : Nat) (w : Write K V) :
    (s.commit owner w).inflight = s.inflight := by
  unfold commit
  split <;> rfl

def Etags (s : RemoteTable K V) : Prop := ∀ key row, s.rows key = some row → row.1 ≤ s.revision

/-- A row seen earlier: while the row still carries the etag it is unchanged. -/
def Seen (s : RemoteTable K V) (key : K) (prior : Option (Nat × V)) : Prop :=
  ∀ p, prior = some p → p.1 ≤ s.revision ∧ ∀ row, s.rows key = some row → row.1 = p.1 → row = p

omit [DecidableEq K] in
theorem Seen.eq_of_etag {s : RemoteTable K V} {key : K} {prior : Option (Nat × V)} (h : s.Seen key prior)
    (hEtag : (s.rows key).map (·.1) = prior.map (·.1)) : s.rows key = prior := by
  cases prior with
  | none => simpa using hEtag
  | some p =>
    obtain ⟨row, hRow, hrp⟩ := Option.map_eq_some_iff.mp hEtag
    rw [hRow, (h p rfl).2 row hRow hrp]

omit [DecidableEq K] in
theorem Etags.seen {s : RemoteTable K V} (h : s.Etags) (key : K) : s.Seen key (s.rows key) := by
  intro p hp
  refine ⟨h key p hp, fun row hRow _ => ?_⟩
  rw [hp] at hRow
  exact (Option.some.inj hRow).symm

omit [DecidableEq K] in
theorem seen_none (s : RemoteTable K V) (key : K) : s.Seen key none := nofun

theorem Etags.commit {s : RemoteTable K V} (h : s.Etags) (owner : Nat) (w : Write K V) :
    (s.commit owner w).Etags := by
  rcases s.commit_cases owner w with ⟨-, hSame⟩ | ⟨-, -, hNew⟩
  · rwa [hSame]
  · rw [hNew]
    intro key row hRow
    rw [performed_rows] at hRow
    split at hRow
    · cases hRow
      exact Nat.le_refl _
    · exact Nat.le_succ_of_le (h key row hRow)

theorem Seen.commit {s : RemoteTable K V} {key : K} {prior : Option (Nat × V)} (h : s.Seen key prior)
    (owner : Nat) (w : Write K V) : (s.commit owner w).Seen key prior := by
  rcases s.commit_cases owner w with ⟨-, hSame⟩ | ⟨-, -, hNew⟩
  · rwa [hSame]
  · rw [hNew]
    intro p hp
    obtain ⟨hOld, hKeep⟩ := h p hp
    refine ⟨Nat.le_succ_of_le hOld, fun row hRow hrp => ?_⟩
    rw [performed_rows] at hRow
    split at hRow
    · cases hRow
      simp only at hrp
      omega
    · exact hKeep row hRow hrp

theorem commit_create_keeps {s : RemoteTable K V} {key : K} {row : Nat × V} (hRow : s.rows key = some row)
    (owner : Nat) {w : Write K V} (hCreate : w.key = key → w.etag = none) : (s.commit owner w).rows key = some row := by
  rcases s.commit_cases owner w with ⟨-, hSame⟩ | ⟨-, hEtag, hNew⟩
  · rwa [hSame]
  · have hKey : key ≠ w.key := by
      rintro rfl
      simp [hRow, hCreate rfl] at hEtag
    rw [hNew, performed_rows, if_neg hKey, hRow]

theorem eraseIdx_split {α : Type} {l : List α} {n : Nat} {x : α} (h : l[n]? = some x) :
    ∃ before after, l = before ++ x :: after ∧ l.eraseIdx n = before ++ after := by
  induction l generalizing n with
  | nil => simp at h
  | cons head tail ih =>
    cases n with
    | zero =>
      obtain rfl : head = x := by simpa using h
      exact ⟨[], tail, rfl, rfl⟩
    | succ n =>
      obtain ⟨before, after, hSplit, hErase⟩ := ih (by simpa using h)
      exact ⟨head :: before, after, by rw [hSplit]; rfl, by rw [List.eraseIdx_cons_succ, hErase]; rfl⟩

theorem write_cases {ambiguous : RemoteError → Bool} {s t : RemoteTable K V} {owner : Nat} {w : Write K V}
    {fault : Fault} {response : Except RemoteError Unit}
    (h : s.write ambiguous owner w fault = some (t, response)) :
    (response = .ok () ∧ s.accepts w = true ∧ t = s.performed owner w) ∨
    (∃ error, response = .error error ∧ (t = s ∨ ambiguous error = true ∧
      (t = s.commit owner w ∨ t = { s with inflight := s.inflight ++ [(owner, w)] }))) := by
  cases fault with
  | none =>
    rcases s.commit_cases owner w with ⟨hNo, hSame⟩ | ⟨hYes, -, hNew⟩
    · simp only [write, hSame, hNo] at h
      cases h
      exact .inr ⟨_, rfl, .inl rfl⟩
    · simp only [write, hNew, hYes] at h
      cases h
      exact .inl ⟨rfl, hYes, rfl⟩
  | before error =>
    cases h
    exact .inr ⟨_, rfl, .inl rfl⟩
  | lost error =>
    simp only [write] at h
    split at h
    · cases h
      exact .inr ⟨_, rfl, .inr ⟨‹_›, .inl rfl⟩⟩
    · cases h
  | late error =>
    simp only [write] at h
    split at h
    · cases h
      exact .inr ⟨_, rfl, .inr ⟨‹_›, .inr rfl⟩⟩
    · cases h

omit [DecidableEq K] in
theorem createTable_eq (s : RemoteTable K V) (fault : Fault) :
    (s.createTable fault).1 = s ∨ (s.createTable fault).1 = { s with created := true } := by
  cases fault <;> simp [createTable]

omit [DecidableEq K] in
theorem read_eq_ok {s : RemoteTable K V} {key : K} {fault : Fault} {row : Nat × V}
    (h : s.read key fault = .ok row) : s.rows key = some row := by
  cases fault with
  | none =>
    simp only [read] at h
    split at h
    · split at h
      · cases h
        assumption
      · cases h
    · cases h
  | before error | lost error | late error => cases h

/-- `rest` is `s` without one of its in-flight writes. -/
structure Removed (s rest : RemoteTable K V) (owner : Nat) (w : Write K V) : Prop where
  rows : rest.rows = s.rows
  revision : rest.revision = s.revision
  effects : rest.effects = s.effects
  inflight : ∃ before after, s.inflight = before ++ (owner, w) :: after ∧ rest.inflight = before ++ after

omit [DecidableEq K] in
theorem Removed.mem {s rest : RemoteTable K V} {owner : Nat} {w : Write K V} (h : s.Removed rest owner w) :
    (owner, w) ∈ s.inflight := by
  obtain ⟨before, after, hSplit, -⟩ := h.inflight
  rw [hSplit]
  exact List.mem_append_right _ List.mem_cons_self

omit [DecidableEq K] in
theorem Removed.subset {s rest : RemoteTable K V} {owner : Nat} {w : Write K V} (h : s.Removed rest owner w)
    {v : Nat × Write K V} (hv : v ∈ rest.inflight) : v ∈ s.inflight := by
  obtain ⟨before, after, hSplit, hRest⟩ := h.inflight
  rw [hRest] at hv
  rw [hSplit]
  rcases List.mem_append.mp hv with hv | hv
  · exact List.mem_append_left _ hv
  · exact List.mem_append_right _ (List.mem_cons_of_mem _ hv)

omit [DecidableEq K] in
theorem Seen.congr {s t : RemoteTable K V} {key : K} {prior : Option (Nat × V)} (h : s.Seen key prior)
    (hRows : t.rows = s.rows) (hRevision : t.revision = s.revision) : t.Seen key prior := by
  intro p hp
  rw [hRows, hRevision]
  exact h p hp

theorem settle_cases {s t : RemoteTable K V} {event : Event} (h : s.settle event = some t) :
    t = { s with created := true } ∨
      ∃ rest owner w, s.Removed rest owner w ∧ (t = rest ∨ t = rest.commit owner w) := by
  cases event with
  | tableAppears =>
    cases h
    exact .inl rfl
  | settle n takesEffect =>
    simp only [settle] at h
    split at h
    · cases h
    · rename_i owner w hw
      refine .inr ⟨{ s with inflight := s.inflight.eraseIdx n }, owner, w, ⟨rfl, rfl, rfl, eraseIdx_split hw⟩, ?_⟩
      cases takesEffect with
      | true => exact .inr (Option.some.inj h).symm
      | false => exact .inl (Option.some.inj h).symm

/-! ## The history of a row -/

/-- The effects on one row, in order: each replaced what the one before it left there. -/
inductive Chain (key : K) : List (Effect K V) → Option (Nat × V) → Prop
  | nil : Chain key [] none
  | other {es : List (Effect K V)} {row : Option (Nat × V)} {e : Effect K V} :
    Chain key es row → e.write.key ≠ key → Chain key (es ++ [e]) row
  | own {es : List (Effect K V)} {row : Option (Nat × V)} {e : Effect K V} (etag : Nat) :
    Chain key es row → e.write.key = key → e.before = row → Chain key (es ++ [e]) (some (etag, e.write.value))

def History (s : RemoteTable K V) : Prop := ∀ key, Chain key s.effects (s.rows key)

omit [DecidableEq K] in
theorem history_empty : (empty : RemoteTable K V).History := fun _ => .nil

omit [DecidableEq K] in
theorem History.still {s t : RemoteTable K V} (h : s.History) (hRows : t.rows = s.rows)
    (hEffects : t.effects = s.effects) : t.History := by
  intro key
  rw [hRows, hEffects]
  exact h key

theorem History.commit {s : RemoteTable K V} (h : s.History) (owner : Nat) (w : Write K V) :
    (s.commit owner w).History := by
  rcases s.commit_cases owner w with ⟨-, hSame⟩ | ⟨-, -, hNew⟩
  · rwa [hSame]
  · rw [hNew]
    intro key
    rw [performed_rows]
    split
    · rename_i hKey
      subst hKey
      exact .own _ (h w.key) rfl rfl
    · rename_i hKey
      exact .other (h key) (Ne.symm hKey)

theorem History.write {ambiguous : RemoteError → Bool} {s t : RemoteTable K V} {owner : Nat} {w : Write K V}
    {fault : Fault} {response : Except RemoteError Unit} (h : s.History)
    (hWrite : s.write ambiguous owner w fault = some (t, response)) : t.History := by
  rcases write_cases hWrite with ⟨-, hAccepts, rfl⟩ | ⟨error, -, rfl | ⟨-, rfl | rfl⟩⟩
  · have hCommit := h.commit owner w
    rwa [RemoteTable.commit, if_pos hAccepts] at hCommit
  · exact h
  · exact h.commit owner w
  · exact h.still rfl rfl

omit [DecidableEq K] in
theorem History.createTable {s : RemoteTable K V} (h : s.History) (fault : Fault) : (s.createTable fault).1.History := by
  rcases s.createTable_eq fault with hEq | hEq
  · rw [hEq]
    exact h
  · rw [hEq]
    exact h.still rfl rfl

theorem History.settle {s t : RemoteTable K V} {event : Event} (h : s.History) (hSettle : s.settle event = some t) :
    t.History := by
  rcases settle_cases hSettle with rfl | ⟨rest, owner, w, hRemoved, hTable⟩
  · exact h.still rfl rfl
  · have hRest : rest.History := h.still hRemoved.rows hRemoved.effects
    rcases hTable with rfl | rfl
    · exact hRest
    · exact hRest.commit owner w

end RemoteTable

/-- One memoised promise per client: a failed attempt clears the slot, its waiters keep their promise. -/
structure Memo where
  ready : Nat → Option Nat
  settled : Nat → Option Bool
  next : Nat

namespace Memo

def empty : Memo := ⟨fun _ => none, fun _ => none, 0⟩

def arm (m : Memo) (client : Nat) : Memo :=
  { m with ready := Function.update m.ready client (some m.next), next := m.next + 1 }

def fulfil (m : Memo) (promise : Nat) : Memo :=
  { m with settled := Function.update m.settled promise (some true) }

def reject (m : Memo) (client promise : Nat) : Memo :=
  { m with
    ready := Function.update m.ready client none
    settled := Function.update m.settled promise (some false) }

end Memo
end Columbia.Lib
