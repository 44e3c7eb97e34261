import Mathlib.Algebra.Order.Ring.Defs
import Mathlib.Tactic.Linarith

/-! # Fixed windows of a counter

A window begins with the first call that finds none, or that finds one of full age; it counts the calls until the
next one begins. Calls are admitted while the count is within the limit, and are counted when they are not. Windows
begin at calls, so an interval as long as a window can meet two of them, and no more.
-/
namespace Columbia.Lib
set_option autoImplicit false

structure FixedWindow (T : Type) where
  limit : Nat
  width : T

namespace FixedWindow

structure Window (T : Type) where
  count : Nat
  start : T

structure Hit (T : Type) where
  now : T
  starts : Bool
  admitted : Bool

variable {T : Type} [CommRing T] [LinearOrder T] (W : FixedWindow T)

def starts (s : Option (Window T)) (now : T) : Bool :=
  match s with
  | none => true
  | some w => W.width ≤ now - w.start

/-- The window that a call finds or begins, with the call counted. -/
def counted (s : Option (Window T)) (now : T) : Window T :=
  match s with
  | none => ⟨1, now⟩
  | some w => if W.width ≤ now - w.start then ⟨1, now⟩ else ⟨w.count + 1, w.start⟩

def hits (s : Option (Window T)) : List T → List (Hit T)
  | [] => []
  | now :: times =>
    ⟨now, W.starts s now, (W.counted s now).count ≤ W.limit⟩ :: hits (some (W.counted s now)) times

/-- The admitted calls in an interval as long as a window. -/
def admittedFrom (first : T) (hits : List (Hit T)) : Nat :=
  hits.countP fun h => h.admitted ∧ first ≤ h.now ∧ h.now < first + W.width

variable {W}

theorem counted_cases (s : Option (Window T)) (now : T) :
    (W.starts s now = true ∧ W.counted s now = ⟨1, now⟩ ∧ ∀ w, s = some w → W.width ≤ now - w.start) ∨
    ∃ w, s = some w ∧ now - w.start < W.width ∧ W.starts s now = false ∧
      W.counted s now = ⟨w.count + 1, w.start⟩ := by
  cases s with
  | none => exact .inl ⟨rfl, rfl, nofun⟩
  | some w =>
    by_cases hOld : W.width ≤ now - w.start
    · left
      refine ⟨decide_eq_true hOld, if_pos hOld, ?_⟩
      rintro w' ⟨⟩
      exact hOld
    · right
      exact ⟨w, rfl, not_le.mp hOld, decide_eq_false hOld, if_neg hOld⟩

/-! ## Between two beginnings -/

theorem admitted_without_start {w : Window T} {times : List T} {mid rest : List (Hit T)}
    (hHits : W.hits (some w) times = mid ++ rest) (hNone : ∀ h ∈ mid, h.starts = false) :
    mid.countP (·.admitted) ≤ W.limit - w.count := by
  induction mid generalizing w times with
  | nil => exact Nat.zero_le _
  | cons h mid ih =>
    cases times with
    | nil => cases hHits
    | cons now times =>
      obtain ⟨rfl, hRest⟩ := List.cons.inj hHits
      rcases counted_cases (W := W) (some w) now with ⟨hStarts, -⟩ | ⟨_, ⟨⟩, -, -, hCounted⟩
      · have hNot : W.starts (some w) now = false := hNone _ List.mem_cons_self
        rw [hStarts] at hNot
        cases hNot
      · have hLater := ih hRest fun h hMem => hNone h (List.mem_cons_of_mem _ hMem)
        rw [hCounted] at hLater ⊢
        rw [List.countP_cons]
        simp only [decide_eq_true_eq] at hLater ⊢
        split
        · omega
        · omega

/-- A window admits no more than its limit. -/
theorem admitted_between_starts {s : Option (Window T)} {times : List T} {before mid rest : List (Hit T)} {first : Hit T}
    (hHits : W.hits s times = before ++ first :: (mid ++ rest)) (hFirst : first.starts = true)
    (hNone : ∀ h ∈ mid, h.starts = false) : (first :: mid).countP (·.admitted) ≤ W.limit := by
  induction before generalizing s times with
  | nil =>
    cases times with
    | nil => cases hHits
    | cons now times =>
      obtain ⟨rfl, hRest⟩ := List.cons.inj hHits
      rcases counted_cases (W := W) s now with ⟨-, hCounted, -⟩ | ⟨_, -, -, hStarts, -⟩
      · have hLater := admitted_without_start hRest hNone
        rw [hCounted] at hLater ⊢
        rw [List.countP_cons]
        simp only [decide_eq_true_eq] at hLater ⊢
        split
        · omega
        · omega
      · have hNot : W.starts s now = true := hFirst
        rw [hStarts] at hNot
        cases hNot
  | cons h before ih =>
    cases times with
    | nil => cases hHits
    | cons now times => exact ih (List.cons.inj hHits).2

/-! ## In any interval as long as a window -/

variable (W) in
/-- What the interval from `first` on can still admit: two windows, unless one has begun that reaches into it. -/
def allowance (first : T) : Option (Window T) → Nat
  | none => 2 * W.limit
  | some w =>
    if w.start + W.width ≤ first then 2 * W.limit
    else if w.start < first then (W.limit - w.count) + W.limit
    else if w.start < first + W.width then W.limit - w.count
    else 0

theorem allowance_le (first : T) (s : Option (Window T)) : W.allowance first s ≤ 2 * W.limit := by
  cases s with
  | none => exact le_rfl
  | some w =>
    simp only [allowance]
    split_ifs
    · exact le_rfl
    · omega
    · omega
    · exact Nat.zero_le _

variable [IsStrictOrderedRing T]

/-- A call that begins a window, after the one before it is over. -/
theorem allowance_begins (first : T) {now : T} {s : Option (Window T)} (hWidth : 0 < W.width)
    (hOld : ∀ w, s = some w → W.width ≤ now - w.start) :
    (W.allowance first (some ⟨1, now⟩) + if 1 ≤ W.limit ∧ first ≤ now ∧ now < first + W.width then 1 else 0) ≤
      W.allowance first s := by
  by_cases hBefore : now < first
  · -- the window before it was over when the interval began
    have hTwo : W.allowance first s = 2 * W.limit := by
      cases s with
      | none => rfl
      | some w =>
        have hAge := hOld w rfl
        have hOver : w.start + W.width ≤ first := by linarith
        exact if_pos hOver
    have hOut : ¬(1 ≤ W.limit ∧ first ≤ now ∧ now < first + W.width) := fun hIn => absurd hIn.2.1 (not_le.mpr hBefore)
    rw [if_neg hOut, hTwo, add_zero]
    apply allowance_le
  · by_cases hAfter : now < first + W.width
    · -- the window before it began before the interval did
      have hOne : W.limit ≤ W.allowance first s := by
        cases s with
        | none =>
          rw [allowance]
          omega
        | some w =>
          have hAge := hOld w rfl
          have hBegan : w.start < first := by linarith
          rw [allowance, if_pos hBegan]
          split_ifs
          · omega
          · omega
      have hRest : W.allowance first (some ⟨1, now⟩) = W.limit - 1 := by
        rw [allowance, if_neg (by linarith), if_neg hBefore, if_pos hAfter]
      rw [hRest]
      split_ifs
      · rename_i hIn
        have hPos : 1 ≤ W.limit := hIn.1
        omega
      · omega
    · have hNone : W.allowance first (some ⟨1, now⟩) = 0 := by
        rw [allowance, if_neg (by linarith), if_neg hBefore, if_neg hAfter]
      have hOut : ¬(1 ≤ W.limit ∧ first ≤ now ∧ now < first + W.width) := fun hIn => hAfter hIn.2.2
      rw [hNone, if_neg hOut]
      exact Nat.zero_le _

/-- A call in a window that has begun. -/
theorem allowance_continues (first : T) {now : T} {w : Window T} (hWidth : 0 < W.width) (hStart : w.start ≤ now)
    (hYoung : now - w.start < W.width) :
    (W.allowance first (some ⟨w.count + 1, w.start⟩) +
      if w.count + 1 ≤ W.limit ∧ first ≤ now ∧ now < first + W.width then 1 else 0) ≤ W.allowance first (some w) := by
  simp only [allowance]
  by_cases hOver : w.start + W.width ≤ first
  · have hBefore : now < first := by linarith
    rw [if_pos hOver, if_pos hOver, if_neg fun hIn => absurd hIn.2.1 (not_le.mpr hBefore), add_zero]
  · rw [if_neg hOver, if_neg hOver]
    by_cases hInside : w.start < first + W.width
    · -- each call that is admitted takes one of what the window has left
      have hLeft : (W.limit - (w.count + 1)) +
          (if w.count + 1 ≤ W.limit ∧ first ≤ now ∧ now < first + W.width then 1 else 0) ≤ W.limit - w.count := by
        split_ifs
        · omega
        · omega
      rw [if_pos hInside, if_pos hInside]
      split_ifs at hLeft ⊢
      all_goals omega
    · have hLate : ¬w.start < first := fun hBegan => hInside (by linarith)
      have hAfter : ¬now < first + W.width := fun hLt => hInside (hStart.trans_lt hLt)
      rw [if_neg hLate, if_neg hLate, if_neg hInside, if_neg hInside, if_neg fun hIn => hAfter hIn.2.2]

theorem allowance_counted (first : T) {now : T} {s : Option (Window T)} (hWidth : 0 < W.width)
    (hNow : ∀ w, s = some w → w.start ≤ now) :
    (W.allowance first (some (W.counted s now)) +
      if (W.counted s now).count ≤ W.limit ∧ first ≤ now ∧ now < first + W.width then 1 else 0) ≤
      W.allowance first s := by
  obtain ⟨-, hCounted, hOld⟩ | ⟨w, rfl, hYoung, -, hCounted⟩ := counted_cases (W := W) s now
  · rw [hCounted]
    exact allowance_begins first hWidth hOld
  · rw [hCounted]
    exact allowance_continues first hWidth (hNow w rfl) hYoung

theorem admittedFrom_le_allowance (hWidth : 0 < W.width) (first : T) {s : Option (Window T)} {times : List T}
    (hTimes : times.Pairwise (· ≤ ·)) (hStart : ∀ w, s = some w → ∀ t ∈ times, w.start ≤ t) :
    W.admittedFrom first (W.hits s times) ≤ W.allowance first s := by
  induction times generalizing s with
  | nil => exact Nat.zero_le _
  | cons now times ih =>
    obtain ⟨hNow, hRest⟩ := List.pairwise_cons.mp hTimes
    have hNext : ∀ w, some (W.counted s now) = some w → ∀ t ∈ times, w.start ≤ t := by
      rintro w ⟨⟩ t ht
      rcases counted_cases (W := W) s now with ⟨-, hCounted, -⟩ | ⟨w, rfl, -, -, hCounted⟩
      · rw [hCounted]
        exact hNow t ht
      · rw [hCounted]
        exact hStart w rfl t (List.mem_cons_of_mem _ ht)
    have hStep := allowance_counted first hWidth fun w hw => hStart w hw now List.mem_cons_self
    have hLater := ih hRest hNext
    rw [hits, admittedFrom, List.countP_cons]
    rw [admittedFrom] at hLater
    simp only [decide_eq_true_eq] at hLater ⊢
    omega

/-- Two windows at most meet an interval of the length of a window. -/
theorem admittedFrom_le (hWidth : 0 < W.width) (first : T) {times : List T} (hTimes : times.Pairwise (· ≤ ·)) :
    W.admittedFrom first (W.hits none times) ≤ 2 * W.limit :=
  admittedFrom_le_allowance hWidth first hTimes nofun

end FixedWindow
end Columbia.Lib
