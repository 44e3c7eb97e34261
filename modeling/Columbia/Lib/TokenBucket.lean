import Mathlib.Algebra.Order.Ring.Defs
import Mathlib.Order.Lattice
import Mathlib.Tactic.Linarith

/-! # Token buckets

A bucket fills at a constant rate up to its capacity, and a call takes a token when there is a whole one. Refused
calls move the clock too. Tokens and times are of one ordered ring.
-/
namespace Columbia.Lib
set_option autoImplicit false

structure TokenBucket (K : Type) where
  capacity : K
  rate : K

namespace TokenBucket

structure Level (K : Type) where
  tokens : K
  last : K

variable {K : Type} [LinearOrder K]

/-- How many calls in the interval were granted. -/
def granted (first last : K) (calls : List (K × Bool)) : Nat :=
  calls.countP fun c => c.2 ∧ first ≤ c.1 ∧ c.1 ≤ last

theorem granted_nil (first last : K) : granted first last [] = 0 := rfl

theorem granted_cons (first last : K) (c : K × Bool) (calls : List (K × Bool)) :
    granted first last (c :: calls) =
      granted first last calls + if c.2 ∧ first ≤ c.1 ∧ c.1 ≤ last then 1 else 0 := by
  rw [granted, List.countP_cons, granted]
  simp only [decide_eq_true_eq]

variable [CommRing K] (B : TokenBucket K)

def fill (s : Level K) (now : K) : K := min B.capacity (s.tokens + (now - s.last) * B.rate)

def take (s : Level K) (now : K) : Bool × Level K :=
  if 1 ≤ B.fill s now then (true, ⟨B.fill s now - 1, now⟩) else (false, ⟨B.fill s now, now⟩)

/-- The calls at these times with their answers, and the level after them. -/
def takeAll (s : Level K) : List K → List (K × Bool) × Level K
  | [] => ([], s)
  | now :: times =>
    ((now, (B.take s now).1) :: (takeAll (B.take s now).2 times).1, (takeAll (B.take s now).2 times).2)

/-- Neither overdrawn nor overfull. -/
structure Holds (s : Level K) : Prop where
  nonneg : 0 ≤ s.tokens
  le_capacity : s.tokens ≤ B.capacity

variable {B}

theorem take_last (s : Level K) (now : K) : (B.take s now).2.last = now := by
  unfold take
  split
  · rfl
  · rfl

/-- What a call leaves, together with what it took, is what there was. -/
theorem take_tokens (s : Level K) (now : K) :
    (B.take s now).2.tokens + (if (B.take s now).1 then 1 else 0) = B.fill s now := by
  unfold take
  split
  · exact sub_add_cancel _ _
  · exact add_zero _

theorem isChain_take {s : Level K} {now : K} {times : List K} (hTimes : (now :: times).IsChain (· ≤ ·)) :
    ((B.take s now).2.last :: times).IsChain (· ≤ ·) := by
  rw [take_last]
  exact hTimes

theorem granted_of_late {s : Level K} {first last now : K} (hLate : last < now) {times : List K}
    (hTimes : (now :: times).IsChain (· ≤ ·)) : granted first last (B.takeAll s (now :: times)).1 = 0 := by
  have hOut : ∀ {s : Level K} {now : K}, last < now → ¬((B.take s now).1 = true ∧ first ≤ now ∧ now ≤ last) :=
    fun hLate hIn => absurd hIn.2.2 (not_le.mpr hLate)
  induction times generalizing s now with
  | nil => rw [takeAll, granted_cons, if_neg (hOut hLate), takeAll, granted_nil]
  | cons later times ih =>
    obtain ⟨hLe, hRest⟩ := List.isChain_cons_cons.mp hTimes
    rw [takeAll, granted_cons, if_neg (hOut hLate), add_zero]
    exact ih (hLate.trans_le hLe) hRest

variable [IsStrictOrderedRing K]

theorem Holds.take {s : Level K} (h : B.Holds s) (hCapacity : 0 ≤ B.capacity) (hRate : 0 ≤ B.rate) {now : K}
    (hNow : s.last ≤ now) : B.Holds (B.take s now).2 := by
  have hRefill : 0 ≤ (now - s.last) * B.rate := mul_nonneg (sub_nonneg.mpr hNow) hRate
  have hFill : 0 ≤ B.fill s now := le_min hCapacity (add_nonneg h.nonneg hRefill)
  have hFull : B.fill s now ≤ B.capacity := min_le_left _ _
  unfold TokenBucket.take
  split
  · rename_i hOne
    constructor
    · exact sub_nonneg.mpr hOne
    · exact (sub_le_self _ zero_le_one).trans hFull
  · exact ⟨hFill, hFull⟩

theorem Holds.takeAll {s : Level K} (h : B.Holds s) (hCapacity : 0 ≤ B.capacity) (hRate : 0 ≤ B.rate) {times : List K}
    (hTimes : (s.last :: times).IsChain (· ≤ ·)) : B.Holds (B.takeAll s times).2 := by
  induction times generalizing s with
  | nil => exact h
  | cons now times ih =>
    obtain ⟨hNow, hRest⟩ := List.isChain_cons_cons.mp hTimes
    exact ih (h.take hCapacity hRate hNow) (isChain_take hRest)

/-- A token that has had the time to come in is there. -/
theorem take_of_elapsed {s : Level K} (h : B.Holds s) (hCapacity : 1 ≤ B.capacity) {now : K}
    (hElapsed : 1 ≤ (now - s.last) * B.rate) : (B.take s now).1 = true := by
  have hFill : 1 ≤ B.fill s now := le_min hCapacity (hElapsed.trans (le_add_of_nonneg_left h.nonneg))
  rw [TokenBucket.take, if_pos hFill]

/-- What is left after a call and comes in later bounds what is granted later; the call itself is paid from `fill`. -/
theorem granted_cons_le {s : Level K} {first last now income : K} {times : List K}
    (hLater : (granted first last (B.takeAll (B.take s now).2 times).1 : K) ≤ (B.take s now).2.tokens + income) :
    (granted first last (B.takeAll s (now :: times)).1 : K) ≤ B.fill s now + income := by
  have hOne : ((if (B.take s now).1 = true ∧ first ≤ now ∧ now ≤ last then 1 else 0 : Nat) : K) ≤
      if (B.take s now).1 then 1 else 0 := by
    split
    · rename_i hCounted
      rw [if_pos hCounted.1, Nat.cast_one]
    · rw [Nat.cast_zero]
      split
      · exact zero_le_one
      · exact le_rfl
  have hTaken := take_tokens (B := B) s now
  rw [TokenBucket.takeAll, granted_cons, Nat.cast_add]
  linarith

theorem Holds.income_nonneg {s : Level K} (h : B.Holds s) (hRate : 0 ≤ B.rate) {last : K} (hLast : s.last ≤ last) :
    0 ≤ s.tokens + (last - s.last) * B.rate := add_nonneg h.nonneg (mul_nonneg (sub_nonneg.mpr hLast) hRate)

/-- From a level on, no more is granted than it has and what comes in. -/
theorem granted_le_level {s : Level K} (h : B.Holds s) (hCapacity : 0 ≤ B.capacity) (hRate : 0 ≤ B.rate)
    {first last : K} (hLast : s.last ≤ last) {times : List K} (hTimes : (s.last :: times).IsChain (· ≤ ·)) :
    (granted first last (B.takeAll s times).1 : K) ≤ s.tokens + (last - s.last) * B.rate := by
  induction times generalizing s with
  | nil =>
    rw [TokenBucket.takeAll, granted_nil, Nat.cast_zero]
    exact h.income_nonneg hRate hLast
  | cons now times ih =>
    obtain ⟨hNow, hRest⟩ := List.isChain_cons_cons.mp hTimes
    by_cases hIn : now ≤ last
    · have hLater := ih (h.take hCapacity hRate hNow) ((take_last s now).trans_le hIn) (isChain_take hRest)
      rw [take_last] at hLater
      have hFill : B.fill s now ≤ s.tokens + (now - s.last) * B.rate := min_le_right _ _
      have hGranted := granted_cons_le hLater
      linarith
    · rw [granted_of_late (not_le.mp hIn) hRest, Nat.cast_zero]
      exact h.income_nonneg hRate hLast

/-- In any interval no more is granted than a full bucket and what comes in. -/
theorem granted_le {s : Level K} (h : B.Holds s) (hCapacity : 0 ≤ B.capacity) (hRate : 0 ≤ B.rate) {first last : K}
    (hInterval : first ≤ last) {times : List K} (hTimes : (s.last :: times).IsChain (· ≤ ·)) :
    (granted first last (B.takeAll s times).1 : K) ≤ B.capacity + (last - first) * B.rate := by
  have hNonneg : 0 ≤ B.capacity + (last - first) * B.rate :=
    add_nonneg hCapacity (mul_nonneg (sub_nonneg.mpr hInterval) hRate)
  induction times generalizing s with
  | nil =>
    rw [TokenBucket.takeAll, granted_nil, Nat.cast_zero]
    exact hNonneg
  | cons now times ih =>
    obtain ⟨hNow, hRest⟩ := List.isChain_cons_cons.mp hTimes
    have hNext := h.take hCapacity hRate hNow
    by_cases hEarly : now < first
    · -- nothing is counted before the interval begins
      have hOut : ¬((B.take s now).1 = true ∧ first ≤ now ∧ now ≤ last) := fun hIn => absurd hIn.2.1 (not_le.mpr hEarly)
      rw [TokenBucket.takeAll, granted_cons, if_neg hOut, add_zero]
      exact ih hNext (isChain_take hRest)
    · by_cases hIn : now ≤ last
      · have hLater : (granted first last (B.takeAll (B.take s now).2 times).1 : K) ≤
            (B.take s now).2.tokens + (last - (B.take s now).2.last) * B.rate :=
          granted_le_level hNext hCapacity hRate ((take_last s now).trans_le hIn) (isChain_take hRest)
        have hFill : B.fill s now ≤ B.capacity := min_le_left _ _
        have hShorter : (last - now) * B.rate ≤ (last - first) * B.rate :=
          mul_le_mul_of_nonneg_right (sub_le_sub_left (not_lt.mp hEarly) last) hRate
        rw [take_last] at hLater
        have hGranted := granted_cons_le hLater
        linarith
      · rw [granted_of_late (not_le.mp hIn) hRest, Nat.cast_zero]
        exact hNonneg

end TokenBucket
end Columbia.Lib
