import Columbia.Gateway.RateLimit
import Columbia.Lib.TokenBucket
import Mathlib.Data.Rat.Floor
import Mathlib.Tactic.FieldSimp
import Mathlib.Tactic.Positivity

/-! # What the limiter promises in exact arithmetic

Over the rationals `globalRateLimiter` is a token bucket whose times are seconds. `last` never goes back: `allow` reads
the clock with the mutex held.
-/
namespace Columbia.Gateway.RateLimit
open Columbia.Lib
set_option autoImplicit false

/-- The calls of `allow` at these times with their answers, and the limiter after them. -/
def allowAll (limiter : Option (GlobalRateLimiter ℚ)) : List Int → List (Int × Bool) × Option (GlobalRateLimiter ℚ)
  | [] => ([], limiter)
  | now :: times =>
    ((now, (allow limiter now).1) :: (allowAll (allow limiter now).2 times).1, (allowAll (allow limiter now).2 times).2)

def inSeconds (t : Int) : ℚ := t / 1000000000

/-! ## The bucket of a limiter -/

def GlobalRateLimiter.bucket (l : GlobalRateLimiter ℚ) : TokenBucket ℚ := ⟨l.maxTokens, l.refillPerSec⟩

def GlobalRateLimiter.level (l : GlobalRateLimiter ℚ) : TokenBucket.Level ℚ := ⟨l.tokens, inSeconds l.last⟩

def GlobalRateLimiter.withLevel (l : GlobalRateLimiter ℚ) (tokens : ℚ) (last : Int) : GlobalRateLimiter ℚ :=
  { l with tokens := tokens, last := last }

theorem seconds_sub (now last : Int) : (seconds (now - last) : ℚ) = inSeconds now - inSeconds last := by
  have hSplit := Int.tmod_add_mul_tdiv (now - last) 1000000000
  have hCast : (((now - last).tmod 1000000000 : Int) : ℚ) + 1000000000 * (((now - last).tdiv 1000000000 : Int) : ℚ) =
      now - last := by exact_mod_cast congrArg (Int.cast : Int → ℚ) hSplit
  rw [seconds, inSeconds, inSeconds]
  push_cast
  linarith

theorem allow_eq (l : GlobalRateLimiter ℚ) (now : Int) :
    allow (some l) now = ((l.bucket.take l.level (inSeconds now)).1,
      some (l.withLevel (l.bucket.take l.level (inSeconds now)).2.tokens now)) := by
  have hFill : l.bucket.fill l.level (inSeconds now) =
      if l.maxTokens < l.tokens + seconds (now - l.last) * l.refillPerSec then l.maxTokens
      else l.tokens + seconds (now - l.last) * l.refillPerSec := by
    rw [seconds_sub]
    exact min_def_lt _ _
  simp only [allow, TokenBucket.take, ← hFill, Int.cast_one]
  split
  · rfl
  · rfl

theorem level_withLevel (l : GlobalRateLimiter ℚ) (now : Int) :
    (l.withLevel (l.bucket.take l.level (inSeconds now)).2.tokens now).level =
      (l.bucket.take l.level (inSeconds now)).2 := by
  have hLast := TokenBucket.take_last (B := l.bucket) l.level (inSeconds now)
  exact congrArg (TokenBucket.Level.mk _) hLast.symm

/-- The limiter and its bucket answer alike, call by call. -/
theorem allowAll_eq (l : GlobalRateLimiter ℚ) (times : List Int) : ∃ l',
    (allowAll (some l) times).2 = some l' ∧ l'.bucket = l.bucket ∧
    l'.level = (l.bucket.takeAll l.level (times.map inSeconds)).2 ∧
    (allowAll (some l) times).1.map (fun c => (inSeconds c.1, c.2)) =
      (l.bucket.takeAll l.level (times.map inSeconds)).1 := by
  induction times generalizing l with
  | nil => exact ⟨l, rfl, rfl, rfl, rfl⟩
  | cons now times ih =>
    obtain ⟨l', hAfter, hBucket, hLevel, hAnswers⟩ :=
      ih (l.withLevel (l.bucket.take l.level (inSeconds now)).2.tokens now)
    rw [level_withLevel] at hLevel hAnswers
    refine ⟨l', ?_, hBucket, hLevel, ?_⟩
    · rw [allowAll, allow_eq]
      exact hAfter
    · rw [allowAll, allow_eq, List.map_cons, hAnswers]
      rfl

/-! ## The budget -/

theorem newGlobalRateLimiter_eq {qpm : Int} (hQpm : 1 ≤ qpm) (created : Int) :
    newGlobalRateLimiter qpm created = some (⟨qpm, qpm, qpm / 60, created⟩ : GlobalRateLimiter ℚ) := by
  have hPositive : ¬qpm ≤ 0 := by omega
  rw [newGlobalRateLimiter, if_neg hPositive]
  rfl

theorem isChain_inSeconds {times : List Int} (h : times.IsChain (· ≤ ·)) :
    (times.map inSeconds).IsChain (· ≤ ·) := by
  rw [List.isChain_map]
  apply h.imp
  intro s t hLe
  exact div_le_div_of_nonneg_right (Int.cast_le.mpr hLe) (by norm_num)

/-- After any calls the limiter is a bucket of `qpm` tokens that fills in a minute. -/
theorem allowAll_new {qpm created : Int} {times : List Int} (hQpm : 1 ≤ qpm)
    (hTimes : (created :: times).IsChain (· ≤ ·)) : ∃ l,
    (allowAll (newGlobalRateLimiter qpm created) times).2 = some l ∧ l.bucket = ⟨qpm, qpm / 60⟩ ∧
    l.bucket.Holds l.level ∧ ∀ s t : ℚ, s ≤ t →
      (TokenBucket.granted s t ((allowAll (newGlobalRateLimiter qpm created) times).1.map
        fun c => (inSeconds c.1, c.2)) : ℚ) ≤ qpm + (t - s) * (qpm / 60) := by
  have hPositive : (1 : ℚ) ≤ qpm := by exact_mod_cast hQpm
  have hCapacity : (0 : ℚ) ≤ qpm := zero_le_one.trans hPositive
  have hRate : (0 : ℚ) ≤ qpm / 60 := by positivity
  let first : GlobalRateLimiter ℚ := ⟨qpm, qpm, qpm / 60, created⟩
  have hStart : first.bucket.Holds first.level := ⟨hCapacity, le_rfl⟩
  have hSeconds : (first.level.last :: times.map inSeconds).IsChain (· ≤ ·) := isChain_inSeconds hTimes
  obtain ⟨l, hAfter, hBucket, hLevel, hAnswers⟩ := allowAll_eq first times
  rw [newGlobalRateLimiter_eq hQpm]
  refine ⟨l, hAfter, hBucket, ?_, fun s t hLe => ?_⟩
  · rw [hBucket, hLevel]
    exact hStart.takeAll hCapacity hRate hSeconds
  · rw [hAnswers]
    exact TokenBucket.granted_le hStart hCapacity hRate hLe hSeconds

/-- Between any two times the limiter lets no more through than a full bucket and a minute's worth for each minute. -/
theorem allow_within_budget {qpm created : Int} {times : List Int} (hQpm : 1 ≤ qpm)
    (hTimes : (created :: times).IsChain (· ≤ ·)) :
    (∃ l, (allowAll (newGlobalRateLimiter qpm created) times).2 = some l ∧ 0 ≤ l.tokens ∧ l.tokens ≤ qpm) ∧
    ∀ s t : ℚ, s ≤ t →
      (((allowAll (newGlobalRateLimiter qpm created) times).1.countP fun c =>
        c.2 ∧ s ≤ inSeconds c.1 ∧ inSeconds c.1 ≤ t : Nat) : ℚ) ≤ qpm + qpm * (t - s) / 60 := by
  obtain ⟨l, hAfter, hBucket, hHolds, hGranted⟩ := allowAll_new hQpm hTimes
  constructor
  · have hFull := hHolds.le_capacity
    rw [hBucket] at hFull
    exact ⟨l, hAfter, hHolds.nonneg, hFull⟩
  · intro s t hLe
    calc _ = (TokenBucket.granted s t ((allowAll (newGlobalRateLimiter qpm created) times).1.map
          fun c => (inSeconds c.1, c.2)) : ℚ) := by
          rw [TokenBucket.granted, List.countP_map]
          rfl
      _ ≤ qpm + (t - s) * (qpm / 60) := hGranted s t hLe
      _ = qpm + qpm * (t - s) / 60 := by ring

/-- Two tokens a minute: a burst of two, a refusal, and the next token after half a minute. -/
theorem allow_within_budget_burst :
    (allowAll (newGlobalRateLimiter 2 0) [0, 0, 0, 30000000000]).1.map Prod.snd = [true, true, false, true] ∧
    (((allowAll (newGlobalRateLimiter 2 0) [0, 0, 0, 30000000000]).1.countP fun c =>
      c.2 ∧ 0 ≤ inSeconds c.1 ∧ inSeconds c.1 ≤ 30 : Nat) : ℚ) ≤ (2 : Int) + (2 : Int) * (30 - 0) / 60 :=
  ⟨by decide +kernel, (allow_within_budget (by decide) (by decide)).2 0 30 (by norm_num)⟩

/-! ## The hint -/

theorem truncate_eq_floor {x : ℚ} (h : 0 ≤ x) : truncate x = ⌊x⌋ := by
  rw [truncate, Rat.floor_def']
  exact Int.tdiv_eq_ediv_of_nonneg (Rat.num_nonneg.mpr h)

/-- The hint covers a token: adding 0.999 falls short of a ceiling only for more than a thousand tokens a minute,
and there a second is more than enough. -/
theorem retryAfterSeconds_ge {qpm : Int} (hQpm : 1 ≤ qpm) {l : GlobalRateLimiter ℚ}
    (hRate : l.refillPerSec = qpm / 60) : 60 ≤ retryAfterSeconds truncate (some l) * qpm := by
  have hPositive : (0 : ℚ) < qpm := by exact_mod_cast hQpm
  have hNotZero : ¬l.refillPerSec ≤ ((0 : Int) : ℚ) := by
    rw [hRate, Int.cast_zero, not_le]
    positivity
  have hWait : ((1 : Int) : ℚ) / l.refillPerSec + ((999 : Int) : ℚ) / ((1000 : Int) : ℚ) = 60 / qpm + 999 / 1000 := by
    rw [hRate]
    push_cast
    rw [one_div_div]
  have hSeconds : truncate (60 / qpm + 999 / 1000) = ⌊(60 / qpm + 999 / 1000 : ℚ)⌋ :=
    truncate_eq_floor (by positivity)
  simp only [retryAfterSeconds, if_neg hNotZero, hWait, hSeconds]
  by_contra hShort
  have hLarge : ∀ n : Int, 1 ≤ n → n * qpm < 60 → n < ⌊(60 / qpm + 999 / 1000 : ℚ)⌋ := by
    intro n hn hLt
    have hSmall : (qpm : ℚ) ≤ 1000 := by exact_mod_cast (by nlinarith : qpm ≤ 1000)
    have hNext : (n : ℚ) * qpm + 1 ≤ 60 := by exact_mod_cast hLt
    have hUnit : 1 / 1000 ≤ 1 / (qpm : ℚ) := one_div_le_one_div_of_le hPositive hSmall
    have hStep : (n : ℚ) + 1 / qpm ≤ 60 / qpm := by
      rw [← sub_nonneg]
      have hEq : 60 / (qpm : ℚ) - (n + 1 / qpm) = (60 - (n * qpm + 1)) / qpm := by
        field_simp
      rw [hEq]
      exact div_nonneg (sub_nonneg.mpr hNext) hPositive.le
    apply Int.lt_of_add_one_le
    apply Int.le_floor.mpr
    push_cast
    linarith
  split at hShort
  · rename_i hZero
    have hOne := hLarge 1 le_rfl (by omega)
    omega
  · rename_i hPos
    have hMore := hLarge _ (by omega) (not_le.mp hShort)
    exact absurd hMore (lt_irrefl _)

theorem allowAll_concat (limiter : Option (GlobalRateLimiter ℚ)) (times : List Int) (now : Int) :
    (allowAll limiter (times ++ [now])).2 = (allow (allowAll limiter times).2 now).2 := by
  induction times generalizing limiter with
  | nil => rfl
  | cons first times ih => exact ih (allow limiter first).2

/-- A caller that waits as long as it is told, alone, gets through. -/
theorem retryAfterSeconds_suffices {qpm created : Int} {times : List Int} {now : Int} (hQpm : 1 ≤ qpm)
    (hTimes : (created :: (times ++ [now])).IsChain (· ≤ ·)) {l l' : Option (GlobalRateLimiter ℚ)}
    (hReached : (allowAll (newGlobalRateLimiter qpm created) times).2 = l) (hRefused : allow l now = (false, l'))
    {later : Int} (hWaited : inSeconds now + retryAfterSeconds truncate l' ≤ inSeconds later) :
    (allow l' later).1 = true := by
  have hPositive : (0 : ℚ) < qpm := by exact_mod_cast hQpm
  obtain ⟨after, hAfter, hBucket, hHolds, -⟩ := allowAll_new hQpm hTimes
  rw [allowAll_concat, hReached, hRefused] at hAfter
  obtain rfl : l' = some after := hAfter
  have hLast : after.last = now := by
    cases l with
    | none => cases hRefused
    | some before =>
      rw [allow_eq] at hRefused
      obtain rfl := Option.some.inj (Prod.mk.inj hRefused).2
      rfl
  have hRate : after.refillPerSec = qpm / 60 := congrArg TokenBucket.rate hBucket
  have hHint : (60 : ℚ) ≤ retryAfterSeconds truncate (some after) * qpm := by
    exact_mod_cast retryAfterSeconds_ge hQpm hRate
  have hOne : (1 : ℚ) ≤ qpm := by exact_mod_cast hQpm
  rw [allow_eq]
  apply TokenBucket.take_of_elapsed hHolds
  · rw [hBucket]
    exact hOne
  · have hElapsed : (retryAfterSeconds truncate (some after) : ℚ) ≤ inSeconds later - after.level.last := by
      rw [GlobalRateLimiter.level, hLast]
      linarith
    calc (1 : ℚ) ≤ retryAfterSeconds truncate (some after) * (qpm / 60) := by linarith
      _ ≤ (inSeconds later - after.level.last) * (qpm / 60) := by gcongr
      _ = _ := by rw [hBucket]

def testSpent : Option (GlobalRateLimiter ℚ) := (allowAll (newGlobalRateLimiter 7 0) (List.replicate 7 0)).2

/-- 60/7 is not whole: the refused caller is told nine seconds. -/
theorem retryAfterSeconds_suffices_sevenths : (allow testSpent 1).1 = false ∧
    retryAfterSeconds truncate (allow testSpent 1).2 = 9 ∧ (allow (allow testSpent 1).2 9000000001).1 = true := by
  have hRefused : (allow testSpent 1).1 = false := by decide +kernel
  have hHint : retryAfterSeconds truncate (allow testSpent 1).2 = 9 := by decide +kernel
  have hReached : (allowAll (newGlobalRateLimiter 7 0) (List.replicate 7 0)).2 = testSpent := rfl
  have hWaited : inSeconds 1 + retryAfterSeconds truncate (allow testSpent 1).2 ≤ inSeconds 9000000001 := by
    rw [hHint]
    decide +kernel
  exact ⟨hRefused, hHint,
    retryAfterSeconds_suffices (by decide) (by decide) hReached (Prod.ext hRefused rfl) hWaited⟩

end Columbia.Gateway.RateLimit
