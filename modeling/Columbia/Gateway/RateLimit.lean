import Mathlib.Data.Int.Cast.Defs
import Mathlib.Data.Rat.Defs
import Mathlib.Order.Defs.LinearOrder

/-! # The outbound budget of the gateway: `globalRateLimiter`

A token bucket with one minute's worth of tokens. Time is in nanoseconds and comes with each call. The numbers are any
type with the operations of `float64` that the code uses. A limiter that is `nil` allows everything.
-/
namespace Columbia.Gateway.RateLimit
set_option autoImplicit false

structure GlobalRateLimiter (K : Type) where
  tokens : K
  maxTokens : K
  refillPerSec : K
  last : Int

section
variable {K : Type} [Add K] [Sub K] [Mul K] [Div K] [LE K] [LT K] [DecidableLE K] [DecidableLT K] [IntCast K]

/-- `Duration.Seconds`. -/
def seconds (d : Int) : K :=
  ((d.tdiv 1000000000 : Int) : K) + ((d.tmod 1000000000 : Int) : K) / ((1000000000 : Int) : K)

def newGlobalRateLimiter (qpm now : Int) : Option (GlobalRateLimiter K) :=
  if qpm ≤ 0 then none else some ⟨(qpm : K), (qpm : K), (qpm : K) / ((60 : Int) : K), now⟩

def allow (limiter : Option (GlobalRateLimiter K)) (now : Int) : Bool × Option (GlobalRateLimiter K) :=
  match limiter with
  | none => (true, none)
  | some l =>
    let refilled := l.tokens + seconds (now - l.last) * l.refillPerSec
    let tokens := if l.maxTokens < refilled then l.maxTokens else refilled
    if ((1 : Int) : K) ≤ tokens then (true, some { l with tokens := tokens - ((1 : Int) : K), last := now })
    else (false, some { l with tokens := tokens, last := now })

/-- `toInt` is the conversion `int(x)`. -/
def retryAfterSeconds (toInt : K → Int) (limiter : Option (GlobalRateLimiter K)) : Int :=
  match limiter with
  | none => 1
  | some l =>
    if l.refillPerSec ≤ ((0 : Int) : K) then 1
    else
      let secs := toInt (((1 : Int) : K) / l.refillPerSec + ((999 : Int) : K) / ((1000 : Int) : K))
      if secs < 1 then 1 else secs

end

/-- `int(x)` in exact arithmetic. -/
def truncate (x : ℚ) : Int := x.num.tdiv x.den

end Columbia.Gateway.RateLimit
