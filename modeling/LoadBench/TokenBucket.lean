/-
  LoadBench.TokenBucket

  Limiting the rate of commands.  A bucket holds up to `burst` tokens and gains
  `rate` of them each second.  A reservation takes its tokens at once, also those
  that are not there yet, and is told how long to wait for them; nobody waits
  while holding the bucket.

  A bucket counts in numbers of any kind that can be measured with (`Gauge`); that
  of a run counts in doubles.
-/

import LoadBench.TimeSpan

namespace LoadBench

/-- What a bucket needs of its numbers besides their arithmetic. -/
class Gauge (ν : Type) where
  ofNat : Nat → ν
  /-- A span of time as a number of seconds. -/
  seconds : TimeSpan → ν
  /-- The smaller of two numbers. -/
  least : ν → ν → ν
  /-- Whether a number is at least zero. -/
  isCovered : ν → Bool

instance : Gauge Binary64 where
  ofNat := Binary64.ofNat
  seconds := TimeSpan.toSeconds
  least := Binary64.min
  isCovered := Binary64.le Binary64.zero

/-- A bucket of tokens. -/
structure TokenBucket (ν : Type) where
  /-- Tokens gained each second. -/
  rate : ν
  /-- The most tokens held. -/
  burst : ν
  /-- Tokens held; below zero, tokens owed. -/
  tokens : ν
  /-- The latest moment of a reservation, in nanoseconds since the bucket was made. -/
  last : Nat
  deriving DecidableEq, Repr

namespace TokenBucket

variable {ν : Type} [Add ν] [Sub ν] [Mul ν] [Div ν] [Neg ν] [Gauge ν]

/-- A full bucket. It holds one token at least. -/
def full (rate burst : Nat) : TokenBucket ν where
  rate := Gauge.ofNat rate
  burst := Gauge.ofNat (Nat.max burst 1)
  tokens := Gauge.ofNat (Nat.max burst 1)
  last := 0

/-- The bucket at a moment, with the tokens gained since the last reservation. -/
def refill (bucket : TokenBucket ν) (now : Nat) : TokenBucket ν :=
  let elapsed := Gauge.seconds (TimeSpan.mk (now - bucket.last))
  { bucket with
    tokens := Gauge.least (bucket.tokens + elapsed * bucket.rate) bucket.burst
    -- A moment before the last one gains nothing and does not turn the clock back.
    last := Nat.max bucket.last now }

/-- Takes tokens out, also those that are not there. -/
def take (bucket : TokenBucket ν) (count : Nat) : TokenBucket ν :=
  { bucket with tokens := bucket.tokens - Gauge.ofNat count }

/-- How many seconds it takes until no token is owed. -/
def delay (bucket : TokenBucket ν) : ν :=
  if Gauge.isCovered bucket.tokens then Gauge.ofNat 0 else -bucket.tokens / bucket.rate

/-- Takes `count` tokens at a moment; how many seconds to wait for them. -/
def reserve (bucket : TokenBucket ν) (count now : Nat) : TokenBucket ν × ν :=
  let bucket := (bucket.refill now).take count
  (bucket, bucket.delay)

end TokenBucket

/-- The limit on the rate of a run: none, or a bucket that all workers share. -/
inductive RateLimit where
  | unlimited
  | limited (bucket : TokenBucket Binary64)
  deriving DecidableEq, Repr

namespace RateLimit

/-- The limit of `rate` commands each second; zero means no limit. -/
def ofRate (rate burst : Nat) : RateLimit :=
  if rate = 0 then .unlimited else .limited (TokenBucket.full rate burst)

/-- Whether there is a limit. -/
def isLimited : RateLimit → Bool
  | .unlimited => false
  | .limited _ => true

/-- Takes `count` tokens at a moment; how long to wait for them, if a span is as long. -/
def reserve (limit : RateLimit) (count now : Nat) : RateLimit × Option TimeSpan :=
  match limit with
  | .unlimited => (.unlimited, some TimeSpan.zero)
  | .limited bucket =>
    let (bucket, delay) := bucket.reserve count now
    (.limited bucket, TimeSpan.ofSeconds? delay)

end RateLimit

end LoadBench
