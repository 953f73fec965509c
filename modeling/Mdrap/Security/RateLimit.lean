import Mathlib.Algebra.Order.Field.Rat
import Mdrap.Lib.Dict
import Mdrap.Lib.Leak
import Mdrap.Lib.Runs

/-!
# Limits of rates

`TokenBucketRateLimiter` keeps a bucket of tokens for each source and refills it at a rate up to a capacity. From 1024 buckets on, a
source without one takes the place of a bucket that is idle and full, or shares the bucket of `__overflow__`. Tokens and times are
rational numbers; the clock's reading is an argument. Beside the limiter a run lists what was granted, the last grant first.
-/

namespace Mdrap

namespace RateLimit

open Lib

/-- `TokenBucketRateLimiter`: a bucket holds its tokens and the time of its last update. -/
structure TokenBucketRateLimiter where
  rate : ℚ
  capacity : ℚ
  buckets : Dict String (ℚ × ℚ)

namespace TokenBucketRateLimiter

/-- `__init__`. -/
def new (rate capacity : ℚ) : TokenBucketRateLimiter := ⟨rate, capacity, .empty⟩

/-- `idle_sources`. -/
def idleSources (l : TokenBucketRateLimiter) (now : ℚ) : List String :=
  (l.buckets.items.filter (fun kv => 10 ≤ now - kv.2.2 ∧ l.capacity ≤ kv.2.1 + (now - kv.2.2) * l.rate)).map (·.1)

/-- The buckets after the eviction, and the bucket that the call goes to. -/
def place (l : TokenBucketRateLimiter) (now : ℚ) (source : String) : Dict String (ℚ × ℚ) × String :=
  if 1024 ≤ l.buckets.size ∧ l.buckets.contains source = false then
    let buckets := ((l.idleSources now).take (l.buckets.size - 1024 + 1)).foldl Dict.erase l.buckets
    if 1024 ≤ buckets.size ∧ buckets.contains source = false then (buckets, "__overflow__") else (buckets, source)
  else (l.buckets, source)

/-- `allow`. -/
def allow (l : TokenBucketRateLimiter) (now : ℚ) (source : String) (tokens : ℚ) : Bool × TokenBucketRateLimiter :=
  let (buckets, source) := l.place now source
  let (currentTokens, lastTime) := (buckets.get? source).getD (l.capacity, now)
  let elapsed := now - lastTime
  let currentTokens := min l.capacity (currentTokens + elapsed * l.rate)
  if tokens ≤ currentTokens then (true, { l with buckets := buckets.set source (currentTokens - tokens, now) })
  else (false, { l with buckets := buckets.set source (currentTokens, now) })

end TokenBucketRateLimiter

/-! ## Runs -/

/-- A call of `allow`. -/
structure Call where
  now : ℚ
  source : String
  tokens : ℚ

/-- A call that was granted, and the bucket that it took its tokens from. -/
structure Grant extends Call where
  bucket : String

/-- A limiter and what it has granted, the last grant first. -/
structure Run where
  limiter : TokenBucketRateLimiter
  granted : List Grant

namespace Run

def start (rate capacity : ℚ) : Run := ⟨.new rate capacity, []⟩

def step (r : Run) (c : Call) : Run :=
  let (granted, limiter) := r.limiter.allow c.now c.source c.tokens
  ⟨limiter, if granted then { c with bucket := (r.limiter.place c.now c.source).2 } :: r.granted else r.granted⟩

/-- When how many tokens were granted to a source. -/
def grantedTo (r : Run) (source : String) : List (ℚ × ℚ) :=
  (r.granted.filter (fun g => g.source = source)).map (fun g => (g.now, g.tokens))

/-- What was granted to a source from the shared bucket. -/
def overflowed (r : Run) (source : String) : List (ℚ × ℚ) :=
  (r.granted.filter (fun g => g.source = source ∧ g.bucket = "__overflow__")).map (fun g => (g.now, g.tokens))

/-- A source that is given a bucket of its own has had refilled what it was granted from the shared one. -/
def StartsFull (r : Run) (c : Call) : Prop :=
  (r.limiter.place c.now c.source).2 = c.source → c.source ≠ "__overflow__" → r.limiter.buckets.contains c.source = false →
    leftAt r.limiter.rate (r.overflowed c.source) c.now = 0

instance (r : Run) (c : Call) : Decidable (r.StartsFull c) := inferInstanceAs (Decidable (_ → _ → _ → _))

end Run

end RateLimit

end Mdrap
