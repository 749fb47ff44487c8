import Mathlib.Algebra.Order.Floor.Semiring
import Mathlib.Data.Rat.Floor
import FraiseQL.RefillMeter
import FraiseQL.RetainMap

/-! The request rate limiter of the server (`middleware/rate_limit/`), with its in-memory and its Redis backend. Tokens
and times are rational numbers, times in seconds; the Redis script counts milli-tokens and milliseconds in natural
numbers. Each call reads the clock once. -/

namespace FraiseQL.RateLimit

/-! ### Configuration -/

/-- The limits of `RateLimitingSecurityConfig`. -/
structure RateLimitingSecurityConfig where
  authStartMaxRequests : Nat
  authStartWindowSecs : Nat
  authCallbackMaxRequests : Nat
  authCallbackWindowSecs : Nat
  authRefreshMaxRequests : Nat
  authRefreshWindowSecs : Nat

/-- The limits of `RateLimitConfig`. -/
structure RateLimitConfig where
  enabled : Bool
  rpsPerIp : Nat
  rpsPerUser : Nat
  burstSize : Nat
  cleanupIntervalSecs : Nat

structure PathRateLimit where
  pathPrefix : String
  tokensPerSec : ℚ
  burst : ℚ

def endpointRule (pathPrefix : String) (maxRequests windowSecs : Nat) : List PathRateLimit :=
  if 0 < maxRequests ∧ 0 < windowSecs then [⟨pathPrefix, maxRequests / windowSecs, maxRequests⟩] else []

/-- `with_path_rules_from_security` of both backends. -/
def pathRules (sec : RateLimitingSecurityConfig) : List PathRateLimit :=
  endpointRule "/auth/start" sec.authStartMaxRequests sec.authStartWindowSecs ++
    (endpointRule "/auth/callback" sec.authCallbackMaxRequests sec.authCallbackWindowSecs ++
      endpointRule "/auth/refresh" sec.authRefreshMaxRequests sec.authRefreshWindowSecs)

def pathMatchesRule (path pathPrefix : String) : Bool :=
  path = pathPrefix ||
    (pathPrefix.toList.isPrefixOf path.toList &&
      match path.toList.drop pathPrefix.toList.length with
      | '/' :: _ | '?' :: _ => true
      | _ => false)

structure CheckResult where
  allowed : Bool
  remaining : ℚ
  retryAfterSecs : Nat

def CheckResult.allow (remaining : ℚ) : CheckResult := ⟨true, remaining, 0⟩

def CheckResult.deny (retryAfterSecs : Nat) : CheckResult := ⟨false, 0, retryAfterSecs⟩

/-! ### Token buckets -/

structure TokenBucket where
  tokens : ℚ
  capacity : ℚ
  refillRate : ℚ
  lastRefill : ℚ

namespace TokenBucket

def new (capacity refillRate now : ℚ) : TokenBucket := ⟨capacity, capacity, refillRate, now⟩

/-- `token_count`. An earlier reading of the clock counts as no time. -/
def tokenCount (b : TokenBucket) (now : ℚ) : ℚ :=
  min (b.tokens + max 0 (now - b.lastRefill) * b.refillRate) b.capacity

def tryConsume (b : TokenBucket) (n now : ℚ) : TokenBucket × Bool :=
  if n ≤ b.tokenCount now then ({ b with tokens := b.tokenCount now - n, lastRefill := now }, true)
  else ({ b with tokens := b.tokenCount now, lastRefill := now }, false)

end TokenBucket

/-! ### The in-memory backend -/

/-- `InMemoryRateLimiter`, without its configuration. -/
structure InMemoryRateLimiter where
  ipBuckets : AList fun _ : String => TokenBucket
  userBuckets : AList fun _ : String => TokenBucket
  pathIpBuckets : AList fun _ : String × String => TokenBucket

namespace InMemoryRateLimiter

def empty : InMemoryRateLimiter := ⟨∅, ∅, ∅⟩

/-- `ceil(1 / rate)` as the number of seconds to wait, a `u32`. -/
def retryAfter (rate : ℚ) : Nat := if 0 < rate then max (min ⌈1 / rate⌉₊ (2 ^ 32 - 1)) 1 else 1

/-- Takes a token from the bucket of a key, which is made when there is none. -/
def consume {α : Type} [DecidableEq α] (key : α) (capacity rate now : ℚ) (buckets : AList fun _ : α => TokenBucket) :
    (AList fun _ : α => TokenBucket) × CheckResult :=
  let (bucket, allowed) := ((buckets.lookup key).getD (.new capacity rate now)).tryConsume 1 now
  (buckets.insert key bucket,
    if allowed then .allow (bucket.tokenCount now) else .deny (retryAfter rate))

section Calls

variable (config : RateLimitConfig) (rules : List PathRateLimit) (limiter : InMemoryRateLimiter)

def checkPathLimit (path ip : String) (now : ℚ) : InMemoryRateLimiter × CheckResult :=
  if !config.enabled then (limiter, .allow config.burstSize)
  else
    match rules.find? fun rule => pathMatchesRule path rule.pathPrefix with
    | none => (limiter, .allow config.burstSize)
    | some rule =>
      let (buckets, result) := consume (rule.pathPrefix, ip) rule.burst rule.tokensPerSec now limiter.pathIpBuckets
      ({ limiter with pathIpBuckets := buckets }, result)

def checkIpLimit (ip : String) (now : ℚ) : InMemoryRateLimiter × CheckResult :=
  if !config.enabled then (limiter, .allow config.burstSize)
  else
    let (buckets, result) := consume ip config.burstSize config.rpsPerIp now limiter.ipBuckets
    ({ limiter with ipBuckets := buckets }, result)

def checkUserLimit (userId : String) (now : ℚ) : InMemoryRateLimiter × CheckResult :=
  if !config.enabled then (limiter, .allow config.burstSize)
  else
    let (buckets, result) := consume userId config.burstSize config.rpsPerUser now limiter.userBuckets
    ({ limiter with userBuckets := buckets }, result)

/-- The time a bucket of the given rate takes to refill. -/
def refillSecs (rps : Nat) : ℚ := if rps = 0 then config.cleanupIntervalSecs else config.burstSize / rps

def keepUsed {α : Type} (threshold : ℚ) (buckets : AList fun _ : α => TokenBucket) : AList fun _ : α => TokenBucket :=
  buckets.retain fun _ b => decide (threshold ≤ b.lastRefill)

/-- `cleanup`: the buckets of the paths go by the threshold of the addresses. -/
def cleanup (now : ℚ) : InMemoryRateLimiter :=
  { ipBuckets := keepUsed (now - refillSecs config config.rpsPerIp) limiter.ipBuckets
    userBuckets := keepUsed (now - refillSecs config config.rpsPerUser) limiter.userBuckets
    pathIpBuckets := keepUsed (now - refillSecs config config.rpsPerIp) limiter.pathIpBuckets }

end Calls

end InMemoryRateLimiter

/-! ### The Redis backend -/

/-- The hash under a key, with the deadline `PEXPIRE` sets. -/
structure RedisBucket where
  tokens : Nat
  lastRefill : Nat
  expiresAt : Nat

/-- What the script returns. -/
structure ScriptReply where
  allowed : Nat
  remainingMilliTokens : Nat
  retryAfterMs : Nat

/-- `RATE_LIMIT_LUA`, on what is left of the hash at its moment. -/
def rateLimitLua (capacity rate now : Nat) (bucket : Option RedisBucket) : Option RedisBucket × ScriptReply :=
  let tokens := (bucket.map RedisBucket.tokens).getD capacity
  let lastRefill := (bucket.map RedisBucket.lastRefill).getD now
  let refill := (now - lastRefill) * rate / 1000
  let tokens := min capacity (tokens + refill)
  if 1000 ≤ tokens then
    let tokens := tokens - 1000
    (some ⟨tokens, now, now + (capacity * 1000 + (rate - 1)) / rate⟩, ⟨1, tokens, 0⟩)
  else (bucket, ⟨0, 0, ((1000 - tokens) * 1000 + (rate - 1)) / rate⟩)

abbrev RedisStore := AList fun _ : String => RedisBucket

namespace RedisRateLimiter

/-- The hash of a key before its deadline. -/
def live (store : RedisStore) (now : Nat) (key : String) : Option RedisBucket :=
  (store.lookup key).filter fun b => decide (now < b.expiresAt)

/-- `check_and_decrement`, with the server in reach. -/
def checkAndDecrement (store : RedisStore) (key : String) (capacity : Nat) (ratePerSec : ℚ) (now : Nat) :
    RedisStore × ScriptReply :=
  let capacityMillis := capacity * 1000
  let rateMillis := max ⌊ratePerSec * 1000⌋₊ 1
  let (bucket, reply) := rateLimitLua capacityMillis rateMillis now (live store now key)
  (match bucket with
    | some b => store.insert key b
    | none => store.erase key, reply)

def retryAfterMsToSecs (ms : Nat) : Nat := max ((ms + 999) / 1000) 1 % 2 ^ 32

section Calls

variable (config : RateLimitConfig) (rules : List PathRateLimit) (store : RedisStore)

/-- `check_key`, and what the checks make of its answer. -/
def checkKey (key : String) (capacity : Nat) (ratePerSec : ℚ) (now : Nat) : RedisStore × CheckResult :=
  if !config.enabled then (store, .allow config.burstSize)
  else
    let (store, reply) := checkAndDecrement store key capacity ratePerSec now
    (store, if reply.allowed = 1 then .allow (reply.remainingMilliTokens / 1000)
      else .deny (retryAfterMsToSecs reply.retryAfterMs))

def checkIpLimit (ip : String) (now : Nat) : RedisStore × CheckResult :=
  checkKey config store ("fraiseql:rl:ip:" ++ ip) config.burstSize config.rpsPerIp now

def checkUserLimit (userId : String) (now : Nat) : RedisStore × CheckResult :=
  checkKey config store ("fraiseql:rl:user:" ++ userId) config.burstSize config.rpsPerUser now

def checkPathLimit (path ip : String) (now : Nat) : RedisStore × CheckResult :=
  if !config.enabled then (store, .allow config.burstSize)
  else
    match rules.find? fun rule => pathMatchesRule path rule.pathPrefix with
    | none => (store, .allow config.burstSize)
    | some rule =>
      checkKey config store ("fraiseql:rl:path:" ++ rule.pathPrefix ++ ":" ++ ip) (max ⌊rule.burst⌋₊ 1)
        rule.tokensPerSec now

end Calls

end RedisRateLimiter

end FraiseQL.RateLimit
