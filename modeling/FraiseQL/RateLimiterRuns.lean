import Mathlib.Tactic.FieldSimp
import Mathlib.Tactic.Positivity
import FraiseQL.RateLimiter

/-! Runs of the in-memory rate limiter. The supply of a key is the token count of its bucket, and the capacity when it has
none. A bucket that is full is as good as none, so a clean-up that removes full buckets only changes no decision; the
buckets of addresses and users it removes are always full. -/

namespace FraiseQL.RateLimit

open EventRun TokenBucket List Nat

/-! ### Keys -/

/-- What limits a request: its address, its user, or its address on the paths of a rule. -/
inductive Key where
  | ip (ip : String)
  | user (userId : String)
  | path (pathPrefix ip : String)
  deriving DecidableEq

inductive Check where
  | ip (ip : String)
  | user (userId : String)
  | path (path ip : String)

section Keys

variable (config : RateLimitConfig) (rules : List PathRateLimit)

def ruleFor (path : String) : Option PathRateLimit := rules.find? fun rule => pathMatchesRule path rule.pathPrefix

/-- The key of a check; a path without a rule has none. -/
def keyOf : Check → Option Key
  | .ip ip => some (.ip ip)
  | .user userId => some (.user userId)
  | .path path ip => (ruleFor rules path).map fun rule => .path rule.pathPrefix ip

/-- The rule a prefix belongs to. -/
def ruleOf (pathPrefix : String) : Option PathRateLimit := rules.find? fun rule => rule.pathPrefix = pathPrefix

def capacityOf : Key → ℚ
  | .ip _ => config.burstSize
  | .user _ => config.burstSize
  | .path pathPrefix _ => ((ruleOf rules pathPrefix).map PathRateLimit.burst).getD 0

def rateOf : Key → ℚ
  | .ip _ => config.rpsPerIp
  | .user _ => config.rpsPerUser
  | .path pathPrefix _ => ((ruleOf rules pathPrefix).map PathRateLimit.tokensPerSec).getD 0

variable {rules}

/-- The rule of a path is the rule its prefix belongs to. -/
theorem ruleOf_ruleFor {path : String} {rule : PathRateLimit} (h : ruleFor rules path = some rule) :
    ruleOf rules rule.pathPrefix = some rule := by
  obtain ⟨hmatches, before, after, rfl, hbefore⟩ := find?_eq_some_iff_append.mp h
  refine find?_eq_some_iff_append.mpr ⟨by simp, before, after, rfl, ?_⟩
  intro earlier hearlier
  have hno := hbefore earlier hearlier
  simp only [Bool.not_eq_true', decide_eq_false_iff_not] at hno ⊢
  intro hsamePath
  rw [hsamePath, hmatches] at hno
  cases hno

end Keys

/-! ### The machine -/

/-- A check or a clean-up, with the reading of the clock. -/
structure Event where
  time : ℚ
  check : Option Check

/-- The limiter and the last reading of the clock. -/
structure Memory where
  limiter : InMemoryRateLimiter
  clock : ℚ

namespace Memory

/-- A limiter that was never asked. -/
def start : Memory := ⟨.empty, 0⟩

section Machine

variable (config : RateLimitConfig) (rules : List PathRateLimit)

def answer (s : Memory) (time : ℚ) : Check → InMemoryRateLimiter × CheckResult
  | .ip ip => s.limiter.checkIpLimit config ip time
  | .user userId => s.limiter.checkUserLimit config userId time
  | .path path ip => s.limiter.checkPathLimit config rules path ip time

def step (s : Memory) (e : Event) : Memory :=
  match e.check with
  | some check => ⟨(s.answer config rules e.time check).1, e.time⟩
  | none => ⟨s.limiter.cleanup config e.time, e.time⟩

/-- The answers to the checks of a run. -/
def decisions : Memory → List Event → List CheckResult
  | _, [] => []
  | s, e :: rest =>
    (e.check.map fun check => (s.answer config rules e.time check).2).toList ++
      decisions (s.step config rules e) rest

/-- Whether the event is a check with the key that is allowed. -/
def grants (key : Key) (s : Memory) (e : Event) : Bool :=
  match e.check with
  | some check => keyOf rules check = some key && (s.answer config rules e.time check).2.allowed
  | none => false

end Machine

def bucket (s : Memory) : Key → Option TokenBucket
  | .ip ip => s.limiter.ipBuckets.lookup ip
  | .user userId => s.limiter.userBuckets.lookup userId
  | .path pathPrefix ip => s.limiter.pathIpBuckets.lookup (pathPrefix, ip)

/-- The moment the buckets of a key must have been used since, not to be removed. -/
def threshold (config : RateLimitConfig) (now : ℚ) : Key → ℚ
  | .ip _ => now - InMemoryRateLimiter.refillSecs config config.rpsPerIp
  | .user _ => now - InMemoryRateLimiter.refillSecs config config.rpsPerUser
  | .path _ _ => now - InMemoryRateLimiter.refillSecs config config.rpsPerIp

/-- The clock does not go back, and a clean-up removes no bucket of a path that is not full. -/
def Fair (config : RateLimitConfig) (s : Memory) (e : Event) : Prop :=
  s.clock ≤ e.time ∧ (e.check = none → ∀ pathPrefix ip b, s.bucket (.path pathPrefix ip) = some b →
    b.lastRefill < threshold config e.time (.path pathPrefix ip) → b.tokenCount e.time = b.capacity)

end Memory

/-! ### Buckets -/

namespace TokenBucket

variable {b : TokenBucket} {now t u : ℚ}

theorem tokenCount_le (b : TokenBucket) (now : ℚ) : b.tokenCount now ≤ b.capacity := min_le_right _ _

theorem tokenCount_new (capacity rate now : ℚ) : (new capacity rate now).tokenCount now = capacity := by
  simp [tokenCount, new]

theorem elapsed_le (last : ℚ) (htu : t ≤ u) : max 0 (t - last) ≤ max 0 (u - last) :=
  max_le_max le_rfl (sub_le_sub_right htu last)

theorem tokenCount_mono (hrate : 0 ≤ b.refillRate) (htu : t ≤ u) : b.tokenCount t ≤ b.tokenCount u :=
  min_le_min (add_le_add le_rfl (mul_le_mul_of_nonneg_right (elapsed_le b.lastRefill htu) hrate)) le_rfl

theorem tokenCount_nonneg (htokens : 0 ≤ b.tokens) (hcapacity : 0 ≤ b.capacity) (hrate : 0 ≤ b.refillRate) (now : ℚ) :
    0 ≤ b.tokenCount now :=
  le_min (add_nonneg htokens (mul_nonneg (le_max_left _ _) hrate)) hcapacity

theorem tokenCount_refill (hrate : 0 ≤ b.refillRate) (htu : t ≤ u) :
    b.tokenCount u ≤ b.tokenCount t + b.refillRate * (u - t) := by
  have hflow : 0 ≤ b.refillRate * (u - t) := mul_nonneg hrate (sub_nonneg.mpr htu)
  have helapsed : max 0 (u - b.lastRefill) ≤ max 0 (t - b.lastRefill) + (u - t) := by
    apply max_le
    · exact add_nonneg (le_max_left _ _) (sub_nonneg.mpr htu)
    · linarith [le_max_right 0 (t - b.lastRefill)]
  have hscaled := mul_le_mul_of_nonneg_right helapsed hrate
  rw [tokenCount, tokenCount, min_add]
  apply min_le_min
  · linarith
  · linarith

/-- A bucket that was left alone for as long as it takes to refill is full. -/
theorem full_of_idle (htokens : 0 ≤ b.tokens) (hrate : 0 < b.refillRate)
    (hidle : b.lastRefill < now - b.capacity / b.refillRate) : b.tokenCount now = b.capacity := by
  have helapsed : b.capacity / b.refillRate ≤ max 0 (now - b.lastRefill) := by
    refine le_max_of_le_right ?_
    linarith
  have hfull : b.capacity ≤ max 0 (now - b.lastRefill) * b.refillRate := (div_le_iff₀ hrate).mp helapsed
  exact min_eq_right (by linarith)

/-- What a bucket is left with. -/
theorem tryConsume_eq (b : TokenBucket) (n now : ℚ) : b.tryConsume n now =
    ({ b with tokens := if n ≤ b.tokenCount now then b.tokenCount now - n else b.tokenCount now, lastRefill := now },
      decide (n ≤ b.tokenCount now)) := by
  rw [tryConsume]
  split_ifs with h
  · rw [decide_eq_true h]
  · rw [decide_eq_false h]

/-- A full bucket gives what a new one gives. -/
theorem tryConsume_full (hfull : b.tokenCount now = b.capacity) (n : ℚ) :
    b.tryConsume n now = (new b.capacity b.refillRate now).tryConsume n now := by
  rw [tryConsume_eq, tryConsume_eq, tokenCount_new, hfull]
  rfl

end TokenBucket

/-! ### What a step does -/

namespace Memory

section Steps

variable {config : RateLimitConfig} {rules : List PathRateLimit} {s : Memory} {e : Event}

/-- What a check makes of the bucket of its key. -/
def consumed (config : RateLimitConfig) (rules : List PathRateLimit) (s : Memory) (now : ℚ) (key : Key) :
    TokenBucket × Bool :=
  ((s.bucket key).getD (.new (capacityOf config rules key) (rateOf config rules key) now)).tryConsume 1 now

/-- A check with a key consumes from the bucket of the key and leaves the others. -/
theorem answer_spec (henabled : config.enabled = true) {check : Check} {key : Key} (now : ℚ)
    (hkey : keyOf rules check = some key) :
    (∀ k, bucket ⟨(s.answer config rules now check).1, now⟩ k =
      if k = key then some (consumed config rules s now key).1 else s.bucket k) ∧
      (s.answer config rules now check).2 =
        if (consumed config rules s now key).2 then .allow ((consumed config rules s now key).1.tokenCount now)
        else .deny (InMemoryRateLimiter.retryAfter (rateOf config rules key)) := by
  have hon : ¬(!config.enabled) = true := by simp [henabled]
  cases check with
  | ip ip =>
    obtain rfl := Option.some.inj hkey
    rw [answer, InMemoryRateLimiter.checkIpLimit, if_neg hon]
    refine ⟨?_, rfl⟩
    intro k
    cases k with
    | ip other =>
      by_cases hother : other = ip
      · subst hother
        rw [if_pos rfl]
        exact AList.lookup_insert _
      · rw [if_neg (by simpa using hother)]
        exact AList.lookup_insert_ne hother
    | user _ => rw [if_neg (by simp)]; rfl
    | path _ _ => rw [if_neg (by simp)]; rfl
  | user userId =>
    obtain rfl := Option.some.inj hkey
    rw [answer, InMemoryRateLimiter.checkUserLimit, if_neg hon]
    refine ⟨?_, rfl⟩
    intro k
    cases k with
    | user other =>
      by_cases hother : other = userId
      · subst hother
        rw [if_pos rfl]
        exact AList.lookup_insert _
      · rw [if_neg (by simpa using hother)]
        exact AList.lookup_insert_ne hother
    | ip _ => rw [if_neg (by simp)]; rfl
    | path _ _ => rw [if_neg (by simp)]; rfl
  | path path ip =>
    rw [keyOf, Option.map_eq_some_iff] at hkey
    obtain ⟨rule, hrule, rfl⟩ := hkey
    have hcapacity : capacityOf config rules (.path rule.pathPrefix ip) = rule.burst := by
      rw [capacityOf, ruleOf_ruleFor hrule]
      rfl
    have hrate : rateOf config rules (.path rule.pathPrefix ip) = rule.tokensPerSec := by
      rw [rateOf, ruleOf_ruleFor hrule]
      rfl
    rw [ruleFor] at hrule
    simp only [answer, InMemoryRateLimiter.checkPathLimit, if_neg hon, hrule, consumed, hcapacity, hrate]
    refine ⟨?_, rfl⟩
    intro k
    cases k with
    | path otherPrefix other =>
      by_cases hother : (otherPrefix, other) = (rule.pathPrefix, ip)
      · obtain ⟨rfl, rfl⟩ := Prod.mk.inj hother
        rw [if_pos rfl]
        exact AList.lookup_insert _
      · rw [if_neg (by simpa using hother)]
        exact AList.lookup_insert_ne hother
    | ip _ => rw [if_neg (by simp)]; rfl
    | user _ => rw [if_neg (by simp)]; rfl

/-- A check of a path without a rule changes nothing. -/
theorem answer_free {check : Check} (now : ℚ) (hkey : keyOf rules check = none) :
    s.answer config rules now check = (s.limiter, .allow config.burstSize) := by
  cases check with
  | ip ip => cases hkey
  | user userId => cases hkey
  | path path ip =>
    rw [keyOf, Option.map_eq_none_iff, ruleFor] at hkey
    rw [answer, InMemoryRateLimiter.checkPathLimit, hkey]
    split_ifs <;> rfl

/-- A clean-up keeps the buckets that were used since their threshold. -/
theorem cleanup_spec (now : ℚ) (k : Key) : bucket ⟨s.limiter.cleanup config now, now⟩ k =
    (s.bucket k).filter fun b => decide (threshold config now k ≤ b.lastRefill) := by
  cases k with
  | ip ip => exact AList.lookup_retain ..
  | user userId => exact AList.lookup_retain ..
  | path pathPrefix ip => exact AList.lookup_retain ..

end Steps

end Memory

/-! ### The supply of a key -/

/-- Positive limits, as the claims of the limiter are about. -/
structure Positive (config : RateLimitConfig) (rules : List PathRateLimit) : Prop where
  burst : 0 < config.burstSize
  ip : 0 < config.rpsPerIp
  user : 0 < config.rpsPerUser
  rules : ∀ rule ∈ rules, 1 ≤ rule.burst ∧ 0 < rule.tokensPerSec

theorem pathRules_positive (sec : RateLimitingSecurityConfig) :
    ∀ rule ∈ pathRules sec, 1 ≤ rule.burst ∧ 0 < rule.tokensPerSec := by
  have hone : ∀ pathPrefix maxRequests windowSecs, ∀ rule ∈ endpointRule pathPrefix maxRequests windowSecs,
      1 ≤ rule.burst ∧ 0 < rule.tokensPerSec := by
    intro pathPrefix maxRequests windowSecs rule hrule
    rw [endpointRule] at hrule
    split_ifs at hrule with hpositive
    · obtain rfl := mem_singleton.mp hrule
      obtain ⟨hmax, hwindow⟩ := hpositive
      have hmaxQ : (0 : ℚ) < maxRequests := cast_pos.mpr hmax
      have hwindowQ : (0 : ℚ) < windowSecs := cast_pos.mpr hwindow
      exact ⟨one_le_cast.mpr hmax, div_pos hmaxQ hwindowQ⟩
    · cases hrule
  intro rule hrule
  rw [pathRules, mem_append, mem_append] at hrule
  rcases hrule with hrule | hrule | hrule
  · exact hone _ _ _ rule hrule
  · exact hone _ _ _ rule hrule
  · exact hone _ _ _ rule hrule

section Supply

variable {config : RateLimitConfig} {rules : List PathRateLimit}

theorem limits_nonneg (hpositive : Positive config rules) (key : Key) :
    0 ≤ capacityOf config rules key ∧ 0 ≤ rateOf config rules key := by
  cases key with
  | ip ip => exact ⟨cast_nonneg _, cast_nonneg _⟩
  | user userId => exact ⟨cast_nonneg _, cast_nonneg _⟩
  | path pathPrefix ip =>
    rw [capacityOf, rateOf]
    cases hrule : ruleOf rules pathPrefix with
    | none => exact ⟨le_rfl, le_rfl⟩
    | some rule =>
      obtain ⟨hburst, hrate⟩ := hpositive.rules rule (mem_of_find?_eq_some hrule)
      exact ⟨zero_le_one.trans hburst, hrate.le⟩

namespace Memory

structure Fits (config : RateLimitConfig) (rules : List PathRateLimit) (key : Key) (b : TokenBucket) : Prop where
  capacity : b.capacity = capacityOf config rules key
  rate : b.refillRate = rateOf config rules key
  tokens : 0 ≤ b.tokens

def Inv (config : RateLimitConfig) (rules : List PathRateLimit) (s : Memory) : Prop :=
  ∀ key b, s.bucket key = some b → Fits config rules key b

/-- What a key has left at a moment. -/
def supply (config : RateLimitConfig) (rules : List PathRateLimit) (key : Key) (s : Memory) (now : ℚ) : ℚ :=
  ((s.bucket key).map fun b => b.tokenCount now).getD (capacityOf config rules key)

variable {s : Memory} {e : Event}

theorem inv_start : Inv config rules start := by
  intro key b hb
  cases key <;> cases hb

/-- The bucket a check consumes from. -/
theorem fits_current (hinv : Inv config rules s) (hpositive : Positive config rules) (key : Key) (now : ℚ) :
    Fits config rules key ((s.bucket key).getD (.new (capacityOf config rules key) (rateOf config rules key) now)) ∧
      ((s.bucket key).getD (.new (capacityOf config rules key) (rateOf config rules key) now)).tokenCount now =
        supply config rules key s now := by
  rw [supply]
  cases hb : s.bucket key with
  | some b => exact ⟨hinv key b hb, rfl⟩
  | none => exact ⟨⟨rfl, rfl, (limits_nonneg hpositive key).1⟩, tokenCount_new _ _ now⟩

theorem fits_consumed (hinv : Inv config rules s) (hpositive : Positive config rules) (key : Key) (now : ℚ) :
    Fits config rules key (consumed config rules s now key).1 := by
  obtain ⟨⟨hcapacity, hrate, htokens⟩, -⟩ := fits_current hinv hpositive key now
  rw [consumed, tryConsume_eq]
  refine ⟨hcapacity, hrate, ?_⟩
  split_ifs with hone
  · exact sub_nonneg.mpr hone
  · have hlimits := limits_nonneg hpositive key
    exact tokenCount_nonneg htokens (hlimits.1.trans_eq hcapacity.symm) (hlimits.2.trans_eq hrate.symm) now

/-- A removed bucket is full. -/
theorem full_of_removed (hinv : Inv config rules s) (hpositive : Positive config rules) (hfair : Fair config s e)
    (hcleanup : e.check = none) {key : Key} {b : TokenBucket} (hb : s.bucket key = some b)
    (hidle : b.lastRefill < threshold config e.time key) : b.tokenCount e.time = b.capacity := by
  obtain ⟨hcapacity, hrate, htokens⟩ := hinv key b hb
  cases key with
  | ip ip =>
    have hrps : (0 : ℚ) < config.rpsPerIp := cast_pos.mpr hpositive.ip
    apply full_of_idle htokens (hrate ▸ hrps)
    rw [hcapacity, hrate]
    rwa [threshold, InMemoryRateLimiter.refillSecs, if_neg hpositive.ip.ne'] at hidle
  | user userId =>
    have hrps : (0 : ℚ) < config.rpsPerUser := cast_pos.mpr hpositive.user
    apply full_of_idle htokens (hrate ▸ hrps)
    rw [hcapacity, hrate]
    rwa [threshold, InMemoryRateLimiter.refillSecs, if_neg hpositive.user.ne'] at hidle
  | path pathPrefix ip => exact hfair.2 hcleanup pathPrefix ip b hb hidle

theorem inv_step (henabled : config.enabled = true) (hinv : Inv config rules s) (hpositive : Positive config rules) :
    Inv config rules (s.step config rules e) := by
  intro k b hb
  rw [step] at hb
  cases hcheck : e.check with
  | none =>
    rw [hcheck] at hb
    have hspec := @cleanup_spec config s e.time k
    exact hinv k b (Option.mem_filter_iff.mp (hspec.symm.trans hb)).1
  | some check =>
    rw [hcheck] at hb
    cases hkey : keyOf rules check with
    | none =>
      have hfree := @answer_free config rules s check e.time hkey
      have hsame : bucket ⟨(s.answer config rules e.time check).1, e.time⟩ k = s.bucket k := by
        rw [hfree]
        rfl
      exact hinv k b (hsame.symm.trans hb)
    | some key =>
      have hspec := (answer_spec henabled e.time hkey (s := s)).1 k
      have heq := hspec.symm.trans hb
      split_ifs at heq with hk
      · obtain rfl := Option.some.inj heq
        rw [hk]
        exact fits_consumed hinv hpositive key e.time
      · exact hinv k b heq

/-- What a check leaves of the supply of its key. -/
theorem consumed_supply (hinv : Inv config rules s) (hpositive : Positive config rules) (key : Key) (now : ℚ) :
    (consumed config rules s now key).1.tokenCount now + (if (consumed config rules s now key).2 then 1 else 0) ≤
      supply config rules key s now := by
  obtain ⟨-, hcount⟩ := fits_current hinv hpositive key now
  rw [consumed, tryConsume_eq, hcount]
  simp only [tokenCount, sub_self, max_self, zero_mul, add_zero, decide_eq_true_eq]
  split_ifs with hone
  · linarith [min_le_left (supply config rules key s now - 1)
      ((s.bucket key).getD (.new (capacityOf config rules key) (rateOf config rules key) now)).capacity]
  · rw [add_zero]
    exact min_le_left _ _

theorem taken (henabled : config.enabled = true) (hinv : Inv config rules s) (hpositive : Positive config rules)
    (hfair : Fair config s e) (key : Key) :
    supply config rules key (s.step config rules e) e.time + (if grants config rules key s e then 1 else 0) ≤
      supply config rules key s e.time := by
  rw [step, grants]
  cases hcheck : e.check with
  | none =>
    have hspec := @cleanup_spec config s e.time key
    show supply config rules key ⟨s.limiter.cleanup config e.time, e.time⟩ e.time + 0 ≤ _
    rw [add_zero, supply, supply, hspec]
    cases hb : s.bucket key with
    | none => rfl
    | some b =>
      rw [Option.filter_some]
      split_ifs with hkept
      · rfl
      · have hidle : b.lastRefill < threshold config e.time key := by simpa using hkept
        have hfull := full_of_removed hinv hpositive hfair hcheck hb hidle
        show capacityOf config rules key ≤ b.tokenCount e.time
        rw [hfull, (hinv key b hb).capacity]
  | some check =>
    show supply config rules key ⟨(s.answer config rules e.time check).1, e.time⟩ e.time +
      (if (decide (keyOf rules check = some key) && (s.answer config rules e.time check).2.allowed) = true
        then 1 else 0) ≤ _
    cases hkey : keyOf rules check with
    | none =>
      rw [answer_free e.time hkey, if_neg (by simp), add_zero]
      rfl
    | some k =>
      obtain ⟨hbuckets, hresult⟩ := answer_spec henabled e.time hkey (s := s)
      rw [hresult, supply, hbuckets key]
      by_cases hk : key = k
      · subst hk
        rw [if_pos rfl]
        have hsupply := consumed_supply hinv hpositive key e.time
        cases hallowed : (consumed config rules s e.time key).2 with
        | false =>
          rw [hallowed] at hsupply
          simpa [CheckResult.deny] using hsupply
        | true =>
          rw [hallowed] at hsupply
          simpa [CheckResult.allow] using hsupply
      · rw [if_neg hk, if_neg (by simp [Ne.symm hk]), add_zero]
        rfl

/-- The supply of a key meters the checks with the key. -/
theorem metered (henabled : config.enabled = true) (hpositive : Positive config rules) (key : Key) :
    Metered (step config rules) Event.time (grants config rules key) Memory.clock (Inv config rules) (Fair config)
      (supply config rules key) (capacityOf config rules key) (rateOf config rules key) := by
  have hlimits := limits_nonneg hpositive key
  constructor
  · intro s t hinv _
    rw [supply]
    cases hb : s.bucket key with
    | none => exact hlimits.1
    | some b =>
      obtain ⟨hcapacity, hrate, htokens⟩ := hinv key b hb
      exact tokenCount_nonneg htokens (hcapacity ▸ hlimits.1) (hrate ▸ hlimits.2) t
  · intro s t hinv
    rw [supply]
    cases hb : s.bucket key with
    | none => exact le_rfl
    | some b => exact (hinv key b hb).capacity ▸ tokenCount_le b t
  · intro s t u hinv _ htu
    rw [supply, supply]
    cases hb : s.bucket key with
    | none => exact le_add_of_nonneg_right (mul_nonneg hlimits.2 (sub_nonneg.mpr htu))
    | some b =>
      have hrate := (hinv key b hb).rate
      rw [← hrate]
      exact tokenCount_refill (hrate ▸ hlimits.2) htu
  · intro s e _ hfair
    refine ⟨hfair.1, ?_⟩
    rw [step]
    cases e.check <;> rfl
  · intro s e hinv _
    exact inv_step henabled hinv hpositive
  · intro s e hinv hfair
    exact taken henabled hinv hpositive hfair key

/-! ### Runs without clean-ups -/

/-- The same buckets, where a full bucket may be missing on the left. -/
def Alike (s s' : Memory) : Prop :=
  ∀ key, s.bucket key = s'.bucket key ∨
    s.bucket key = none ∧ ∃ b, s'.bucket key = some b ∧ ∀ t, s.clock ≤ t → b.tokenCount t = b.capacity

variable {s' : Memory}

theorem consumed_alike (hinv : Inv config rules s') (halike : Alike s s') {now : ℚ} (hnow : s.clock ≤ now) (key : Key) :
    consumed config rules s now key = consumed config rules s' now key := by
  rw [consumed, consumed]
  rcases halike key with hsame | ⟨hnone, b, hb, hfull⟩
  · rw [hsame]
  · obtain ⟨hcapacity, hrate, -⟩ := hinv key b hb
    rw [hnone, hb, Option.getD_none, Option.getD_some, tryConsume_full (hfull now hnow), hcapacity, hrate]

theorem alike_check (henabled : config.enabled = true) (hinv : Inv config rules s') (halike : Alike s s') {now : ℚ}
    (hnow : s.clock ≤ now) (check : Check) :
    (s.answer config rules now check).2 = (s'.answer config rules now check).2 ∧
      Alike ⟨(s.answer config rules now check).1, now⟩ ⟨(s'.answer config rules now check).1, now⟩ := by
  have hlater : ∀ k, s.bucket k = s'.bucket k ∨
      s.bucket k = none ∧ ∃ b, s'.bucket k = some b ∧ ∀ t, now ≤ t → b.tokenCount t = b.capacity := by
    intro k
    rcases halike k with hsame | ⟨hnone, b, hb, hfull⟩
    · exact .inl hsame
    · exact .inr ⟨hnone, b, hb, fun t ht => hfull t (hnow.trans ht)⟩
  cases hkey : keyOf rules check with
  | none =>
    have hfree := @answer_free config rules s check now hkey
    have hfree' := @answer_free config rules s' check now hkey
    rw [hfree, hfree']
    exact ⟨rfl, hlater⟩
  | some key =>
    obtain ⟨hbuckets, hresult⟩ := answer_spec henabled now hkey (s := s)
    obtain ⟨hbuckets', hresult'⟩ := answer_spec henabled now hkey (s := s')
    have hconsumed := consumed_alike hinv halike hnow key
    refine ⟨by rw [hresult, hresult', hconsumed], ?_⟩
    intro k
    rw [hbuckets, hbuckets', hconsumed]
    split_ifs with hk
    · exact .inl rfl
    · exact hlater k

theorem alike_cleanup (hinv : Inv config rules s) (hpositive : Positive config rules) (halike : Alike s s')
    (hfair : Fair config s e) (hcleanup : e.check = none) : Alike ⟨s.limiter.cleanup config e.time, e.time⟩ s' := by
  intro k
  rw [@cleanup_spec config s e.time k]
  rcases halike k with hsame | ⟨hnone, b, hb, hfull⟩
  · cases hb : s.bucket k with
    | none => exact .inl (hsame ▸ hb.symm)
    | some b =>
      rw [Option.filter_some]
      split_ifs with hkept
      · exact .inl (hb.symm.trans hsame)
      · right
        refine ⟨rfl, b, hsame.symm.trans hb, ?_⟩
        intro t ht
        have hidle : b.lastRefill < threshold config e.time k := by simpa using hkept
        have hfull := full_of_removed hinv hpositive hfair hcleanup hb hidle
        have hrate : 0 ≤ b.refillRate := (hinv k b hb).rate ▸ (limits_nonneg hpositive k).2
        apply le_antisymm (tokenCount_le b t)
        rw [← hfull]
        exact (tokenCount_le b e.time).trans (hfull ▸ tokenCount_mono hrate ht)
  · right
    refine ⟨by rw [hnone]; rfl, b, hb, ?_⟩
    intro t ht
    exact hfull t (hfair.1.trans ht)

/-- The decisions of a run are those of the run without its clean-ups. -/
theorem decisions_eq (henabled : config.enabled = true) (hpositive : Positive config rules) {events : List Event}
    (hfair : Along (step config rules) (Fair config) s events) (hinv : Inv config rules s) (hinv' : Inv config rules s')
    (halike : Alike s s') :
    decisions config rules s events = decisions config rules s' (events.filter fun e => e.check.isSome) := by
  induction events generalizing s s' with
  | nil => rfl
  | cons e rest ih =>
    obtain ⟨he, hrest⟩ := hfair
    have hkept := inv_step (e := e) henabled hinv hpositive
    cases hcheck : e.check with
    | none =>
      have hstep : s.step config rules e = ⟨s.limiter.cleanup config e.time, e.time⟩ := by
        rw [step, hcheck]
      have hcleaned := alike_cleanup hinv hpositive halike he hcheck
      rw [decisions, hcheck, filter_cons_of_neg (by simp [hcheck])]
      exact ih hrest hkept hinv' (hstep ▸ hcleaned)
    | some check =>
      obtain ⟨hresult, hchecked⟩ := alike_check henabled hinv' halike he.1 check
      have hstep : ∀ s : Memory, s.step config rules e = ⟨(s.answer config rules e.time check).1, e.time⟩ := by
        intro s
        rw [step, hcheck]
      have htail := ih hrest hkept (inv_step (e := e) henabled hinv' hpositive) (by rw [hstep, hstep]; exact hchecked)
      rw [filter_cons_of_pos (by simp [hcheck]), decisions, decisions, hcheck, htail, Option.map_some,
        Option.map_some, hresult]

end Memory

end Supply

end FraiseQL.RateLimit
