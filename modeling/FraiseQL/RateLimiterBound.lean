import Mathlib.Data.Nat.Cast.Order.Field
import FraiseQL.RateLimiterRuns

/-! Runs of the Redis rate limiter, and the bound of both backends. A hash that has expired would be full, so its supply
is read from what was last written, whether it is still there or not; the script refills by whole milli-tokens, never
more than flowed in. -/

namespace FraiseQL.RateLimit

open EventRun RedisRateLimiter List Nat

/-- The keys of requests: a prefix has no colon. -/
def Key.Named : Key → Prop
  | .path pathPrefix _ => ':' ∉ pathPrefix.toList
  | _ => True

/-! ### The machine -/

/-- A check with the reading of the clock, in milliseconds. -/
structure RedisCheck where
  now : Nat
  check : Check

/-- The store and the last reading of the clock. -/
structure Redis where
  store : RedisStore
  clock : Nat

namespace Redis

def start : Redis := ⟨∅, 0⟩

/-- The reading of the clock in seconds. -/
def seconds (now : Nat) : ℚ := now / 1000

section Machine

variable (config : RateLimitConfig) (rules : List PathRateLimit)

def answer (s : Redis) (now : Nat) : Check → RedisStore × CheckResult
  | .ip ip => RedisRateLimiter.checkIpLimit config s.store ip now
  | .user userId => RedisRateLimiter.checkUserLimit config s.store userId now
  | .path path ip => RedisRateLimiter.checkPathLimit config rules s.store path ip now

def step (s : Redis) (e : RedisCheck) : Redis := ⟨(s.answer config rules e.now e.check).1, e.now⟩

def grants (key : Key) (s : Redis) (e : RedisCheck) : Bool :=
  keyOf rules e.check = some key && (s.answer config rules e.now e.check).2.allowed

/-- The clock does not go back, and the rule of the check refills a thousandth of a token a second at least. -/
def Fair (s : Redis) (e : RedisCheck) : Prop :=
  s.clock ≤ e.now ∧ ∀ key, keyOf rules e.check = some key → 1 / 1000 ≤ rateOf config rules key

end Machine

/-! ### Keys -/

/-- The name of a key in the store. -/
def keyText : Key → String
  | .ip ip => "fraiseql:rl:ip:" ++ ip
  | .user userId => "fraiseql:rl:user:" ++ userId
  | .path pathPrefix ip => "fraiseql:rl:path:" ++ pathPrefix ++ ":" ++ ip

/-- The text before the first colon. -/
theorem takeWhile_colon {a b : List Char} (h : ':' ∉ a) : (a ++ ':' :: b).takeWhile (· ≠ ':') = a := by
  rw [takeWhile_append_of_pos]
  · simp
  · intro c hc
    have hne : c ≠ ':' := by
      rintro rfl
      exact h hc
    simpa using hne

theorem keyText_ip (ip : String) : (keyText (.ip ip)).toList = "fraiseql:rl:ip:".toList ++ ip.toList := by
  have htext : keyText (.ip ip) = "fraiseql:rl:ip:" ++ ip := rfl
  rw [htext, String.toList_append]

theorem keyText_user (userId : String) :
    (keyText (.user userId)).toList = "fraiseql:rl:user:".toList ++ userId.toList := by
  have htext : keyText (.user userId) = "fraiseql:rl:user:" ++ userId := rfl
  rw [htext, String.toList_append]

theorem keyText_path (pathPrefix ip : String) : (keyText (.path pathPrefix ip)).toList =
    "fraiseql:rl:path:".toList ++ (pathPrefix.toList ++ ':' :: ip.toList) := by
  have htext : keyText (.path pathPrefix ip) = "fraiseql:rl:path:" ++ pathPrefix ++ ":" ++ ip := rfl
  rw [htext, String.toList_append, String.toList_append, String.toList_append, append_assoc, append_assoc]
  rfl

/-- The names of the three families differ behind what they share. -/
theorem families_ne (a b : List Char) : "fraiseql:rl:ip:".toList ++ a ≠ "fraiseql:rl:user:".toList ++ b ∧
    "fraiseql:rl:ip:".toList ++ a ≠ "fraiseql:rl:path:".toList ++ b ∧
    "fraiseql:rl:user:".toList ++ a ≠ "fraiseql:rl:path:".toList ++ b := by
  have hip : "fraiseql:rl:ip:".toList = "fraiseql:rl:".toList ++ ['i', 'p', ':'] := by decide
  have huser : "fraiseql:rl:user:".toList = "fraiseql:rl:".toList ++ ['u', 's', 'e', 'r', ':'] := by decide
  have hpath : "fraiseql:rl:path:".toList = "fraiseql:rl:".toList ++ ['p', 'a', 't', 'h', ':'] := by decide
  rw [hip, huser, hpath]
  simp only [append_assoc]
  refine ⟨?_, ?_, ?_⟩
  · intro h
    cases append_cancel_left h
  · intro h
    cases append_cancel_left h
  · intro h
    cases append_cancel_left h

theorem keyText_inj {k k' : Key} (hk : Key.Named k) (hk' : Key.Named k') (h : keyText k = keyText k') : k = k' := by
  have hlist := congrArg String.toList h
  cases k with
  | ip ip =>
    rw [keyText_ip] at hlist
    cases k' with
    | ip ip' =>
      rw [keyText_ip] at hlist
      rw [String.toList_inj.mp (append_cancel_left hlist)]
    | user userId => exact absurd (hlist.trans (keyText_user userId)) (families_ne _ _).1
    | path pathPrefix ip' => exact absurd (hlist.trans (keyText_path pathPrefix ip')) (families_ne _ _).2.1
  | user userId =>
    rw [keyText_user] at hlist
    cases k' with
    | user userId' =>
      rw [keyText_user] at hlist
      rw [String.toList_inj.mp (append_cancel_left hlist)]
    | ip ip => exact absurd (hlist.trans (keyText_ip ip)).symm (families_ne _ _).1
    | path pathPrefix ip => exact absurd (hlist.trans (keyText_path pathPrefix ip)) (families_ne _ _).2.2
  | path pathPrefix ip =>
    rw [keyText_path] at hlist
    cases k' with
    | path pathPrefix' ip' =>
      rw [keyText_path] at hlist
      have hrest := append_cancel_left hlist
      have hsamePath : pathPrefix = pathPrefix' := by
        apply String.toList_inj.mp
        rw [← takeWhile_colon (b := ip.toList) hk, hrest, takeWhile_colon hk']
      subst hsamePath
      have htail := append_cancel_left hrest
      rw [String.toList_inj.mp (cons.inj htail).2]
    | ip ip' => exact absurd (hlist.trans (keyText_ip ip')).symm (families_ne _ _).2.1
    | user userId => exact absurd (hlist.trans (keyText_user userId)).symm (families_ne _ _).2.2

theorem pathRules_named (sec : RateLimitingSecurityConfig) {check : Check} {key : Key}
    (hkey : keyOf (pathRules sec) check = some key) : key.Named := by
  have hone : ∀ {pathPrefix maxRequests windowSecs}, ∀ rule ∈ endpointRule pathPrefix maxRequests windowSecs,
      rule.pathPrefix = pathPrefix := by
    intro pathPrefix maxRequests windowSecs rule hrule
    rw [endpointRule] at hrule
    split_ifs at hrule
    · obtain rfl := mem_singleton.mp hrule
      rfl
    · cases hrule
  cases check with
  | ip ip =>
    cases hkey
    trivial
  | user userId =>
    cases hkey
    trivial
  | path path ip =>
    rw [keyOf, Option.map_eq_some_iff] at hkey
    obtain ⟨rule, hrule, rfl⟩ := hkey
    have hmem := mem_of_find?_eq_some hrule
    show ':' ∉ rule.pathPrefix.toList
    rw [pathRules, mem_append, mem_append] at hmem
    rcases hmem with hmem | hmem | hmem
    · rw [hone rule hmem]
      decide
    · rw [hone rule hmem]
      decide
    · rw [hone rule hmem]
      decide

/-! ### The script -/

section Script

variable (config : RateLimitConfig) (rules : List PathRateLimit)

/-- The capacity the script is given, in whole tokens. -/
def wholeCapacity : Key → Nat
  | .ip _ => config.burstSize
  | .user _ => config.burstSize
  | .path pathPrefix _ => max ⌊((ruleOf rules pathPrefix).map PathRateLimit.burst).getD 0⌋₊ 1

/-- The rate the script is given. -/
def milliRate (key : Key) : Nat := max ⌊rateOf config rules key * 1000⌋₊ 1

/-- What the script sees in a bucket. -/
def milliTokens (capacity rate now : Nat) (bucket : Option RedisBucket) : Nat :=
  min capacity ((bucket.map RedisBucket.tokens).getD capacity +
    (now - (bucket.map RedisBucket.lastRefill).getD now) * rate / 1000)

theorem rateLimitLua_eq (capacity rate now : Nat) (bucket : Option RedisBucket) :
    rateLimitLua capacity rate now bucket =
      if 1000 ≤ milliTokens capacity rate now bucket then
        (some ⟨milliTokens capacity rate now bucket - 1000, now, now + (capacity * 1000 + (rate - 1)) / rate⟩,
          ⟨1, milliTokens capacity rate now bucket - 1000, 0⟩)
      else (bucket, ⟨0, 0, ((1000 - milliTokens capacity rate now bucket) * 1000 + (rate - 1)) / rate⟩) := rfl

variable {config rules} {s : Redis} {e : RedisCheck}

/-- A check with a key runs the script on the bucket of the key. -/
theorem answer_spec (henabled : config.enabled = true) {check : Check} {key : Key} (now : Nat)
    (hkey : keyOf rules check = some key) : ∃ remaining retryAfterSecs, s.answer config rules now check =
      ((checkAndDecrement s.store (keyText key) (wholeCapacity config rules key)
          (rateOf config rules key) now).1,
        if (checkAndDecrement s.store (keyText key) (wholeCapacity config rules key)
          (rateOf config rules key) now).2.allowed = 1 then .allow remaining else .deny retryAfterSecs) := by
  have hon : ¬(!config.enabled) = true := by simp [henabled]
  cases check with
  | ip ip =>
    obtain rfl := Option.some.inj hkey
    rw [answer, checkIpLimit, checkKey, if_neg hon]
    exact ⟨_, _, rfl⟩
  | user userId =>
    obtain rfl := Option.some.inj hkey
    rw [answer, checkUserLimit, checkKey, if_neg hon]
    exact ⟨_, _, rfl⟩
  | path path ip =>
    rw [keyOf, Option.map_eq_some_iff] at hkey
    obtain ⟨rule, hrule, rfl⟩ := hkey
    have hcapacity : wholeCapacity config rules (.path rule.pathPrefix ip) = max ⌊rule.burst⌋₊ 1 := by
      rw [wholeCapacity, ruleOf_ruleFor hrule]
      rfl
    have hrate : rateOf config rules (.path rule.pathPrefix ip) = rule.tokensPerSec := by
      rw [rateOf, ruleOf_ruleFor hrule]
      rfl
    rw [ruleFor] at hrule
    rw [answer, checkPathLimit, if_neg hon, hrule, hcapacity, hrate]
    simp only [checkKey, if_neg hon]
    exact ⟨_, _, rfl⟩

theorem answer_free {check : Check} (now : Nat) (hkey : keyOf rules check = none) :
    s.answer config rules now check = (s.store, .allow config.burstSize) := by
  cases check with
  | ip ip => cases hkey
  | user userId => cases hkey
  | path path ip =>
    rw [keyOf, Option.map_eq_none_iff, ruleFor] at hkey
    rw [answer, checkPathLimit, hkey]
    split_ifs <;> rfl

/-- A check with a key writes under the name of the key only. -/
theorem answer_lookup (henabled : config.enabled = true) {check : Check} {key k : Key} (now : Nat)
    (hkey : keyOf rules check = some key) (hnamed : key.Named) (hk : k.Named) :
    (s.answer config rules now check).1.lookup (keyText k) =
      if k = key then (rateLimitLua (wholeCapacity config rules key * 1000) (milliRate config rules key) now
        (live s.store now (keyText key))).1
      else s.store.lookup (keyText k) := by
  obtain ⟨remaining, retryAfterSecs, hanswer⟩ := answer_spec henabled now hkey (s := s)
  rw [hanswer, checkAndDecrement, milliRate]
  have hne : k ≠ key → keyText k ≠ keyText key := fun hother htext => hother (keyText_inj hk hnamed htext)
  dsimp only
  cases (rateLimitLua (wholeCapacity config rules key * 1000) (max ⌊rateOf config rules key * 1000⌋₊ 1) now
    (live s.store now (keyText key))).1 with
  | none =>
    by_cases hsame : k = key
    · rw [if_pos hsame, hsame]
      exact AList.lookup_erase ..
    · rw [if_neg hsame]
      exact AList.lookup_erase_ne (hne hsame)
  | some b =>
    by_cases hsame : k = key
    · rw [if_pos hsame, hsame]
      exact AList.lookup_insert _
    · rw [if_neg hsame]
      exact AList.lookup_insert_ne (hne hsame)

end Script

/-! ### The supply of a key -/

section Supply

variable (config : RateLimitConfig) (rules : List PathRateLimit)

/-- The bucket of whole tokens that a hash stands for. -/
def tokenBucket (key : Key) (b : RedisBucket) : TokenBucket :=
  ⟨b.tokens / 1000, wholeCapacity config rules key, milliRate config rules key / 1000, seconds b.lastRefill⟩

/-- A hash whose rule refills at the rate it names, with the deadline of its last write. -/
structure Fits (key : Key) (b : RedisBucket) : Prop where
  rate : 1 / 1000 ≤ rateOf config rules key
  deadline : b.expiresAt = b.lastRefill +
    (wholeCapacity config rules key * 1000 * 1000 + (milliRate config rules key - 1)) / milliRate config rules key

def Inv (s : Redis) : Prop :=
  ∀ key : Key, key.Named → ∀ b, s.store.lookup (keyText key) = some b → Fits config rules key b

/-- What is left of a hash at a moment; a missing one is full. -/
def left (key : Key) (bucket : Option RedisBucket) (now : ℚ) : ℚ :=
  (bucket.map fun b => (tokenBucket config rules key b).tokenCount now).getD (wholeCapacity config rules key)

/-- What a key has left at a moment. -/
def supply (key : Key) (s : Redis) (now : ℚ) : ℚ := left config rules key (s.store.lookup (keyText key)) now

variable {config rules} {s : Redis} {e : RedisCheck} {key : Key}

theorem milliRate_pos (key : Key) : 0 < milliRate config rules key :=
  lt_of_lt_of_le zero_lt_one (le_max_right _ _)

theorem milliRate_le (hrate : 1 / 1000 ≤ rateOf config rules key) :
    (milliRate config rules key : ℚ) / 1000 ≤ rateOf config rules key := by
  have hone : 1 ≤ rateOf config rules key * 1000 := by linarith
  have hfloor : (⌊rateOf config rules key * 1000⌋₊ : ℚ) ≤ rateOf config rules key * 1000 :=
    floor_le (zero_le_one.trans hone)
  have hmax : (milliRate config rules key : ℚ) ≤ rateOf config rules key * 1000 := by
    rw [milliRate, cast_max, cast_one]
    exact max_le hfloor hone
  linarith

theorem wholeCapacity_le (hpositive : Positive config rules) {check : Check} (hkey : keyOf rules check = some key) :
    (wholeCapacity config rules key : ℚ) ≤ capacityOf config rules key := by
  cases check with
  | ip ip =>
    cases hkey
    exact le_rfl
  | user userId =>
    cases hkey
    exact le_rfl
  | path path ip =>
    rw [keyOf, Option.map_eq_some_iff] at hkey
    obtain ⟨rule, hrule, rfl⟩ := hkey
    obtain ⟨hburst, -⟩ := hpositive.rules rule (mem_of_find?_eq_some hrule)
    have hfloor : (⌊rule.burst⌋₊ : ℚ) ≤ rule.burst := floor_le (zero_le_one.trans hburst)
    rw [wholeCapacity, capacityOf, ruleOf_ruleFor hrule, cast_max, cast_one]
    exact max_le hfloor hburst

/-- The script never sees more than is left. -/
theorem milliTokens_le (key : Key) (now : Nat) (bucket : Option RedisBucket) :
    (milliTokens (wholeCapacity config rules key * 1000) (milliRate config rules key) now bucket : ℚ) / 1000 ≤
      left config rules key bucket (seconds now) := by
  have hcapped : (milliTokens (wholeCapacity config rules key * 1000) (milliRate config rules key) now bucket : ℚ) ≤
      wholeCapacity config rules key * 1000 := by
    have hmin : milliTokens (wholeCapacity config rules key * 1000) (milliRate config rules key) now bucket ≤
        wholeCapacity config rules key * 1000 := min_le_left _ _
    exact_mod_cast hmin
  cases bucket with
  | none =>
    show _ ≤ (wholeCapacity config rules key : ℚ)
    linarith
  | some b =>
    have hseen : milliTokens (wholeCapacity config rules key * 1000) (milliRate config rules key) now (some b) ≤
        b.tokens + (now - b.lastRefill) * milliRate config rules key / 1000 := min_le_right _ _
    have hseenQ : (milliTokens (wholeCapacity config rules key * 1000) (milliRate config rules key) now (some b) : ℚ) ≤
        b.tokens + ((now - b.lastRefill) * milliRate config rules key / 1000 : Nat) := by exact_mod_cast hseen
    have hflow : (((now - b.lastRefill) * milliRate config rules key / 1000 : Nat) : ℚ) ≤
        ((now - b.lastRefill : Nat) : ℚ) * milliRate config rules key / 1000 := by
      have hdiv := @cast_div_le ℚ _ _ _ ((now - b.lastRefill) * milliRate config rules key) 1000
      rwa [cast_mul] at hdiv
    have helapsed : ((now - b.lastRefill : Nat) : ℚ) / 1000 = max 0 (seconds now - seconds b.lastRefill) := by
      rw [seconds, seconds, ← sub_div]
      rcases le_total b.lastRefill now with hle | hle
      · have hleQ : (b.lastRefill : ℚ) ≤ now := cast_le.mpr hle
        rw [cast_sub hle, max_eq_right (div_nonneg (sub_nonneg.mpr hleQ) (by norm_num))]
      · have hleQ : (now : ℚ) ≤ b.lastRefill := Nat.cast_le.mpr hle
        rw [Nat.sub_eq_zero_of_le hle, Nat.cast_zero, zero_div,
          max_eq_left (div_nonpos_of_nonpos_of_nonneg (sub_nonpos.mpr hleQ) (by norm_num))]
    show _ ≤ min ((b.tokens : ℚ) / 1000 + max 0 (seconds now - seconds b.lastRefill) *
      ((milliRate config rules key : ℚ) / 1000)) (wholeCapacity config rules key)
    rw [← helapsed]
    apply le_min
    · linarith
    · linarith

/-- A hash that is past its deadline would be full. -/
theorem full_of_expired {b : RedisBucket} (hfits : Fits config rules key b) {now : Nat} (hexpired : b.expiresAt ≤ now) :
    (tokenBucket config rules key b).tokenCount (seconds now) = wholeCapacity config rules key := by
  have hpos := @milliRate_pos config rules key
  have hceil : wholeCapacity config rules key * 1000 * 1000 ≤ (now - b.lastRefill) * milliRate config rules key := by
    have hdeadline := hfits.deadline
    have hmod := div_add_mod (wholeCapacity config rules key * 1000 * 1000 + (milliRate config rules key - 1))
      (milliRate config rules key)
    have hlt := mod_lt (wholeCapacity config rules key * 1000 * 1000 + (milliRate config rules key - 1)) hpos
    have hlong : (wholeCapacity config rules key * 1000 * 1000 + (milliRate config rules key - 1)) /
        milliRate config rules key ≤ now - b.lastRefill := by omega
    have hscaled := mul_le_mul_left (milliRate config rules key) hlong
    rw [mul_comm (now - b.lastRefill)]
    omega
  have hceilQ : (wholeCapacity config rules key : ℚ) * 1000 * 1000 ≤
      ((now - b.lastRefill : Nat) : ℚ) * milliRate config rules key := by exact_mod_cast hceil
  have hseen : ((now - b.lastRefill : Nat) : ℚ) ≤ max 0 (seconds now - seconds b.lastRefill) * 1000 := by
    rcases le_total b.lastRefill now with hle | hle
    · rw [cast_sub hle, seconds, seconds]
      have hmax := le_max_right (0 : ℚ) (now / 1000 - b.lastRefill / 1000)
      linarith
    · rw [Nat.sub_eq_zero_of_le hle, Nat.cast_zero]
      exact mul_nonneg (le_max_left _ _) (by norm_num)
  have hrate : (0 : ℚ) ≤ milliRate config rules key := Nat.cast_nonneg _
  have htokens : (0 : ℚ) ≤ b.tokens := cast_nonneg _
  have hflow := mul_le_mul_of_nonneg_right hseen hrate
  apply min_eq_right
  show (wholeCapacity config rules key : ℚ) ≤ (b.tokens : ℚ) / 1000 + max 0 (seconds now - seconds b.lastRefill) *
    ((milliRate config rules key : ℚ) / 1000)
  linarith

theorem left_live (hinv : Inv config rules s) (hnamed : key.Named) (now : Nat) :
    left config rules key (live s.store now (keyText key)) (seconds now) =
      supply config rules key s (seconds now) := by
  rw [supply, live]
  cases hb : s.store.lookup (keyText key) with
  | none => rfl
  | some b =>
    rw [Option.filter_some]
    split_ifs with hlive
    · rfl
    · have hexpired : b.expiresAt ≤ now := by simpa using hlive
      exact (full_of_expired (hinv key hnamed b hb) hexpired).symm

theorem script_supply (hinv : Inv config rules s) (hnamed : key.Named) (now : Nat) :
    left config rules key (rateLimitLua (wholeCapacity config rules key * 1000) (milliRate config rules key) now
        (live s.store now (keyText key))).1 (seconds now) +
      (if (rateLimitLua (wholeCapacity config rules key * 1000) (milliRate config rules key) now
        (live s.store now (keyText key))).2.allowed = 1 then 1 else 0) ≤
      supply config rules key s (seconds now) := by
  have hseen := @milliTokens_le config rules key now (live s.store now (keyText key))
  rw [left_live hinv hnamed now] at hseen
  rw [rateLimitLua_eq]
  by_cases hone : 1000 ≤ milliTokens (wholeCapacity config rules key * 1000) (milliRate config rules key) now
      (live s.store now (keyText key))
  · have hcount : left config rules key (some ⟨milliTokens (wholeCapacity config rules key * 1000)
        (milliRate config rules key) now (live s.store now (keyText key)) - 1000, now, now +
          (wholeCapacity config rules key * 1000 * 1000 + (milliRate config rules key - 1)) /
            milliRate config rules key⟩) (seconds now) ≤
        ((milliTokens (wholeCapacity config rules key * 1000) (milliRate config rules key) now
          (live s.store now (keyText key)) - 1000 : Nat) : ℚ) / 1000 := by
      refine (min_le_left _ _).trans ?_
      rw [tokenBucket, sub_self, max_self, zero_mul, add_zero]
    rw [cast_sub hone] at hcount
    push_cast at hcount
    rw [if_pos hone, if_pos rfl]
    linarith
  · rw [if_neg hone, if_neg zero_ne_one, add_zero]
    exact (left_live hinv hnamed now).le

variable (hnamed : ∀ {check : Check} {key : Key}, keyOf rules check = some key → key.Named)
include hnamed

theorem inv_step (henabled : config.enabled = true) (hinv : Inv config rules s) (hfair : Fair config rules s e) :
    Inv config rules (s.step config rules e) := by
  intro k hk b hb
  rw [step] at hb
  cases hkey : keyOf rules e.check with
  | none =>
    rw [answer_free e.now hkey] at hb
    exact hinv k hk b hb
  | some key =>
    rw [answer_lookup henabled e.now hkey (hnamed hkey) hk] at hb
    split_ifs at hb with hsame
    · rw [hsame]
      rw [rateLimitLua_eq] at hb
      split_ifs at hb with hone
      · obtain rfl := Option.some.inj hb
        exact ⟨hfair.2 key hkey, rfl⟩
      · rw [live] at hb
        exact hinv key (hnamed hkey) b (Option.mem_filter_iff.mp hb).1
    · exact hinv k hk b hb

theorem taken (henabled : config.enabled = true) (hinv : Inv config rules s) (hk : key.Named) :
    supply config rules key (s.step config rules e) (seconds e.now) + (if grants config rules key s e then 1 else 0) ≤
      supply config rules key s (seconds e.now) := by
  cases hkey : keyOf rules e.check with
  | none =>
    rw [grants, step, hkey, answer_free e.now hkey, if_neg (by simp), add_zero]
    exact le_rfl
  | some k =>
    rw [supply, step, answer_lookup henabled e.now hkey (hnamed hkey) hk, grants, hkey]
    by_cases hsame : key = k
    · subst hsame
      obtain ⟨remaining, retryAfterSecs, hanswer⟩ := answer_spec henabled e.now hkey (s := s)
      have hscript := script_supply hinv hk e.now
      rw [if_pos rfl, hanswer]
      by_cases hallowed : (rateLimitLua (wholeCapacity config rules key * 1000) (milliRate config rules key) e.now
          (live s.store e.now (keyText key))).2.allowed = 1
      · rw [if_pos hallowed] at hscript
        have hreply : (checkAndDecrement s.store (keyText key) (wholeCapacity config rules key)
            (rateOf config rules key) e.now).2.allowed = 1 := hallowed
        rw [if_pos hreply]
        simpa [CheckResult.allow] using hscript
      · rw [if_neg hallowed] at hscript
        have hreply : ¬(checkAndDecrement s.store (keyText key) (wholeCapacity config rules key)
            (rateOf config rules key) e.now).2.allowed = 1 := hallowed
        rw [if_neg hreply]
        simpa [CheckResult.deny] using hscript
    · rw [if_neg hsame, if_neg (by simp [Ne.symm hsame]), add_zero]
      exact le_rfl

/-- The supply of a key meters the checks with the key. -/
theorem metered (henabled : config.enabled = true) (hpositive : Positive config rules) {check : Check}
    (hkey : keyOf rules check = some key) :
    Metered (step config rules) (fun e => seconds e.now) (grants config rules key) (fun s => seconds s.clock)
      (Inv config rules) (Fair config rules) (supply config rules key) (capacityOf config rules key)
      (rateOf config rules key) := by
  have hrateOf := (limits_nonneg hpositive key).2
  have hcapacity : (0 : ℚ) ≤ wholeCapacity config rules key := cast_nonneg _
  have hrate : (0 : ℚ) ≤ (milliRate config rules key : ℚ) / 1000 := div_nonneg (cast_nonneg _) (by norm_num)
  constructor
  · intro s t _ _
    rw [supply]
    cases s.store.lookup (keyText key) with
    | none => exact hcapacity
    | some b =>
      have htokens : (0 : ℚ) ≤ (b.tokens : ℚ) / 1000 := div_nonneg (cast_nonneg _) (by norm_num)
      exact TokenBucket.tokenCount_nonneg htokens hcapacity hrate t
  · intro s t _
    refine le_trans ?_ (wholeCapacity_le hpositive hkey)
    rw [supply]
    cases s.store.lookup (keyText key) with
    | none => exact le_rfl
    | some b => exact TokenBucket.tokenCount_le (tokenBucket config rules key b) t
  · intro s t u hinv _ htu
    have hsince : 0 ≤ u - t := sub_nonneg.mpr htu
    rw [supply, supply]
    cases hb : s.store.lookup (keyText key) with
    | none => exact le_add_of_nonneg_right (mul_nonneg hrateOf hsince)
    | some b =>
      have hflow := mul_le_mul_of_nonneg_right (milliRate_le (hinv key (hnamed hkey) b hb).rate) hsince
      have hrefill := TokenBucket.tokenCount_refill (b := tokenBucket config rules key b) hrate htu
      exact hrefill.trans (add_le_add le_rfl hflow)
  · intro s e _ hfair
    exact ⟨div_le_div_of_nonneg_right (cast_le.mpr hfair.1) (by norm_num), rfl⟩
  · intro s e hinv hfair
    exact inv_step hnamed henabled hinv hfair
  · intro s e hinv _
    exact taken hnamed henabled hinv (hnamed hkey)

end Supply

end Redis

/-! ### The bound -/

section Bound

variable {config : RateLimitConfig} {rules : List PathRateLimit}

theorem Memory.granted_le (henabled : config.enabled = true) (hpositive : Positive config rules) {events : List Event}
    (hevents : Along (Memory.step config rules) (Memory.Fair config) .start events) (key : Key) {first last : ℚ}
    (hinterval : first ≤ last) :
    (granted (Memory.step config rules) Event.time (Memory.grants config rules key) first last .start events : ℚ) ≤
      capacityOf config rules key + rateOf config rules key * (last - first) := by
  obtain ⟨hcapacity, hrate⟩ := limits_nonneg hpositive key
  exact (Memory.metered henabled hpositive key).granted_le hrate hcapacity Memory.inv_start hevents hinterval

theorem Redis.granted_le (henabled : config.enabled = true) (hpositive : Positive config rules)
    (hnamed : ∀ {check : Check} {key : Key}, keyOf rules check = some key → key.Named) {checks : List RedisCheck}
    (hchecks : Along (Redis.step config rules) (Redis.Fair config rules) .start checks) (key : Key) {first last : ℚ}
    (hinterval : first ≤ last) :
    (granted (Redis.step config rules) (fun e => Redis.seconds e.now) (Redis.grants config rules key) first last .start
      checks : ℚ) ≤ capacityOf config rules key + rateOf config rules key * (last - first) := by
  obtain ⟨hcapacity, hrate⟩ := limits_nonneg hpositive key
  have hstart : Redis.Inv config rules .start := by
    intro k _ b hb
    cases hb
  by_cases hknown : ∃ check, keyOf rules check = some key
  · obtain ⟨check, hkey⟩ := hknown
    exact (Redis.metered hnamed henabled hpositive hkey).granted_le hrate hcapacity hstart hchecks hinterval
  · have hnever : ∀ s e, Redis.grants config rules key s e = false := by
      intro s e
      have hother : ¬keyOf rules e.check = some key := fun hkey => hknown ⟨e.check, hkey⟩
      rw [Redis.grants, decide_eq_false hother, Bool.false_and]
    rw [granted_of_never hnever, cast_zero]
    exact add_nonneg hcapacity (mul_nonneg hrate (sub_nonneg.mpr hinterval))

end Bound

/-- No key is granted more in an interval than its burst and what flows in, and clean-ups change no decision, in every
run whose clean-ups remove full path buckets only; and the same bound holds in every run over Redis whose rules refill a
thousandth of a token a second at least. -/
theorem window_bound (sec : RateLimitingSecurityConfig) (config : RateLimitConfig) (henabled : config.enabled = true)
    (hburst : 0 < config.burstSize) (hip : 0 < config.rpsPerIp) (huser : 0 < config.rpsPerUser) :
    (∀ events, Along (Memory.step config (pathRules sec)) (Memory.Fair config) .start events →
      (∀ key first last, first ≤ last →
        (granted (Memory.step config (pathRules sec)) Event.time (Memory.grants config (pathRules sec) key) first last
          .start events : ℚ) ≤
          capacityOf config (pathRules sec) key + rateOf config (pathRules sec) key * (last - first)) ∧
      Memory.decisions config (pathRules sec) .start events =
        Memory.decisions config (pathRules sec) .start (events.filter fun e => e.check.isSome)) ∧
    ∀ checks, Along (Redis.step config (pathRules sec)) (Redis.Fair config (pathRules sec)) .start checks →
      ∀ key first last, first ≤ last →
        (granted (Redis.step config (pathRules sec)) (fun e => Redis.seconds e.now)
          (Redis.grants config (pathRules sec) key) first last .start checks : ℚ) ≤
          capacityOf config (pathRules sec) key + rateOf config (pathRules sec) key * (last - first) := by
  have hpositive : Positive config (pathRules sec) := ⟨hburst, hip, huser, pathRules_positive sec⟩
  refine ⟨?_, ?_⟩
  · intro events hevents
    refine ⟨?_, ?_⟩
    · intro key first last hinterval
      exact Memory.granted_le henabled hpositive hevents key hinterval
    · have hsame : Memory.Alike .start .start := fun key => .inl rfl
      exact Memory.decisions_eq henabled hpositive hevents Memory.inv_start Memory.inv_start hsame
  · intro checks hchecks key first last hinterval
    exact Redis.granted_le henabled hpositive (Redis.pathRules_named sec) hchecks key hinterval

/-! ### Requests with other keys -/

namespace Memory

variable {config : RateLimitConfig} {rules : List PathRateLimit}

theorem bucket_filter (henabled : config.enabled = true) (key : Key) (events : List Event) :
    (run (step config rules) start events).bucket key =
      (run (step config rules) start
        (events.filter fun e => e.check.all fun c => keyOf rules c = some key)).bucket key := by
  apply run_filter (bucket · key) _ _ rfl events
  · intro s s' e he hsame
    cases hcheck : e.check with
    | none => simp only [step, hcheck, cleanup_spec, hsame]
    | some check =>
      have hkey : keyOf rules check = some key := by simpa [hcheck] using he
      simp only [step, hcheck, (answer_spec henabled e.time hkey).1, consumed, hsame]
  · intro s e he
    cases hcheck : e.check with
    | none => simp [hcheck] at he
    | some check =>
      cases hkey : keyOf rules check with
      | none =>
        simp only [step, hcheck, answer_free e.time hkey]
        rfl
      | some k =>
        have hne : key ≠ k := fun h => he (by simp [hcheck, hkey, h])
        simp only [step, hcheck, (answer_spec henabled e.time hkey).1, if_neg hne]

/-- The answer to a request is what it would be without the requests that have another key. -/
theorem answer_apart (events : List Event) (time : ℚ) (check : Check) :
    ((run (step config rules) start events).answer config rules time check).2 =
      ((run (step config rules) start (events.filter fun e => e.check.all fun c =>
        keyOf rules c = keyOf rules check)).answer config rules time check).2 := by
  by_cases henabled : config.enabled = true
  · cases hkey : keyOf rules check with
    | none => rw [answer_free time hkey, answer_free time hkey]
    | some key =>
      rw [(answer_spec henabled time hkey).2, (answer_spec henabled time hkey).2, consumed, consumed,
        bucket_filter henabled key events]
  · cases check <;>
      simp [answer, InMemoryRateLimiter.checkIpLimit, InMemoryRateLimiter.checkUserLimit,
        InMemoryRateLimiter.checkPathLimit, henabled]

end Memory

namespace Redis

variable {config : RateLimitConfig} {rules : List PathRateLimit} {key : Key}

theorem lookup_filter (henabled : config.enabled = true)
    (hnamed : ∀ {check : Check} {key : Key}, keyOf rules check = some key → key.Named) (hk : key.Named)
    (checks : List RedisCheck) :
    (run (step config rules) start checks).store.lookup (keyText key) =
      (run (step config rules) start (checks.filter fun e => keyOf rules e.check = some key)).store.lookup
        (keyText key) := by
  refine run_filter (fun s : Redis => s.store.lookup (keyText key)) ?_ ?_ rfl checks
  · intro s s' e he hsame
    have hkey := of_decide_eq_true he
    simp only [step, answer_lookup henabled e.now hkey hk hk, live, hsame]
  · intro s e he
    cases hkey : keyOf rules e.check with
    | none => simp only [step, answer_free e.now hkey]
    | some k =>
      have hne : key ≠ k := fun h => he (by simp [hkey, h])
      simp only [step, answer_lookup henabled e.now hkey (hnamed hkey) hk, if_neg hne]

/-- A request is allowed exactly when it would be without the requests that have another key. -/
theorem allowed_apart (sec : RateLimitingSecurityConfig) (config : RateLimitConfig) (checks : List RedisCheck)
    (now : Nat) (check : Check) : let rules := pathRules sec
    ((run (step config rules) start checks).answer config rules now check).2.allowed =
      ((run (step config rules) start (checks.filter fun e => keyOf rules e.check = keyOf rules check)).answer
        config rules now check).2.allowed := by
  intro rules
  by_cases henabled : config.enabled = true
  · cases hkey : keyOf rules check with
    | none => rw [answer_free now hkey, answer_free now hkey]
    | some key =>
      have hreply : ∀ s : Redis, (s.answer config rules now check).2.allowed = decide
          ((rateLimitLua (wholeCapacity config rules key * 1000) (milliRate config rules key) now
            (live s.store now (keyText key))).2.allowed = 1) := by
        intro s
        obtain ⟨_, _, hanswer⟩ := answer_spec henabled now hkey (s := s)
        rw [hanswer, checkAndDecrement, milliRate]
        dsimp only
        split_ifs with hone
        · exact (decide_eq_true hone).symm
        · exact (decide_eq_false hone).symm
      have hsame := lookup_filter henabled (pathRules_named sec) (pathRules_named sec hkey) checks
      rw [hreply, hreply, live, hsame, live]
  · cases check <;>
      simp [answer, RedisRateLimiter.checkIpLimit, RedisRateLimiter.checkUserLimit, RedisRateLimiter.checkPathLimit,
        checkKey, henabled]

end Redis

section Examples

/-- A burst of 500, refilled in five seconds. -/
def usualLimits : RateLimitConfig := ⟨true, 100, 1000, 500, 300⟩

/-- A limit on starting to log in, beside the usual ones of the other endpoints. -/
def loginLimit (maxRequests windowSecs : Nat) : RateLimitingSecurityConfig := ⟨maxRequests, windowSecs, 50, 60, 10, 60⟩

/-- Two logins at once and one after a clean-up, over both backends. -/
theorem window_bound_logins :
    (granted (Memory.step usualLimits (pathRules (loginLimit 2 60))) Event.time
        (Memory.grants usualLimits (pathRules (loginLimit 2 60)) (.path "/auth/start" "ann")) 0 3 .start
        [⟨0, some (.path "/auth/start" "ann")⟩, ⟨0, some (.path "/auth/start" "ann")⟩, ⟨2, none⟩,
          ⟨3, some (.path "/auth/start" "ann")⟩] : ℚ) ≤
      capacityOf usualLimits (pathRules (loginLimit 2 60)) (.path "/auth/start" "ann") +
        rateOf usualLimits (pathRules (loginLimit 2 60)) (.path "/auth/start" "ann") * (3 - 0) ∧
    (granted (Redis.step usualLimits (pathRules (loginLimit 2 60))) (fun e => Redis.seconds e.now)
        (Redis.grants usualLimits (pathRules (loginLimit 2 60)) (.path "/auth/start" "ann")) 0 3 .start
        [⟨0, .path "/auth/start" "ann"⟩, ⟨3000, .path "/auth/start" "ann"⟩] : ℚ) ≤
      capacityOf usualLimits (pathRules (loginLimit 2 60)) (.path "/auth/start" "ann") +
        rateOf usualLimits (pathRules (loginLimit 2 60)) (.path "/auth/start" "ann") * (3 - 0) := by
  obtain ⟨hmemory, hredis⟩ := window_bound (loginLimit 2 60) usualLimits rfl (by decide) (by decide) (by decide)
  have hyoung : ∀ entry ∈ (EventRun.run (Memory.step usualLimits (pathRules (loginLimit 2 60))) .start
      [⟨0, some (.path "/auth/start" "ann")⟩, ⟨0, some (.path "/auth/start" "ann")⟩]).limiter.pathIpBuckets.entries,
      ¬entry.2.lastRefill < 2 - InMemoryRateLimiter.refillSecs usualLimits 100 := by decide +kernel
  have hevents : Along (Memory.step usualLimits (pathRules (loginLimit 2 60))) (Memory.Fair usualLimits) .start
      [⟨0, some (.path "/auth/start" "ann")⟩, ⟨0, some (.path "/auth/start" "ann")⟩, ⟨2, none⟩,
        ⟨3, some (.path "/auth/start" "ann")⟩] := by
    refine ⟨⟨?_, nofun⟩, ⟨?_, nofun⟩, ⟨?_, ?_⟩, ⟨?_, nofun⟩, trivial⟩
    · decide +kernel
    · decide +kernel
    · decide +kernel
    · intro _ pathPrefix ip b hb hidle
      exact absurd hidle (hyoung _ (AList.mem_lookup_iff.mp hb))
    · decide +kernel
  have hchecks : Along (Redis.step usualLimits (pathRules (loginLimit 2 60)))
      (Redis.Fair usualLimits (pathRules (loginLimit 2 60))) .start
      [⟨0, .path "/auth/start" "ann"⟩, ⟨3000, .path "/auth/start" "ann"⟩] := by
    have hrate : ∀ key, keyOf (pathRules (loginLimit 2 60)) (.path "/auth/start" "ann") = some key →
        1 / 1000 ≤ rateOf usualLimits (pathRules (loginLimit 2 60)) key := by
      intro key hkey
      have hrule : keyOf (pathRules (loginLimit 2 60)) (.path "/auth/start" "ann") =
          some (.path "/auth/start" "ann") := by decide +kernel
      obtain rfl := Option.some.inj (hrule.symm.trans hkey)
      decide +kernel
    exact ⟨⟨zero_le _, hrate⟩, ⟨zero_le _, hrate⟩, trivial⟩
  exact ⟨(hmemory _ hevents).1 _ 0 3 (by norm_num), hredis _ hchecks _ 0 3 (by norm_num)⟩

/-- Five logins a minute: a clean-up six seconds after the five, by the threshold of the addresses, forgets them. And
over Redis, one login in 2000 seconds is back after 1000. -/
theorem logins_forgotten :
    (¬∀ (sec : RateLimitingSecurityConfig) (config : RateLimitConfig), config.enabled = true → 0 < config.burstSize →
      0 < config.rpsPerIp → 0 < config.rpsPerUser →
      ∀ events, Along (Memory.step config (pathRules sec)) (fun s e => s.clock ≤ e.time) .start events →
      (∀ key first last, first ≤ last →
        (granted (Memory.step config (pathRules sec)) Event.time (Memory.grants config (pathRules sec) key) first last
          .start events : ℚ) ≤
          capacityOf config (pathRules sec) key + rateOf config (pathRules sec) key * (last - first)) ∧
      Memory.decisions config (pathRules sec) .start events =
        Memory.decisions config (pathRules sec) .start (events.filter fun e => e.check.isSome)) ∧
    ¬∀ (sec : RateLimitingSecurityConfig) (config : RateLimitConfig), config.enabled = true → 0 < config.burstSize →
      0 < config.rpsPerIp → 0 < config.rpsPerUser →
      ∀ checks, Along (Redis.step config (pathRules sec)) (fun s e => s.clock ≤ e.now) .start checks →
      ∀ key first last, first ≤ last →
        (granted (Redis.step config (pathRules sec)) (fun e => Redis.seconds e.now)
          (Redis.grants config (pathRules sec) key) first last .start checks : ℚ) ≤
          capacityOf config (pathRules sec) key + rateOf config (pathRules sec) key * (last - first) := by
  refine ⟨?_, ?_⟩
  · intro hclaim
    have hbound := (hclaim (loginLimit 5 60) usualLimits rfl (by decide) (by decide) (by decide)
      (replicate 5 ⟨0, some (.path "/auth/start" "ann")⟩ ++ [⟨6, none⟩, ⟨6, some (.path "/auth/start" "ann")⟩])
      (by decide +kernel)).1 (.path "/auth/start" "ann") 0 6 (by norm_num)
    revert hbound
    decide +kernel
  · intro hclaim
    have hbound := hclaim (loginLimit 1 2000) usualLimits rfl (by decide) (by decide) (by decide)
      [⟨0, .path "/auth/start" "ann"⟩, ⟨1000000, .path "/auth/start" "ann"⟩] (by decide +kernel)
      (.path "/auth/start" "ann") 0 1000 (by norm_num)
    revert hbound
    decide +kernel

end Examples

end FraiseQL.RateLimit
