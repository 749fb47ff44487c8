import Mathlib.Data.List.MinMax
import FraiseQL.EventRun
import FraiseQL.RetainMap

/-! The keyed rate limiter of the authentication endpoints (`fraiseql-auth/src/rate_limiting.rs`). A call holds the
lock from its first step to its last, so a history of calls is a sequence; the clock is read under the lock. The order
in which a `HashMap` is iterated is a parameter.

The limiter counts from the first call of a window on. The bound of the window holds over every interval as long as no
count begins anew while a call it counted is younger than the window. -/

namespace FraiseQL.RateLimiting

open List

/-! ### The limiter -/

structure AuthRateLimitConfig where
  enabled : Bool
  maxRequests : Nat
  windowSecs : Nat

structure RequestRecord where
  count : Nat
  windowStart : Nat

abbrev Records := AList fun _ : String => RequestRecord

/-- What the lock guards, and the counter of the calls. -/
structure KeyedRateLimiter where
  records : Records
  checkCount : Nat

structure RateLimited where
  retryAfterSecs : Nat

def purgeInterval : Nat := 1000

def saturatingAdd (a b : Nat) : Nat := min (a + b) (2 ^ 64 - 1)

section Check

variable (config : AuthRateLimitConfig) (maxEntries : Nat)
  (iter : Records → List ((_ : String) × RequestRecord))

/-- Whether the window of a record is over. -/
def RequestRecord.over (now : Nat) (record : RequestRecord) : Bool :=
  decide (saturatingAdd record.windowStart config.windowSecs ≤ now)

/-- The periodic sweep. -/
def purge (count now : Nat) (records : Records) : Records :=
  if count % purgeInterval = 0 then records.retain fun _ record => !record.over config now else records

/-- The cap: the oldest record makes room for a new key. -/
def makeRoom (key : String) (records : Records) : Records :=
  if 0 < maxEntries ∧ records.lookup key = none ∧ maxEntries ≤ records.entries.length then
    match (iter records).argmin (fun entry => entry.2.windowStart) with
    | some oldest => records.erase oldest.1
    | none => records
  else records

/-- The three cases of the decision. -/
def decideRecord (now : Nat) (record : RequestRecord) : RequestRecord × Except RateLimited Unit :=
  if record.over config now then (⟨1, now⟩, .ok ())
  else if record.count < config.maxRequests then ({ record with count := record.count + 1 }, .ok ())
  else (record, .error ⟨config.windowSecs⟩)

def check (key : String) (now : Nat) (limiter : KeyedRateLimiter) : KeyedRateLimiter × Except RateLimited Unit :=
  if !config.enabled then (limiter, .ok ())
  else
    let records := makeRoom maxEntries iter key (purge config limiter.checkCount now limiter.records)
    let (record, result) := decideRecord config now ((records.lookup key).getD ⟨0, now⟩)
    (⟨records.insert key record, (limiter.checkCount + 1) % 2 ^ 64⟩, result)

end Check

/-! ### Histories -/

/-- The limiter with the last reading of the clock and the calls that were allowed. -/
structure History where
  limiter : KeyedRateLimiter
  clock : Nat
  allowed : List (String × Nat)

/-- A call: its key and the reading of the clock. -/
structure Call where
  key : String
  now : Nat

namespace History

/-- A limiter that was never called. -/
def start : History := ⟨⟨∅, 0⟩, 0, []⟩

/-- How many calls with a key were allowed in the seconds `[first, first + secs)`. -/
def allowedIn (h : History) (key : String) (first secs : Nat) : Nat :=
  h.allowed.countP fun call => decide (call.1 = key ∧ first ≤ call.2 ∧ call.2 < first + secs)

variable (config : AuthRateLimitConfig) (maxEntries : Nat)
  (iter : Records → List ((_ : String) × RequestRecord))

def call (h : History) (c : Call) : History :=
  let (limiter, result) := check config maxEntries iter c.key c.now h.limiter
  ⟨limiter, c.now, match result with
    | .ok () => (c.key, c.now) :: h.allowed
    | .error _ => h.allowed⟩

/-- The count of the call's key begins anew: there is no record, or its window is over. -/
def beginsAnew (h : History) (c : Call) : Bool := (h.limiter.records.lookup c.key).all (RequestRecord.over config c.now)

/-- The call finds no count begun anew over an allowed call that is younger than the window; and where nothing is to be
allowed, no window is over. -/
def Remembers (h : History) (c : Call) : Prop :=
  config.enabled = true ∧
    (h.beginsAnew config c = true →
      ∀ earlier ∈ h.allowed, earlier.1 = c.key → earlier.2 + config.windowSecs ≤ c.now) ∧
    (config.maxRequests = 0 → ((h.limiter.records.lookup c.key).getD ⟨0, c.now⟩).over config c.now = false)

end History

/-! ### What a call does -/

section Step

variable {config : AuthRateLimitConfig} {maxEntries : Nat} {iter : Records → List ((_ : String) × RequestRecord)}
  {key : String} {now : Nat} {limiter : KeyedRateLimiter} {records : Records}

variable {k : String} {r : RequestRecord}

theorem lookup_of_purge {count : Nat}
    (h : (purge config count now records).lookup k = some r) : records.lookup k = some r := by
  rw [purge] at h
  split_ifs at h with hcount
  · exact (AList.lookup_of_retain h).1
  · exact h

theorem lookup_of_makeRoom
    (h : (makeRoom maxEntries iter key records).lookup k = some r) : records.lookup k = some r := by
  rw [makeRoom] at h
  split_ifs at h with hfull
  · split at h
    · exact AList.lookup_of_erase h
    · exact h
  · exact h

/-- The sweep takes the record of a key only when its window is over. -/
theorem over_of_purged {count : Nat} (h : records.lookup key = some r)
    (hpurged : (purge config count now records).lookup key = none) : r.over config now = true := by
  rw [purge] at hpurged
  split_ifs at hpurged with hcount
  · rw [AList.lookup_retain, h] at hpurged
    simpa using hpurged
  · rw [h] at hpurged
    cases hpurged

/-- Making room for a key leaves its own record alone. -/
theorem makeRoom_own (h : records.lookup key = some r) :
    (makeRoom maxEntries iter key records).lookup key = some r := by
  rw [makeRoom, if_neg]
  · exact h
  · rintro ⟨-, hnone, -⟩
    rw [h] at hnone
    cases hnone

/-- The record a call decides about. -/
theorem decided (config : AuthRateLimitConfig) (maxEntries : Nat)
    (iter : Records → List ((_ : String) × RequestRecord)) (limiter : KeyedRateLimiter) (key : String) (now : Nat) :
    ∃ record, ((makeRoom maxEntries iter key (purge config limiter.checkCount now limiter.records)).lookup key).getD
        ⟨0, now⟩ = record ∧
      ((limiter.records.lookup key = some record) ∨
        record = ⟨0, now⟩ ∧ (limiter.records.lookup key).all (RequestRecord.over config now) = true) := by
  refine ⟨_, rfl, ?_⟩
  cases hpurged : (purge config limiter.checkCount now limiter.records).lookup key with
  | some r =>
    left
    rw [makeRoom_own hpurged]
    exact lookup_of_purge hpurged
  | none =>
    right
    have hnone : (makeRoom maxEntries iter key (purge config limiter.checkCount now limiter.records)).lookup key =
        none := by
      cases hroom : (makeRoom maxEntries iter key (purge config limiter.checkCount now limiter.records)).lookup key with
      | none => rfl
      | some r =>
        rw [lookup_of_makeRoom hroom] at hpurged
        cases hpurged
    refine ⟨by rw [hnone]; rfl, ?_⟩
    cases h : limiter.records.lookup key with
    | none => rfl
    | some r => exact over_of_purged h hpurged

/-- A record of another key after the call was there before. -/
theorem check_other (hkey : k ≠ key) (henabled : config.enabled = true)
    (h : (check config maxEntries iter key now limiter).1.records.lookup k = some r) :
    limiter.records.lookup k = some r := by
  rw [check, henabled] at h
  rw [if_neg (by simp)] at h
  have hother := (AList.lookup_insert_ne hkey).symm.trans h
  exact lookup_of_purge (lookup_of_makeRoom hother)

end Step

/-! ### The bound -/

namespace History

/-- A record counts the allowed calls of its key that are younger than the window when its own window begins. -/
structure Counts (config : AuthRateLimitConfig) (h : History) (key : String) (record : RequestRecord) : Prop where
  young : (h.allowed.countP fun call =>
    decide (call.1 = key ∧ record.windowStart < call.2 + config.windowSecs)) ≤ record.count
  capped : record.count ≤ config.maxRequests
  begun : record.windowStart ≤ h.clock

structure Inv (config : AuthRateLimitConfig) (h : History) : Prop where
  bound : ∀ key first, h.allowedIn key first config.windowSecs ≤ config.maxRequests
  counts : ∀ key record, h.limiter.records.lookup key = some record → h.Counts config key record

theorem inv_start (config : AuthRateLimitConfig) : Inv config start := by
  refine ⟨fun key first => Nat.zero_le _, ?_⟩
  intro key record hrecord
  cases hrecord

section Step

variable {config : AuthRateLimitConfig} {maxEntries : Nat} {iter : Records → List ((_ : String) × RequestRecord)}
  {h : History} {c : Call}

/-- No allowed call is younger than the window when the count begins anew. -/
theorem young_of_anew (hanew : h.beginsAnew config c = true) (hremembers : h.Remembers config c) :
    (h.allowed.countP fun call => decide (call.1 = c.key ∧ c.now < call.2 + config.windowSecs)) = 0 := by
  rw [countP_eq_zero]
  rintro ⟨key, t⟩ hcall
  simp only [decide_eq_true_eq, not_and, not_lt]
  exact hremembers.2.1 hanew (key, t) hcall

variable {record : RequestRecord}

/-- The record a call decides about counts the calls of its key. -/
theorem counts_decided (hinv : Inv config h) (hclock : h.clock ≤ c.now) (hremembers : h.Remembers config c)
    (hrecord : h.limiter.records.lookup c.key = some record ∨
      record = ⟨0, c.now⟩ ∧ h.beginsAnew config c = true) :
    Counts config { h with clock := c.now } c.key record := by
  rcases hrecord with hrecord | ⟨rfl, hanew⟩
  · obtain ⟨hyoung, hcapped, hbegun⟩ := hinv.counts c.key record hrecord
    exact ⟨hyoung, hcapped, hbegun.trans hclock⟩
  · exact ⟨(young_of_anew hanew hremembers).le, Nat.zero_le _, le_rfl⟩

/-- The decision keeps the count; an allowed call is counted. -/
theorem counts_decideRecord (hremembers : h.Remembers config c)
    (hrecord : h.limiter.records.lookup c.key = some record ∨ record = ⟨0, c.now⟩ ∧ h.beginsAnew config c = true)
    (hcounts : Counts config { h with clock := c.now } c.key record) (limiter : KeyedRateLimiter) :
    Counts config ⟨limiter, c.now, match (decideRecord config c.now record).2 with
      | .ok () => (c.key, c.now) :: h.allowed
      | .error _ => h.allowed⟩ c.key (decideRecord config c.now record).1 := by
  obtain ⟨hyoung, hcapped, hbegun⟩ := hcounts
  rw [decideRecord]
  split_ifs with hover hfew
  · have hanew : h.beginsAnew config c = true := by
      rcases hrecord with hlookup | ⟨-, hanew⟩
      · rw [beginsAnew, hlookup]
        exact hover
      · exact hanew
    have hpositive : config.maxRequests ≠ 0 := by
      intro hzero
      have hcurrent := hremembers.2.2 hzero
      rcases hrecord with hlookup | ⟨rfl, hall⟩
      · rw [hlookup] at hcurrent
        exact absurd (hcurrent.symm.trans hover) (by decide)
      · cases hlookup : h.limiter.records.lookup c.key with
        | none =>
          rw [hlookup] at hcurrent
          exact absurd (hcurrent.symm.trans hover) (by decide)
        | some r =>
          rw [beginsAnew, hlookup] at hall
          rw [hlookup] at hcurrent
          exact absurd (hcurrent.symm.trans hall) (by decide)
    refine ⟨?_, Nat.one_le_iff_ne_zero.mpr hpositive, le_rfl⟩
    have hnone := young_of_anew hanew hremembers
    have hcons := countP_cons (p := fun call : String × Nat =>
      decide (call.1 = c.key ∧ c.now < call.2 + config.windowSecs)) (a := (c.key, c.now)) (l := h.allowed)
    rw [hnone] at hcons
    show countP _ ((c.key, c.now) :: h.allowed) ≤ 1
    rw [hcons]
    split_ifs <;> omega
  · refine ⟨?_, hfew, hbegun⟩
    show countP _ ((c.key, c.now) :: h.allowed) ≤ record.count + 1
    rw [countP_cons]
    refine Nat.add_le_add hyoung ?_
    split_ifs <;> omega
  · exact ⟨hyoung, hcapped, hbegun⟩

/-- An interval that holds the call's moment holds no call that the record does not count. -/
theorem allowedIn_le {h : History} {key : String} (hcounts : h.Counts config key record)
    {first : Nat} (hclock : h.clock < first + config.windowSecs) :
    h.allowedIn key first config.windowSecs ≤ config.maxRequests := by
  refine le_trans (countP_mono_left ?_) (hcounts.young.trans hcounts.capped)
  rintro ⟨k, t⟩ - hcall
  simp only [decide_eq_true_eq] at hcall ⊢
  have hbegun := hcounts.begun
  exact ⟨hcall.1, by omega⟩

theorem inv_call (hinv : Inv config h) (hclock : h.clock ≤ c.now) (hremembers : h.Remembers config c) :
    Inv config (h.call config maxEntries iter c) := by
  have henabled := hremembers.1
  obtain ⟨record, hdecided, hrecord⟩ := decided config maxEntries iter h.limiter c.key c.now
  have hcall : h.call config maxEntries iter c =
      ⟨(check config maxEntries iter c.key c.now h.limiter).1, c.now,
        match (decideRecord config c.now record).2 with
        | .ok () => (c.key, c.now) :: h.allowed
        | .error _ => h.allowed⟩ := by
    rw [call, check, henabled, if_neg (by simp)]
    simp only [hdecided]
  have hown : (check config maxEntries iter c.key c.now h.limiter).1.records.lookup c.key =
      some (decideRecord config c.now record).1 := by
    rw [check, henabled, if_neg (by simp)]
    simp only [hdecided]
    exact AList.lookup_insert _
  have hcounts := counts_decideRecord hremembers hrecord (counts_decided hinv hclock hremembers hrecord)
    (check config maxEntries iter c.key c.now h.limiter).1
  rw [← hcall] at hcounts
  have hallowed : (h.call config maxEntries iter c).allowed = h.allowed ∨
      (h.call config maxEntries iter c).allowed = (c.key, c.now) :: h.allowed := by
    rw [hcall]
    split
    · exact .inr rfl
    · exact .inl rfl
  constructor
  · intro key first
    by_cases hheld : key = c.key ∧ c.now < first + config.windowSecs
    · obtain ⟨rfl, hheld⟩ := hheld
      exact allowedIn_le hcounts (by rwa [hcall])
    · have hsame : (h.call config maxEntries iter c).allowedIn key first config.windowSecs =
          h.allowedIn key first config.windowSecs := by
        rw [allowedIn, allowedIn]
        rcases hallowed with heq | heq
        · rw [heq]
        · rw [heq]
          apply countP_cons_of_neg
          simp only [decide_eq_true_eq]
          rintro ⟨rfl, -, hlt⟩
          exact hheld ⟨rfl, hlt⟩
      rw [hsame]
      exact hinv.bound key first
  · intro key r hr
    by_cases hkey : key = c.key
    · subst hkey
      have hlimiter : (h.call config maxEntries iter c).limiter =
          (check config maxEntries iter c.key c.now h.limiter).1 := by rw [hcall]
      rw [hlimiter, hown] at hr
      obtain rfl := Option.some.inj hr
      exact hcounts
    · have hbefore : h.limiter.records.lookup key = some r := by
        apply check_other hkey henabled
        rw [hcall] at hr
        exact hr
      obtain ⟨hyoung, hcapped, hbegun⟩ := hinv.counts key r hbefore
      refine ⟨?_, hcapped, ?_⟩
      · rcases hallowed with heq | heq
        · rw [heq]
          exact hyoung
        · rw [heq, countP_cons_of_neg]
          · exact hyoung
          · simp [Ne.symm hkey]
      · rw [hcall]
        exact hbegun.trans hclock

end Step

/-- In every history whose calls find no count begun anew over an allowed call that is younger than the window, at
most `max_requests` calls with one key are allowed in every interval of `window_secs` seconds. -/
theorem sliding_window (config : AuthRateLimitConfig) (maxEntries : Nat)
    (iter : Records → List ((_ : String) × RequestRecord)) (calls : List Call)
    (hcalls : EventRun.Along (call config maxEntries iter)
      (fun h c => h.clock ≤ c.now ∧ h.Remembers config c) start calls) (key : String) (first : Nat) :
    (EventRun.run (call config maxEntries iter) start calls).allowedIn key first config.windowSecs ≤
      config.maxRequests := by
  have hinv : Inv config (EventRun.run (call config maxEntries iter) start calls) :=
    hcalls.invariant (fun h c hinv hc => inv_call hinv hc.1 hc.2) (inv_start config)
  exact hinv.bound key first

section Examples

/-- Two calls in ten seconds. -/
def fewLogins : AuthRateLimitConfig := ⟨true, 2, 10⟩

instance (config : AuthRateLimitConfig) (h : History) (c : Call) : Decidable (h.Remembers config c) :=
  inferInstanceAs (Decidable (_ ∧ _ ∧ _))

/-- A count that begins anew when the allowed calls are old enough. -/
theorem sliding_window_kept :
    (EventRun.run (call fewLogins 3 (fun records => records.entries)) start
      [⟨"ann", 0⟩, ⟨"ann", 0⟩, ⟨"bob", 4⟩, ⟨"ann", 5⟩, ⟨"ann", 10⟩]).allowedIn "ann" 1 10 ≤ 2 :=
  sliding_window fewLogins 3 (fun records => records.entries) _ (by decide) "ann" 1

/-- The count begins anew ten seconds after the first of the calls it counted: three calls in three seconds. -/
theorem window_restarted : ¬∀ (config : AuthRateLimitConfig) (maxEntries : Nat)
    (iter : Records → List ((_ : String) × RequestRecord)) (calls : List Call), config.enabled = true →
    EventRun.Along (call config maxEntries iter) (fun h c => h.clock ≤ c.now) start calls → ∀ key first,
      (EventRun.run (call config maxEntries iter) start calls).allowedIn key first config.windowSecs ≤
        config.maxRequests := by
  intro hclaim
  have hbound := hclaim fewLogins 0 (fun records => records.entries)
    [⟨"ann", 0⟩, ⟨"ann", 9⟩, ⟨"ann", 10⟩, ⟨"ann", 11⟩] rfl (by decide) "ann" 9
  revert hbound
  decide

end Examples

end History

end FraiseQL.RateLimiting
