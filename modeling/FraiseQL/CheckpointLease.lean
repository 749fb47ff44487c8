import FraiseQL.EventRun
import FraiseQL.ExpiringStore
import FraiseQL.ObserverError

/-! Leases on a checkpoint (`listener/lease.rs`). A listener is known by its `listener_id`, the unique name of
its instance. The Redis backend keeps the holder's name under the key of the checkpoint, and every command or
script is one step of the server. The PostgreSQL backend keeps the connection whose session took the advisory
lock; a connection goes back to the pool when the lease drops it, with whatever lock its session still has. A
call that fails on the wire before it reached Redis changes nothing and is no event of its own. -/

namespace FraiseQL.Lease

open EventRun Option

/-! ### The Redis backend -/

structure RedisAdvisoryLease where
  listenerId : String
  checkpointId : Int
  leaseDurationSecs : Nat

abbrev RedisServer := ExpiringStore String String

namespace RedisAdvisoryLease

def redisKey (lease : RedisAdvisoryLease) : String := "fraiseql:lease:" ++ toString lease.checkpointId

/-- Redis refuses a lifetime of zero seconds and one whose deadline does not fit 64 bits. -/
def lifetimeAccepted (server : RedisServer) (seconds : Nat) : Bool :=
  0 < seconds && server.now + seconds * 1000 < 2 ^ 63

def acquire (lease : RedisAdvisoryLease) (server : RedisServer) : Except ObserverError Bool × RedisServer :=
  if lifetimeAccepted server lease.leaseDurationSecs then
    let (set, server') := server.setNxEx lease.redisKey lease.listenerId lease.leaseDurationSecs
    (.ok set, server')
  else (.error (.ofRedis "invalid expire time in 'set' command"), server)

def release (lease : RedisAdvisoryLease) (server : RedisServer) : Except ObserverError Unit × RedisServer :=
  if server.get lease.redisKey = some lease.listenerId then (.ok (), server.del lease.redisKey)
  else (.ok (), server)

/-- `RedisAdvisoryLease::renew`. `EXPIRE` with no seconds removes the key. -/
def renew (lease : RedisAdvisoryLease) (server : RedisServer) : Except ObserverError Bool × RedisServer :=
  if server.get lease.redisKey = some lease.listenerId then
    if server.now + lease.leaseDurationSecs * 1000 < 2 ^ 63 then
      (.ok true, server.expire lease.redisKey lease.leaseDurationSecs)
    else (.error (.ofRedis "invalid expire time in 'expire' command"), server)
  else (.ok false, server)

def isValid (lease : RedisAdvisoryLease) (server : RedisServer) : Bool :=
  server.get lease.redisKey = some lease.listenerId

end RedisAdvisoryLease

/-- What can happen to the leases of one checkpoint. -/
inductive RedisEvent where
  | acquire (listener : String)
  | renew (listener : String)
  | release (listener : String)
  | elapse (milliseconds : Nat)

section Redis

variable (checkpointId : Int) (durations : String → Nat)

def redisLease (listener : String) : RedisAdvisoryLease := ⟨listener, checkpointId, durations listener⟩

def redisStep (server : RedisServer) : RedisEvent → RedisServer
  | .acquire listener => ((redisLease checkpointId durations listener).acquire server).2
  | .renew listener => ((redisLease checkpointId durations listener).renew server).2
  | .release listener => ((redisLease checkpointId durations listener).release server).2
  | .elapse milliseconds => server.advance milliseconds

/-- No two listeners have a valid lease. -/
def RedisExclusive (server : RedisServer) : Prop :=
  ∀ a b, (redisLease checkpointId durations a).isValid server = true →
    (redisLease checkpointId durations b).isValid server = true → a = b

/-- The contract of one call: at most one listener is valid before and after it, and `acquire` answers
`true` exactly when its caller holds the lease afterwards. -/
def RedisContract (server : RedisServer) (e : RedisEvent) : Prop :=
  RedisExclusive checkpointId durations server ∧
    RedisExclusive checkpointId durations (redisStep checkpointId durations server e) ∧
    ∀ listener, e = .acquire listener →
      (((redisLease checkpointId durations listener).acquire server).1 = .ok true ↔
        (redisLease checkpointId durations listener).isValid
          (redisStep checkpointId durations server e) = true)

/-- The caller of `acquire` does not hold the lease yet. -/
def NotHeldYet (server : RedisServer) (e : RedisEvent) : Prop :=
  ∀ listener, e = .acquire listener → (redisLease checkpointId durations listener).isValid server = false

variable {checkpointId durations} {server : RedisServer}

theorem redis_exclusive : RedisExclusive checkpointId durations server := by
  intro a b ha hb
  have hholder : server.get (redisLease checkpointId durations a).redisKey = some a := of_decide_eq_true ha
  have hholder' : server.get (redisLease checkpointId durations b).redisKey = some b := of_decide_eq_true hb
  exact some.inj (hholder.symm.trans hholder')

/-- A holder that asks again is told `false`, or gets an error, and stays the holder. -/
theorem acquire_held {lease : RedisAdvisoryLease} (hheld : lease.isValid server = true) :
    (lease.acquire server).1 ≠ .ok true ∧ lease.isValid (lease.acquire server).2 = true := by
  have hget : server.get lease.redisKey = some lease.listenerId := of_decide_eq_true hheld
  unfold RedisAdvisoryLease.acquire
  by_cases hlife : RedisAdvisoryLease.lifetimeAccepted server lease.leaseDurationSecs = true
  · rw [if_pos hlife, ExpiringStore.setNxEx, hget]
    exact ⟨nofun, hheld⟩
  · rw [if_neg hlife]
    exact ⟨nofun, hheld⟩

/-- A listener that does not hold the lease is told exactly whether it got it. -/
theorem acquire_not_held {lease : RedisAdvisoryLease} (hfree : lease.isValid server = false) :
    (lease.acquire server).1 = .ok true ↔ lease.isValid (lease.acquire server).2 = true := by
  unfold RedisAdvisoryLease.acquire
  by_cases hlife : RedisAdvisoryLease.lifetimeAccepted server lease.leaseDurationSecs = true
  · rw [if_pos hlife, ExpiringStore.setNxEx]
    have hseconds : 0 < lease.leaseDurationSecs := of_decide_eq_true (Bool.and_eq_true_iff.mp hlife).1
    by_cases htaken : (server.get lease.redisKey).isSome = true
    · rw [if_pos htaken]
      simp [hfree]
    · rw [if_neg htaken]
      simp [RedisAdvisoryLease.isValid, ExpiringStore.get_setEx_self hseconds]
  · rw [if_neg hlife]
    simp [hfree]

/-- One call meets the contract exactly when it is not an `acquire` of the holder. -/
theorem redisContract_iff (e : RedisEvent) :
    RedisContract checkpointId durations server e ↔ NotHeldYet checkpointId durations server e := by
  constructor
  · rintro ⟨-, -, hcall⟩ listener rfl
    by_contra hheld
    rw [Bool.not_eq_false] at hheld
    obtain ⟨hanswer, hstill⟩ := acquire_held hheld
    exact hanswer ((hcall listener rfl).mpr hstill)
  · intro hfree
    refine ⟨redis_exclusive, redis_exclusive, ?_⟩
    rintro listener rfl
    exact acquire_not_held (hfree listener rfl)

end Redis

/-! ### The PostgreSQL backend -/

/-- A session advisory lock: the session that has it and how often it took it. -/
abbrev AdvisoryLock := Option (Nat × Nat)

/-- `pg_try_advisory_lock`. -/
def tryAdvisoryLock (lock : AdvisoryLock) (session : Nat) : Bool × AdvisoryLock :=
  match lock with
  | none => (true, some (session, 1))
  | some (holder, times) => if holder = session then (true, some (holder, times + 1)) else (false, lock)

/-- `pg_advisory_unlock`. -/
def advisoryUnlock (lock : AdvisoryLock) (session : Nat) : AdvisoryLock :=
  match lock with
  | none => none
  | some (holder, times) =>
    if holder = session then (if times ≤ 1 then none else some (holder, times - 1)) else lock

/-- The lock of the checkpoint, the connections the leases keep, the idle connections of the pools and the
number of sessions opened so far. -/
structure Postgres where
  lock : AdvisoryLock
  conn : String → Option Nat
  idle : List Nat
  opened : Nat

/-- What `pool.acquire()` comes back with. -/
inductive PoolAnswer where
  | idle (session : Nat)
  | opens
  | unavailable

/-- How a statement ends: answered, refused with the session intact, or with the session lost. -/
inductive StatementEnd where
  | answered | refused | lost

namespace Postgres

def start : Postgres := ⟨none, fun _ => none, [], 0⟩

/-- The connection the pool hands out, and the pool without it. -/
def takeConnection (db : Postgres) : PoolAnswer → Option (Nat × Postgres)
  | .idle session => if session ∈ db.idle then some (session, { db with idle := db.idle.erase session }) else none
  | .opens => some (db.opened, { db with opened := db.opened + 1 })
  | .unavailable => none

/-- A connection goes back to the pool. -/
def giveBack (db : Postgres) (session : Nat) : Postgres := { db with idle := session :: db.idle }

/-- The end of a session releases its lock. -/
def endSession (db : Postgres) (session : Nat) : Postgres :=
  { db with
    lock := db.lock.filter fun held => held.1 ≠ session
    idle := db.idle.filter (· ≠ session) }

def acquire (db : Postgres) (listener : String) (pool : PoolAnswer) (query : StatementEnd) :
    Except ObserverError Bool × Postgres :=
  match db.conn listener with
  | some _ => (.ok true, db)
  | none =>
    match db.takeConnection pool with
    | none => (.error (.databaseError "Failed to acquire connection for advisory lock"), db)
    | some (session, db') =>
      match query with
      | .refused => (.error (.databaseError "pg_try_advisory_lock failed"), db'.giveBack session)
      | .lost => (.error (.databaseError "pg_try_advisory_lock failed"), db'.endSession session)
      | .answered =>
        match tryAdvisoryLock db'.lock session with
        | (true, lock) =>
          (.ok true, { db' with lock := lock, conn := Function.update db'.conn listener (some session) })
        | (false, lock) => (.ok false, { db' with lock := lock }.giveBack session)

def release (db : Postgres) (listener : String) (query : StatementEnd) : Except ObserverError Unit × Postgres :=
  match db.conn listener with
  | none => (.error (.invalidConfig "Cannot release advisory lock: not currently held"), db)
  | some session =>
    let db' := { db with conn := Function.update db.conn listener none }
    match query with
    | .answered => (.ok (), { db' with lock := advisoryUnlock db'.lock session }.giveBack session)
    | .refused => (.error (.databaseError "pg_advisory_unlock failed"), db'.giveBack session)
    | .lost => (.error (.databaseError "pg_advisory_unlock failed"), db'.endSession session)

def renew (db : Postgres) (listener : String) : Except ObserverError Bool := .ok (db.conn listener).isSome

def isValid (db : Postgres) (listener : String) : Bool := (db.conn listener).isSome

/-- The session of the listener's connection has the lock. -/
def Holds (db : Postgres) (listener : String) : Prop :=
  ∃ session times, db.conn listener = some session ∧ db.lock = some (session, times)

end Postgres

inductive PgEvent where
  | acquire (listener : String) (pool : PoolAnswer) (query : StatementEnd)
  | renew (listener : String)
  | release (listener : String) (query : StatementEnd)
  | sessionEnds (session : Nat)

/-- Time alone changes nothing; a session that ends is an event of its own. -/
def pgStep (db : Postgres) : PgEvent → Postgres
  | .acquire listener pool query => (db.acquire listener pool query).2
  | .renew _ => db
  | .release listener query => (db.release listener query).2
  | .sessionEnds session => db.endSession session

/-- No two listeners have a valid lease. -/
def PgExclusive (db : Postgres) : Prop := ∀ a b, db.isValid a = true → db.isValid b = true → a = b

def PgContract (db : Postgres) (e : PgEvent) : Prop :=
  PgExclusive db ∧ PgExclusive (pgStep db e) ∧
    ∀ listener pool query, e = .acquire listener pool query →
      ((db.acquire listener pool query).1 = .ok true ↔ (pgStep db e).Holds listener)

/-- A session does not end while a lease keeps its connection. -/
def SessionsKept (db : Postgres) (e : PgEvent) : Prop :=
  ∀ session, e = .sessionEnds session → ∀ listener, db.conn listener ≠ some session

namespace Postgres

/-- The session of a kept connection has the lock, belongs to no one else and is not idle. -/
structure Kept (db : Postgres) : Prop where
  holds : ∀ listener session, db.conn listener = some session → ∃ times, db.lock = some (session, times)
  own : ∀ a b session, db.conn a = some session → db.conn b = some session → a = b
  busy : ∀ listener session, db.conn listener = some session → session ∉ db.idle
  known : ∀ listener session, db.conn listener = some session → session < db.opened
  idleKnown : ∀ session ∈ db.idle, session < db.opened
  once : db.idle.Nodup

/-- A session that no lease keeps and that is in no pool. -/
structure Spare (db : Postgres) (session : Nat) : Prop where
  free : ∀ listener, db.conn listener ≠ some session
  out : session ∉ db.idle
  known : session < db.opened

variable {db : Postgres} {listener : String} {session : Nat}

theorem kept_start : Kept start where
  holds _ _ h := nomatch h
  own _ _ _ h := nomatch h
  busy _ _ h := nomatch h
  known _ _ h := nomatch h
  idleKnown _ h := nomatch h
  once := List.nodup_nil

/-- Only one listener keeps a connection: its session has the lock. -/
theorem Kept.alone (hkept : Kept db) {a b : String} {x y : Nat} (ha : db.conn a = some x)
    (hb : db.conn b = some y) : a = b := by
  obtain ⟨n, hx⟩ := hkept.holds a x ha
  obtain ⟨m, hy⟩ := hkept.holds b y hb
  have hsame : some (x, n) = some (y, m) := hx.symm.trans hy
  cases hsame
  exact hkept.own a b x ha hb

theorem Kept.exclusive (hkept : Kept db) : PgExclusive db := by
  intro a b ha hb
  obtain ⟨x, hx⟩ := isSome_iff_exists.mp ha
  obtain ⟨y, hy⟩ := isSome_iff_exists.mp hb
  exact hkept.alone hx hy

/-- The connection a pool hands out is spare, and nothing else changes. -/
theorem Kept.takeConnection (hkept : Kept db) {pool : PoolAnswer} {db' : Postgres}
    (htake : db.takeConnection pool = some (session, db')) :
    Kept db' ∧ Spare db' session ∧ db'.conn = db.conn ∧ db'.lock = db.lock := by
  cases pool with
  | idle offered =>
    rw [Postgres.takeConnection] at htake
    split at htake
    case isTrue hmem =>
      cases htake
      have hsub : ∀ other ∈ db.idle.erase session, other ∈ db.idle := fun _ h => List.mem_of_mem_erase h
      refine ⟨⟨hkept.holds, hkept.own, ?_, hkept.known, ?_, hkept.once.erase session⟩,
        ⟨?_, hkept.once.not_mem_erase, hkept.idleKnown session hmem⟩, rfl, rfl⟩
      · intro l other hl hother
        exact hkept.busy l other hl (hsub other hother)
      · intro other hother
        exact hkept.idleKnown other (hsub other hother)
      · intro l hl
        exact hkept.busy l session hl hmem
    case isFalse => cases htake
  | opens =>
    cases htake
    refine ⟨⟨hkept.holds, hkept.own, hkept.busy, ?_, ?_, hkept.once⟩, ⟨?_, ?_, ?_⟩, rfl, rfl⟩
    · intro l other hl
      exact Nat.lt_succ_of_lt (hkept.known l other hl)
    · intro other hother
      exact Nat.lt_succ_of_lt (hkept.idleKnown other hother)
    · intro l hl
      exact absurd (hkept.known l _ hl) (Nat.lt_irrefl _)
    · intro hidle
      exact absurd (hkept.idleKnown _ hidle) (Nat.lt_irrefl _)
    · exact Nat.lt_succ_self _
  | unavailable => cases htake

theorem Kept.giveBack (hkept : Kept db) (hspare : Spare db session) : Kept (db.giveBack session) where
  holds := hkept.holds
  own := hkept.own
  busy l other hl hmem := by
    rcases List.mem_cons.mp hmem with rfl | hmem
    · exact hspare.free l hl
    · exact hkept.busy l other hl hmem
  known := hkept.known
  idleKnown other hmem := by
    rcases List.mem_cons.mp hmem with rfl | hmem
    · exact hspare.known
    · exact hkept.idleKnown other hmem
  once := List.nodup_cons.mpr ⟨hspare.out, hkept.once⟩

theorem Kept.endSession (hkept : Kept db) (hfree : ∀ l, db.conn l ≠ some session) :
    Kept (db.endSession session) where
  holds l other hl := by
    obtain ⟨times, hlock⟩ := hkept.holds l other hl
    have hne : other ≠ session := by
      rintro rfl
      exact hfree l hl
    exact ⟨times, by simp [Postgres.endSession, hlock, hne]⟩
  own := hkept.own
  busy l other hl hmem := hkept.busy l other hl (List.mem_of_mem_filter hmem)
  known := hkept.known
  idleKnown other hmem := hkept.idleKnown other (List.mem_of_mem_filter hmem)
  once := hkept.once.filter _

/-- A state in which no lease keeps a connection only has to keep its pools in order. -/
theorem kept_of_none {conn : String → Option Nat} (hnone : ∀ l, conn l = none) (hkept : Kept db)
    (lock : AdvisoryLock) : Kept { db with conn := conn, lock := lock } where
  holds l _ hl := nomatch (hnone l).symm.trans hl
  own a _ _ ha := nomatch (hnone a).symm.trans ha
  busy l _ hl := nomatch (hnone l).symm.trans hl
  known l _ hl := nomatch (hnone l).symm.trans hl
  idleKnown := hkept.idleKnown
  once := hkept.once

theorem tryAdvisoryLock_true {lock lock' : AdvisoryLock} (htry : tryAdvisoryLock lock session = (true, lock')) :
    (∃ times, lock' = some (session, times)) ∧ ∀ holder times, lock = some (holder, times) → holder = session := by
  unfold tryAdvisoryLock at htry
  cases lock with
  | none =>
    cases htry
    exact ⟨⟨1, rfl⟩, nofun⟩
  | some held =>
    obtain ⟨holder, times⟩ := held
    dsimp only at htry
    by_cases hown : holder = session
    · rw [if_pos hown] at htry
      cases htry
      refine ⟨⟨times + 1, by rw [hown]⟩, ?_⟩
      intro _ _ heq
      cases heq
      exact hown
    · rw [if_neg hown] at htry
      cases htry

theorem tryAdvisoryLock_false {lock lock' : AdvisoryLock} (htry : tryAdvisoryLock lock session = (false, lock')) :
    lock' = lock := by
  unfold tryAdvisoryLock at htry
  cases lock with
  | none => cases htry
  | some held =>
    obtain ⟨holder, times⟩ := held
    dsimp only at htry
    by_cases hown : holder = session
    · rw [if_pos hown] at htry
      cases htry
    · rw [if_neg hown] at htry
      cases htry
      rfl

/-- The lease keeps the connection whose session got the lock; no other lease kept one. -/
theorem Kept.keep (hkept : Kept db) (hspare : Spare db session) {lock : AdvisoryLock}
    (htry : tryAdvisoryLock db.lock session = (true, lock)) :
    Kept { db with lock := lock, conn := Function.update db.conn listener (some session) } := by
  obtain ⟨⟨times, hlock⟩, hown⟩ := tryAdvisoryLock_true htry
  have hnone : ∀ l, db.conn l = none := by
    intro l
    by_contra hsome
    obtain ⟨other, hother⟩ := ne_none_iff_exists'.mp hsome
    obtain ⟨n, hheld⟩ := hkept.holds l other hother
    rw [hown other n hheld] at hother
    exact hspare.free l hother
  have honly : ∀ l other, Function.update db.conn listener (some session) l = some other →
      l = listener ∧ other = session := by
    intro l other hl
    by_cases hlistener : l = listener
    · subst hlistener
      rw [Function.update_self] at hl
      exact ⟨rfl, (some.inj hl).symm⟩
    · rw [Function.update_of_ne hlistener, hnone l] at hl
      cases hl
  refine ⟨?_, ?_, ?_, ?_, hkept.idleKnown, hkept.once⟩
  · intro l other hl
    obtain ⟨-, rfl⟩ := honly l other hl
    exact ⟨times, hlock⟩
  · intro a b other ha hb
    rw [(honly a other ha).1, (honly b other hb).1]
  · intro l other hl
    obtain ⟨-, rfl⟩ := honly l other hl
    exact hspare.out
  · intro l other hl
    obtain ⟨-, rfl⟩ := honly l other hl
    exact hspare.known

/-- `acquire` keeps the invariant and answers `true` exactly to a caller that holds the lock. -/
theorem Kept.acquire (hkept : Kept db) (pool : PoolAnswer) (query : StatementEnd) :
    Kept (db.acquire listener pool query).2 ∧
      ((db.acquire listener pool query).1 = .ok true ↔ (db.acquire listener pool query).2.Holds listener) := by
  have hnot : ∀ {after : Postgres} {e : ObserverError}, after.conn listener = none →
      ((.error e : Except ObserverError Bool) = .ok true ↔ after.Holds listener) := by
    intro after e hconn
    refine ⟨nofun, ?_⟩
    rintro ⟨session, times, hsession, -⟩
    exact nomatch hconn.symm.trans hsession
  unfold Postgres.acquire
  cases hconn : db.conn listener with
  | some session =>
    obtain ⟨times, hlock⟩ := hkept.holds listener session hconn
    exact ⟨hkept, fun _ => ⟨session, times, hconn, hlock⟩, fun _ => rfl⟩
  | none =>
    cases htake : db.takeConnection pool with
    | none => exact ⟨hkept, hnot hconn⟩
    | some taken =>
      obtain ⟨session, db'⟩ := taken
      obtain ⟨hkept', hspare, hsame, -⟩ := hkept.takeConnection htake
      rw [← hsame] at hconn
      cases query with
      | refused => exact ⟨hkept'.giveBack hspare, hnot hconn⟩
      | lost => exact ⟨hkept'.endSession hspare.free, hnot hconn⟩
      | answered =>
        cases htry : tryAdvisoryLock db'.lock session with
        | mk acquired lock =>
          cases acquired with
          | true =>
            obtain ⟨⟨times, hlock⟩, -⟩ := tryAdvisoryLock_true htry
            dsimp only
            rw [htry]
            refine ⟨hkept'.keep hspare htry, fun _ => ?_, fun _ => rfl⟩
            exact ⟨session, times, Function.update_self _ _ _, hlock⟩
          | false =>
            dsimp only
            rw [htry, tryAdvisoryLock_false htry]
            refine ⟨hkept'.giveBack hspare, nofun, ?_⟩
            rintro ⟨other, times, hother, -⟩
            exact nomatch hconn.symm.trans hother

/-- `release` keeps the invariant, however its statement ends. -/
theorem Kept.release (hkept : Kept db) (query : StatementEnd) : Kept (db.release listener query).2 := by
  unfold Postgres.release
  cases hconn : db.conn listener with
  | none => exact hkept
  | some session =>
    have hnone : ∀ l, Function.update db.conn listener none l = none := by
      intro l
      by_cases hlistener : l = listener
      · rw [hlistener, Function.update_self]
      · rw [Function.update_of_ne hlistener]
        by_contra hsome
        obtain ⟨other, hother⟩ := ne_none_iff_exists'.mp hsome
        exact hlistener (hkept.alone hother hconn)
    have hspare : ∀ lock : AdvisoryLock,
        Spare { db with conn := Function.update db.conn listener none, lock := lock } session := by
      intro lock
      refine ⟨?_, hkept.busy listener session hconn, hkept.known listener session hconn⟩
      intro l hl
      exact nomatch (hnone l).symm.trans hl
    cases query with
    | answered => exact (kept_of_none hnone hkept _).giveBack (hspare _)
    | refused => exact (kept_of_none hnone hkept db.lock).giveBack (hspare _)
    | lost => exact (kept_of_none hnone hkept db.lock).endSession (hspare _).free

theorem Kept.step (hkept : Kept db) (e : PgEvent) (hsessions : SessionsKept db e) : Kept (pgStep db e) := by
  cases e with
  | acquire listener pool query => exact (hkept.acquire pool query).1
  | renew listener => exact hkept
  | release listener query => exact hkept.release query
  | sessionEnds session => exact hkept.endSession (hsessions session rfl)

theorem Kept.contract (hkept : Kept db) (e : PgEvent) (hsessions : SessionsKept db e) : PgContract db e := by
  refine ⟨hkept.exclusive, (hkept.step e hsessions).exclusive, ?_⟩
  rintro listener pool query rfl
  exact (hkept.acquire pool query).2

end Postgres

/-! ### Both backends -/

/-- The Redis leases of a checkpoint keep the contract of the interface through a run exactly when no
listener asks for a lease it already holds; the PostgreSQL leases always keep it, as long as no session ends
while a lease keeps its connection. -/
theorem leases_keep_contract (checkpointId : Int) (durations : String → Nat) :
    (∀ (server : RedisServer) (events : List RedisEvent),
      Along (redisStep checkpointId durations) (RedisContract checkpointId durations) server events ↔
        Along (redisStep checkpointId durations) (NotHeldYet checkpointId durations) server events) ∧
    ∀ events : List PgEvent, Along pgStep SessionsKept Postgres.start events →
      Along pgStep PgContract Postgres.start events := by
  constructor
  · intro server events
    induction events generalizing server with
    | nil => exact Iff.rfl
    | cons e rest ih => rw [Along, Along, redisContract_iff, ih]
  · intro events hsessions
    have hstep : ∀ db e, db.Kept → SessionsKept db e → (pgStep db e).Kept := fun _ e hkept => hkept.step e
    apply hsessions.mono hstep (fun _ e hkept => hkept.contract e)
    exact Postgres.kept_start

theorem expired_lease_taken_again :
    Along (redisStep 1 fun _ => 30) (RedisContract 1 fun _ => 30) (.empty 0)
      [.acquire "a", .elapse 30000, .acquire "b"] ∧
    Along pgStep PgContract Postgres.start
      [.acquire "a" .opens .answered, .acquire "b" .opens .answered, .release "a" .refused] := by
  constructor
  · apply ((leases_keep_contract 1 fun _ => 30).1 _ _).mpr
    refine ⟨?_, nofun, ?_, trivial⟩
    · rintro _ ⟨⟩
      decide
    · rintro _ ⟨⟩
      decide
  · apply (leases_keep_contract 1 fun _ => 30).2
    exact ⟨nofun, nofun, nofun, trivial⟩

/-- A listener that acquires a free lease and asks again at once is told `false` while it is the holder. -/
theorem holder_told_false :
    ¬Along (redisStep 1 fun _ => 30) (RedisContract 1 fun _ => 30) (.empty 0) [.acquire "a", .acquire "a"] := by
  rintro ⟨-, hsecond, -⟩
  have hheld := redisContract_iff _ |>.mp hsecond "a" rfl
  revert hheld
  decide

end FraiseQL.Lease
