import FraiseQL.DeadlinePromise
import FraiseQL.EventRun
import FraiseQL.RetainMap

/-! Token revocation (`token_revocation.rs`): the in-memory and the Redis store, and the manager over them. A call runs
in atomic steps, one for each reading of the clock, each operation on the map and each Redis command; the steps of
calls interleave freely. Beside the state of the code stand the revocations that were made, the tokens that were
issued, and those whose user was revoked as a whole. -/

namespace FraiseQL.TokenRevocation

/-! ### The manager -/

inductive TokenRejection where
  | missingJti
  | revoked
  | storeUnavailable
  deriving DecidableEq

/-- `check_token`, on what the store answers. -/
def checkToken (requireJti failOpen : Bool) (isRevoked : String → Except String Bool) (jti : Option String) :
    Except TokenRejection Unit :=
  match jti.filter (· ≠ "") with
  | none => if requireJti then .error .missingJti else .ok ()
  | some jti =>
    match isRevoked jti with
    | .ok true => .error .revoked
    | .ok false => .ok ()
    | .error _ => if failOpen then .ok () else .error .storeUnavailable

/-- A token: its `jti` and `sub` claims, and when it expires. -/
structure Token where
  jti : Option String
  sub : String
  exp : Int
  deriving DecidableEq

/-- What was done so far: the revocations with the moments their time to live ends, the tokens issued, and the tokens
of the users that were revoked as a whole. -/
structure History where
  revoked : List (String × Int)
  issued : List Token
  condemned : List Token

namespace History

def empty : History := ⟨[], [], []⟩

/-- `revoke` returns. -/
def revoke (h : History) (jti : String) (ends : Int) : History := { h with revoked := (jti, ends) :: h.revoked }

/-- `revoke_all_for_user` returns. -/
def condemn (h : History) (sub : String) : History :=
  { h with condemned := (h.issued.filter fun token => token.sub = sub) ++ h.condemned }

/-- The token has no `jti` though it must have one, or it was revoked until it expires. -/
def Covers (h : History) (requireJti : Bool) (token : Token) : Prop :=
  token.jti.filter (· ≠ "") = none ∧ requireJti = true ∨
    ∃ p ∈ h.revoked, token.jti = some p.1 ∧ token.exp ≤ p.2

/-- Revocation is effective: what was revoked is rejected until its time to live ends, and what belongs to a revoked
user until it expires. -/
def Effective (h : History) (now : Int) (check : Option String → Except TokenRejection Unit) : Prop :=
  (∀ p ∈ h.revoked, now < p.2 → check (some p.1) ≠ .ok ()) ∧
    ∀ token ∈ h.condemned, now < token.exp → check token.jti ≠ .ok ()

end History

/-! ### The in-memory store -/

namespace Memory

/-- `DateTime::<Utc>::MIN_UTC` and `MAX_UTC`, in nanoseconds. -/
def minUtc : Int := -8334601228800 * 10 ^ 9

def maxUtc : Int := 8210266876800 * 10 ^ 9 - 1

def castSigned (n : Nat) : Int := if n < 2 ^ 63 then n else n - 2 ^ 64

/-- `Utc::now() + Duration::seconds(ttl_secs.cast_signed())`; both the duration and the sum may panic. -/
def expiresAt (now : Int) (ttlSecs : Nat) : Option Int :=
  let secs := castSigned ttlSecs
  if secs.natAbs ≤ (2 ^ 63 - 1) / 1000 then
    let sum := now + secs * 10 ^ 9
    if minUtc ≤ sum ∧ sum ≤ maxUtc then some sum else none
  else none

/-- How far a call is. -/
inductive Call where
  /-- `revoke`, with its time to live and when it ends. -/
  | inserting (jti : String) (ends expiresAt : Int)
  /-- `is_revoked`, which found an entry that has expired. -/
  | removing (jti : String)
  /-- `cleanup_expired`, with its reading of the clock. -/
  | sweeping (now : Int)
  /-- `revoke_all_for_user`, with the entries counted so far. -/
  | counting (sub : String) (count : Nat)
  | returned

structure World where
  clock : Int
  entries : AList fun _ : String => String × Int
  calls : List Call
  history : History

/-- A step of a call, or of the world around. -/
inductive Event where
  | elapse (nanos : Nat)
  | issue (token : Token)
  /-- `revoke` reads the clock. -/
  | revoke (jti : String) (ttlSecs : Nat)
  /-- A call of `revoke` inserts its entry. -/
  | insert (i : Nat)
  /-- `is_revoked` gets the entry. -/
  | check (jti : String)
  /-- A call of `is_revoked` removes the entry. -/
  | remove (i : Nat)
  | cleanupExpired
  /-- A call of `cleanup_expired` comes to a key. -/
  | retain (i : Nat) (jti : String)
  | revokeAllForUser (sub : String)
  /-- A call of `revoke_all_for_user` comes to a key. -/
  | count (i : Nat) (jti : String)
  /-- A call of `cleanup_expired` or `revoke_all_for_user` returns. -/
  | finish (i : Nat)

namespace World

def start (clock : Int) : World := ⟨clock, ∅, [], .empty⟩

def call (w : World) (call : Call) : World := { w with calls := w.calls ++ [call] }

def setCall (w : World) (i : Nat) (call : Call) : World := { w with calls := w.calls.set i call }

/-- What `is_revoked` finds in the map: whether an entry is live. -/
def isRevoked (w : World) (jti : String) : Bool :=
  match w.entries.lookup jti with
  | some (_, expiresAt) => decide (w.clock < expiresAt)
  | none => false

/-- Revocation is effective in this state. -/
def Effective (w : World) (requireJti failOpen : Bool) : Prop :=
  w.history.Effective w.clock (checkToken requireJti failOpen fun jti => .ok (w.isRevoked jti))

def step (w : World) : Event → World
  | .elapse nanos => { w with clock := w.clock + nanos }
  | .issue token => { w with history := { w.history with issued := token :: w.history.issued } }
  | .revoke jti ttlSecs =>
    match expiresAt w.clock ttlSecs with
    | some expiresAt => w.call (.inserting jti (w.clock + ttlSecs * 10 ^ 9) expiresAt)
    | none => w
  | .insert i =>
    match w.calls[i]? with
    | some (.inserting jti ends expiresAt) =>
      { w with entries := w.entries.insert jti ("", expiresAt), history := w.history.revoke jti ends }.setCall i
        .returned
    | _ => w
  | .check jti =>
    match w.entries.lookup jti with
    | some (_, expiresAt) => if w.clock < expiresAt then w else w.call (.removing jti)
    | none => w
  | .remove i =>
    match w.calls[i]? with
    | some (.removing jti) => { w with entries := w.entries.erase jti }.setCall i .returned
    | _ => w
  | .cleanupExpired => w.call (.sweeping w.clock)
  | .retain i jti =>
    match w.calls[i]? with
    | some (.sweeping now) =>
      { w with entries := w.entries.retain fun key entry => key ≠ jti || decide (now < entry.2) }
    | _ => w
  | .revokeAllForUser sub => w.call (.counting sub 0)
  | .count i jti =>
    match w.calls[i]?, w.entries.lookup jti with
    | some (.counting sub count), some (s, _) => if s = sub then w.setCall i (.counting sub (count + 1)) else w
    | _, _ => w
  | .finish i =>
    match w.calls[i]? with
    | some (.sweeping _) => w.setCall i .returned
    | some (.counting sub _) => { w with history := w.history.condemn sub }.setCall i .returned
    | _ => w

end World

end Memory

/-! ### The Redis store -/

namespace Redis

/-- How far a call is. -/
inductive Call where
  /-- `revoke_all_for_user`, with the keys it found. -/
  | deleting (sub : String) (keys : List String)
  | returned

/-- The deadlines of the keys, and the server's clock, in milliseconds. -/
structure World where
  clock : Int
  deadlines : AList fun _ : String => Int
  calls : List Call
  history : History

inductive Event where
  | elapse (millis : Nat)
  | issue (token : Token)
  /-- `SET EX` of `revoke`. -/
  | revoke (jti : String) (ttlSecs : Nat)
  /-- `KEYS` of `revoke_all_for_user`. -/
  | revokeAllForUser (sub : String)
  /-- `DEL` of a call of `revoke_all_for_user`. -/
  | delete (i : Nat)

def keyOf (jti : String) : String := "fraiseql:revoked:" ++ jti

namespace World

def start (clock : Int) : World := ⟨clock, ∅, [], .empty⟩

/-- The deadline of a key that is there. -/
def live (w : World) (key : String) : Option Int := (w.deadlines.lookup key).filter fun deadline => w.clock < deadline

/-- `EXISTS`. -/
def isRevoked (w : World) (jti : String) : Bool := (w.live (keyOf jti)).isSome

/-- Revocation is effective in this state. -/
def Effective (w : World) (requireJti failOpen : Bool) : Prop :=
  w.history.Effective w.clock (checkToken requireJti failOpen fun jti => .ok (w.isRevoked jti))

/-- `KEYS`; the pattern language is the server's. -/
def keys (globMatch : String → String → Bool) (w : World) (pattern : String) : List String :=
  w.deadlines.keys.filter fun key => globMatch pattern key && (w.live key).isSome

/-- `revoke_all_for_user` returns. -/
def condemn (w : World) (sub : String) : World := { w with history := w.history.condemn sub }

variable (globMatch : String → String → Bool)

def step (w : World) : Event → World
  | .elapse millis => { w with clock := w.clock + millis }
  | .issue token => { w with history := { w.history with issued := token :: w.history.issued } }
  | .revoke jti ttlSecs =>
    -- a time to live of zero, or one that does not fit, is an error
    if 0 < ttlSecs ∧ w.clock + ttlSecs * 1000 < 2 ^ 63 then
      { w with
        deadlines := w.deadlines.insert (keyOf jti) (w.clock + ttlSecs * 1000)
        history := w.history.revoke jti (w.clock + ttlSecs * 1000) }
    else w
  | .revokeAllForUser sub =>
    let keys := w.keys globMatch (keyOf ("user:" ++ sub ++ ":*"))
    if keys.isEmpty then w.condemn sub else { w with calls := w.calls ++ [.deleting sub keys] }
  | .delete i =>
    match w.calls[i]? with
    | some (.deleting sub keys) =>
      { w with
        deadlines := w.deadlines.retain fun key _ => key ∉ keys
        calls := w.calls.set i .returned }.condemn sub
    | _ => w

end World

end Redis

end FraiseQL.TokenRevocation
