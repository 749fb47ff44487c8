import FraiseQL.OauthState

/-! The PKCE state store (`pkce.rs`), in memory on each server or in a Redis that the servers share, and what it has in
common with the OAuth state store: what was stored is handed out once. Its tokens are the keys of the store, or the
keys encrypted; the cipher is a parameter. -/

namespace FraiseQL.PkceState

open Desk

structure ConsumedPkceState where
  verifier : String
  redirectUri : String

/-- `StateEncryptionService`; the random nonce is an argument. -/
structure Encryptor where
  encrypt : String → String → Option String
  decrypt : String → Option String

section Tokens

variable (encryptor : Option Encryptor)

def outboundToken (nonce key : String) : Option String :=
  match encryptor with
  | some enc => enc.encrypt nonce key
  | none => some key

def internalKey (token : String) : Option String :=
  match encryptor with
  | some enc => enc.decrypt token
  | none => some token

/-- What the cipher promises of a token: when it decrypts, it was made of the key it decrypts to. -/
def Authentic (tokens : List (String × String)) (token : String) : Prop :=
  encryptor.isSome = true → ∀ key, internalKey encryptor token = some key → (key, token) ∈ tokens

/-- What holds of a token and the key that was found for it. -/
structure Matches (tokens : List (String × String)) (key token : String) : Prop where
  opens : internalKey encryptor token = some key
  given : encryptor.isSome = true → (key, token) ∈ tokens

variable {encryptor}

theorem Matches.more {tokens : List (String × String)} {key token : String} (h : Matches encryptor tokens key token)
    (entry : String × String) : Matches encryptor (entry :: tokens) key token :=
  ⟨h.opens, fun hsome => List.mem_cons_of_mem _ (h.given hsome)⟩

end Tokens

/-! ### In memory -/

namespace Memory

/-- An entry in the map of a server, under its key. -/
structure Issue where
  server : Nat
  key : String
  verifier : String
  redirectUri : String
  createdAt : Nat
  ttl : Nat

def Issue.place (r : Issue) : Nat × String := (r.server, r.key)

/-- `created_at.elapsed() > ttl`. -/
def Issue.expired (r : Issue) (clock : Nat) : Bool := r.ttl < clock - r.createdAt

/-- How far a call is. -/
inductive Call where
  /-- `create_state`, which has read the clock. -/
  | inserting (issue : Issue)
  /-- The entry is inserted. -/
  | sealing (key : String)
  /-- `consume_state`, which has the entry of its token. -/
  | comparing (id : Nat) (issue : Issue) (token : String)
  /-- The state was consumed, at this moment. -/
  | consumed (id : Nat) (issue : Issue) (token : String) (state : ConsumedPkceState) (now : Nat)
  | ended

/-- The clock in nanoseconds, and the tokens that were given out, with their keys. -/
structure World where
  clock : Nat
  desk : Desk (Nat × String) Issue Call
  tokens : List (String × String)

inductive Event where
  | elapse (nanos : Nat)
  /-- `create_state` on a server draws a verifier and a key and reads the clock. -/
  | create (server : Nat) (key verifier redirectUri : String)
  | insert (i : Nat)
  | encrypt (i : Nat) (nonce : String)
  /-- `consume_state` on a server removes the entry of the token. -/
  | remove (server : Nat) (token : String)
  /-- `consume_state` reads the clock. -/
  | compare (i : Nat)
  /-- `cleanup_expired` comes to an entry. -/
  | retain (server : Nat) (key : String)

namespace World

def start (clock : Nat) : World := ⟨clock, .empty, []⟩

def setCall (w : World) (i : Nat) (call : Call) : World := { w with desk := w.desk.setCall i call }

variable (encryptor : Option Encryptor) (stateTtlSecs : Nat)

def step (w : World) : Event → World
  | .elapse nanos => { w with clock := w.clock + nanos }
  | .create server key verifier redirectUri =>
    { w with desk := w.desk.call (.inserting ⟨server, key, verifier, redirectUri, w.clock, stateTtlSecs * 10 ^ 9⟩) }
  | .insert i =>
    match w.desk.calls[i]? with
    | some (.inserting r) => { w with desk := (w.desk.issue r.place r).setCall i (.sealing r.key) }
    | _ => w
  | .encrypt i nonce =>
    match w.desk.calls[i]? with
    | some (.sealing key) =>
      match outboundToken encryptor nonce key with
      | some token => { w with tokens := (key, token) :: w.tokens }.setCall i .ended
      | none => w.setCall i .ended
    | _ => w
  | .remove server token =>
    match internalKey encryptor token with
    | none => { w with desk := w.desk.call .ended }
    | some key =>
      match w.desk.get (server, key) with
      | some (id, r) => { w with desk := (w.desk.erase (server, key)).call (.comparing id r token) }
      | none => { w with desk := w.desk.call .ended }
  | .compare i =>
    match w.desk.calls[i]? with
    | some (.comparing id r token) =>
      if r.expired w.clock then w.setCall i .ended
      else w.setCall i (.consumed id r token ⟨r.verifier, r.redirectUri⟩ w.clock)
    | _ => w
  | .retain server key => { w with desk := w.desk.retain fun k r => k ≠ (server, key) || !r.expired w.clock }

end World

/-- What a call has taken out of a map. -/
def hand : Call → Option (Nat × Issue)
  | .comparing id r _ => some (id, r)
  | .consumed id r _ _ _ => some (id, r)
  | _ => none

/-- Every consumption belongs to a state that was stored under the key of the token, no two to the same; it is not later
than the expiry, returns what was stored, and its token was given out for the key. -/
def SingleUse (encryptor : Option Encryptor) (w : World) : Prop :=
  (∀ (i j : Nat) id r r' token token' state state' now now', w.desk.calls[i]? = some (.consumed id r token state now) →
      w.desk.calls[j]? = some (.consumed id r' token' state' now') → i = j) ∧
    ∀ id r token state now, .consumed id r token state now ∈ w.desk.calls →
      w.desk.issues[id]? = some r ∧ internalKey encryptor token = some r.key ∧ state = ⟨r.verifier, r.redirectUri⟩ ∧
        now ≤ r.createdAt + r.ttl ∧ (encryptor.isSome = true → (r.key, token) ∈ w.tokens)

def Timely (encryptor : Option Encryptor) (tokens : List (String × String)) : Call → Prop
  | .comparing _ r token => Matches encryptor tokens r.key token
  | .consumed _ r token state now =>
    Matches encryptor tokens r.key token ∧ state = ⟨r.verifier, r.redirectUri⟩ ∧ now ≤ r.createdAt + r.ttl
  | _ => True

structure Inv (encryptor : Option Encryptor) (w : World) : Prop where
  sound : w.desk.Sound Issue.place hand fun _ => False
  timely : ∀ c ∈ w.desk.calls, Timely encryptor w.tokens c

/-- A token is consumed that the cipher made, where it decrypts. -/
def Fair (encryptor : Option Encryptor) (w : World) : Event → Prop
  | .remove _ token => Authentic encryptor w.tokens token
  | _ => True

theorem inv_start (encryptor : Option Encryptor) (clock : Nat) : Inv encryptor (.start clock) :=
  ⟨sound_empty, nofun⟩

section Step

variable {encryptor : Option Encryptor} {w : World}

open World

theorem Timely.more {tokens : List (String × String)} {call : Call} (h : Timely encryptor tokens call)
    (entry : String × String) : Timely encryptor (entry :: tokens) call := by
  cases call with
  | comparing id r token => exact Matches.more h entry
  | consumed id r token state now => exact ⟨h.1.more entry, h.2⟩
  | _ => trivial

/-- A call goes on with nothing in hand. -/
theorem inv_setCall (hinv : Inv encryptor w) {i : Nat} {c call : Call} (hi : w.desk.calls[i]? = some c)
    (hcall : hand call = none) (htimely : Timely encryptor w.tokens call) : Inv encryptor (w.setCall i call) := by
  refine ⟨hinv.sound.go_on hi rfl rfl (fun _ _ hk => hk) ?_ ?_, forall_setCall hinv.timely htimely⟩
  · intro e he
    rw [hcall] at he
    cases he
  · intro id r he
    rw [hcall] at he
    cases he

theorem inv_step (stateTtlSecs : Nat) (e : Event) (hinv : Inv encryptor w) (hfair : Fair encryptor w e) :
    Inv encryptor (w.step encryptor stateTtlSecs e) := by
  obtain ⟨hsound, htimely⟩ := hinv
  have hw : Inv encryptor w := ⟨hsound, htimely⟩
  cases e with
  | elapse nanos => exact ⟨hsound, htimely⟩
  | create server key verifier redirectUri => exact ⟨hsound.call rfl, forall_call htimely (by trivial)⟩
  | insert i =>
    rw [step]
    split
    · rename_i r hi
      have hissued : Inv encryptor { w with desk := w.desk.issue r.place r } := ⟨hsound.issue r, htimely⟩
      exact inv_setCall hissued hi rfl trivial
    · exact hw
  | encrypt i nonce =>
    rw [step]
    split
    · rename_i key hi
      split
      · rename_i token _
        have hmore : Inv encryptor { w with tokens := (key, token) :: w.tokens } :=
          ⟨hsound, fun c hc => (htimely c hc).more _⟩
        exact inv_setCall hmore hi rfl trivial
      · exact inv_setCall hw hi rfl trivial
    · exact hw
  | remove server token =>
    rw [step]
    split
    · exact ⟨hsound.call rfl, forall_call htimely (by trivial)⟩
    · rename_i key hkey
      split
      · rename_i id r hget
        have hplace := (Prod.mk.inj (hsound.stored _ _ _ hget).2).2
        refine ⟨hsound.take hget ?_ rfl rfl rfl (fun _ _ hk => AList.lookup_of_erase hk) ?_,
          forall_call (d := w.desk.erase (server, key)) htimely ?_⟩
        · intro c hc r' hhand
          exact hsound.shared _ _ _ hget c hc r' hhand
        · exact .inl (AList.lookup_erase ..)
        · rw [← hplace] at hkey
          exact ⟨hkey, fun hsome => hfair hsome _ hkey⟩
      · exact ⟨hsound.call rfl, forall_call htimely (by trivial)⟩
  | compare i =>
    rw [step]
    split
    · rename_i id r token hi
      have hmatches : Matches encryptor w.tokens r.key token := htimely _ (List.mem_of_getElem? hi)
      split_ifs with hexpired
      · exact inv_setCall hw hi rfl trivial
      · refine ⟨hsound.go_on hi rfl rfl (fun _ _ hk => hk) (fun _ he => he) ?_,
          forall_setCall htimely ⟨hmatches, rfl, ?_⟩⟩
        · intro _ _ _ hshares
          exact hshares.elim
        · have hfresh : ¬r.ttl < w.clock - r.createdAt := by simpa [Issue.expired] using hexpired
          omega
    · exact hw
  | retain server key => exact ⟨hsound.retain fun k r => k ≠ (server, key) || !r.expired w.clock, htimely⟩

theorem singleUse (hinv : Inv encryptor w) : SingleUse encryptor w := by
  refine ⟨?_, ?_⟩
  · intro i j id r r' token token' state state' now now' hi hj
    exact hinv.sound.single i j _ _ id r r' hi hj rfl rfl
  · intro id r token state now hmem
    obtain ⟨⟨hkey, htoken⟩, hstate, hnow⟩ := hinv.timely _ hmem
    exact ⟨hinv.sound.owned _ hmem id r rfl, hkey, hstate, hnow, htoken⟩

end Step

end Memory

/-! ### In Redis -/

namespace Redis

/-- The verifier and the redirect URI under a key, until the deadline in milliseconds. -/
structure Issue where
  key : String
  verifier : String
  redirectUri : String
  deadline : Nat

/-- How far a call is. -/
inductive Call where
  /-- `create_state`, which has set the key. -/
  | sealing (key : String)
  /-- The state was consumed, at this moment. -/
  | consumed (id : Nat) (issue : Issue) (token : String) (state : ConsumedPkceState) (now : Nat)
  | ended

/-- The clock in milliseconds, and the tokens that were given out, with their keys. -/
structure World where
  clock : Nat
  desk : Desk String Issue Call
  tokens : List (String × String)

inductive Event where
  | elapse (millis : Nat)
  /-- `create_state` draws a verifier and a key: `SET EX`. -/
  | create (key verifier redirectUri : String)
  | encrypt (i : Nat) (nonce : String)
  /-- `GETDEL` of `consume_state`. -/
  | consume (token : String)

namespace World

def start (clock : Nat) : World := ⟨clock, .empty, []⟩

def setCall (w : World) (i : Nat) (call : Call) : World := { w with desk := w.desk.setCall i call }

variable (encryptor : Option Encryptor) (stateTtlSecs : Nat)

def step (w : World) : Event → World
  | .elapse millis => { w with clock := w.clock + millis }
  | .create key verifier redirectUri =>
    -- a time to live of zero is an error
    if stateTtlSecs = 0 then { w with desk := w.desk.call .ended }
    else
      { w with
        desk := (w.desk.issue key ⟨key, verifier, redirectUri, w.clock + stateTtlSecs * 1000⟩).call (.sealing key) }
  | .encrypt i nonce =>
    match w.desk.calls[i]? with
    | some (.sealing key) =>
      match outboundToken encryptor nonce key with
      | some token => { w with tokens := (key, token) :: w.tokens }.setCall i .ended
      | none => w.setCall i .ended
    | _ => w
  | .consume token =>
    match internalKey encryptor token with
    | none => { w with desk := w.desk.call .ended }
    | some key =>
      match (w.desk.get key).filter fun e => w.clock < e.2.deadline with
      | some (id, r) =>
        { w with
          desk := (w.desk.erase key).call (.consumed id r token ⟨r.verifier, r.redirectUri⟩ w.clock) }
      | none => { w with desk := w.desk.call .ended }

end World

def hand : Call → Option (Nat × Issue)
  | .consumed id r _ _ _ => some (id, r)
  | _ => none

/-- Every consumption belongs to a state that was stored under the key of the token, no two to the same; it is before the
deadline, returns what was stored, and its token was given out for the key. -/
def SingleUse (encryptor : Option Encryptor) (w : World) : Prop :=
  (∀ (i j : Nat) id r r' token token' state state' now now', w.desk.calls[i]? = some (.consumed id r token state now) →
      w.desk.calls[j]? = some (.consumed id r' token' state' now') → i = j) ∧
    ∀ id r token state now, .consumed id r token state now ∈ w.desk.calls →
      w.desk.issues[id]? = some r ∧ internalKey encryptor token = some r.key ∧ state = ⟨r.verifier, r.redirectUri⟩ ∧
        now < r.deadline ∧ (encryptor.isSome = true → (r.key, token) ∈ w.tokens)

def Timely (encryptor : Option Encryptor) (tokens : List (String × String)) : Call → Prop
  | .consumed _ r token state now =>
    Matches encryptor tokens r.key token ∧ state = ⟨r.verifier, r.redirectUri⟩ ∧ now < r.deadline
  | _ => True

structure Inv (encryptor : Option Encryptor) (w : World) : Prop where
  sound : w.desk.Sound Issue.key hand fun _ => False
  timely : ∀ c ∈ w.desk.calls, Timely encryptor w.tokens c

/-- A token is consumed that the cipher made, where it decrypts. -/
def Fair (encryptor : Option Encryptor) (w : World) : Event → Prop
  | .consume token => Authentic encryptor w.tokens token
  | _ => True

theorem inv_start (encryptor : Option Encryptor) (clock : Nat) : Inv encryptor (.start clock) :=
  ⟨sound_empty, nofun⟩

section Step

variable {encryptor : Option Encryptor} {w : World}

open World

theorem Timely.more {tokens : List (String × String)} {call : Call} (h : Timely encryptor tokens call)
    (entry : String × String) : Timely encryptor (entry :: tokens) call := by
  cases call with
  | consumed id r token state now => exact ⟨h.1.more entry, h.2⟩
  | _ => trivial

/-- A call ends with nothing in hand. -/
theorem inv_ended (hinv : Inv encryptor w) {i : Nat} {c : Call} (hi : w.desk.calls[i]? = some c) :
    Inv encryptor (w.setCall i .ended) := by
  refine ⟨hinv.sound.go_on hi rfl rfl (fun _ _ hk => hk) nofun nofun, forall_setCall hinv.timely (by trivial)⟩

theorem inv_step (stateTtlSecs : Nat) (e : Event) (hinv : Inv encryptor w) (hfair : Fair encryptor w e) :
    Inv encryptor (w.step encryptor stateTtlSecs e) := by
  obtain ⟨hsound, htimely⟩ := hinv
  have hw : Inv encryptor w := ⟨hsound, htimely⟩
  cases e with
  | elapse millis => exact ⟨hsound, htimely⟩
  | create key verifier redirectUri =>
    rw [step]
    split_ifs
    · exact ⟨hsound.call rfl, forall_call htimely (by trivial)⟩
    · have hissued := hsound.issue ⟨key, verifier, redirectUri, w.clock + stateTtlSecs * 1000⟩
      exact ⟨hissued.call rfl, forall_call (d := w.desk.issue key _) htimely (by trivial)⟩
  | encrypt i nonce =>
    rw [step]
    split
    · rename_i key hi
      split
      · rename_i token _
        have hmore : Inv encryptor { w with tokens := (key, token) :: w.tokens } :=
          ⟨hsound, fun c hc => (htimely c hc).more _⟩
        exact inv_ended hmore hi
      · exact inv_ended hw hi
    · exact hw
  | consume token =>
    rw [step]
    split
    · exact ⟨hsound.call rfl, forall_call htimely (by trivial)⟩
    · rename_i key hkey
      split
      · rename_i id r hlive
        obtain ⟨hget, hbefore⟩ := Option.mem_filter_iff.mp hlive
        have hplace := (hsound.stored _ _ _ hget).2
        refine ⟨hsound.take hget ?_ rfl rfl rfl (fun _ _ hk => AList.lookup_of_erase hk) ?_,
          forall_call (d := w.desk.erase key) htimely ⟨?_, rfl, by simpa using hbefore⟩⟩
        · intro c hc r' hhand
          exact hsound.shared _ _ _ hget c hc r' hhand
        · exact .inl (AList.lookup_erase ..)
        · rw [← hplace] at hkey
          exact ⟨hkey, fun hsome => hfair hsome _ hkey⟩
      · exact ⟨hsound.call rfl, forall_call htimely (by trivial)⟩

theorem singleUse (hinv : Inv encryptor w) : SingleUse encryptor w := by
  refine ⟨?_, ?_⟩
  · intro i j id r r' token token' state state' now now' hi hj
    exact hinv.sound.single i j _ _ id r r' hi hj rfl rfl
  · intro id r token state now hmem
    obtain ⟨⟨hkey, htoken⟩, hstate, hnow⟩ := hinv.timely _ hmem
    exact ⟨hinv.sound.owned _ hmem id r rfl, hkey, hstate, hnow, htoken⟩

end Step

end Redis

/-! ### Single use -/

open EventRun

/-- In every run, over both stores and both backends, a state is handed out to one call at most, before it expires, and
only under a value it was stored with: in memory and for PKCE whatever the calls do, and for the OAuth states in Redis
where no two calls overlap between `GET` and `DEL` and no deadline is late. -/
theorem states_single_use (maxStates stateTtlSecs clock : Nat) (encryptor : Option Encryptor) :
    (∀ events, OauthState.Memory.SingleUse (run (OauthState.Memory.World.step maxStates) (.start clock) events)) ∧
    (∀ events, Along OauthState.Redis.World.step OauthState.Redis.Fair (.start clock) events →
      OauthState.Redis.SingleUse (run OauthState.Redis.World.step (.start clock) events)) ∧
    (∀ events, Along (Memory.World.step encryptor stateTtlSecs) (Memory.Fair encryptor) (.start clock) events →
      Memory.SingleUse encryptor (run (Memory.World.step encryptor stateTtlSecs) (.start clock) events)) ∧
    ∀ events, Along (Redis.World.step encryptor stateTtlSecs) (Redis.Fair encryptor) (.start clock) events →
      Redis.SingleUse encryptor (run (Redis.World.step encryptor stateTtlSecs) (.start clock) events) := by
  refine ⟨?_, ?_, ?_, ?_⟩
  · intro events
    apply OauthState.Memory.singleUse
    have hstep := fun w e (hinv : OauthState.Memory.Inv w) => OauthState.Memory.inv_step maxStates e hinv
    exact run_invariant hstep events (OauthState.Memory.inv_start clock)
  · intro events hfair
    apply OauthState.Redis.singleUse
    have hstep := fun w e (hinv : OauthState.Redis.Inv w) he => OauthState.Redis.inv_step e hinv he
    exact hfair.invariant hstep (OauthState.Redis.inv_start clock)
  · intro events hfair
    apply Memory.singleUse
    have hstep := fun w e (hinv : Memory.Inv encryptor w) he => Memory.inv_step stateTtlSecs e hinv he
    exact hfair.invariant hstep (Memory.inv_start encryptor clock)
  · intro events hfair
    apply Redis.singleUse
    have hstep := fun w e (hinv : Redis.Inv encryptor w) he => Redis.inv_step stateTtlSecs e hinv he
    exact hfair.invariant hstep (Redis.inv_start encryptor clock)

section Examples

/-- A cipher that writes a mark before the key. -/
def marker : Encryptor where
  encrypt _ key := some ("~" ++ key)
  decrypt token := if token.toList.head? = some '~' then some (String.ofList token.toList.tail) else none

/-- A login in Redis, and a PKCE state over each backend, encrypted. -/
theorem states_single_use_logins :
    OauthState.Redis.SingleUse (run OauthState.Redis.World.step (.start 0)
      [.start "s" none, .readTtl 0, .setEx 0, .get "s", .del 1, .get "s", .readExpiry 1, .compare 1]) ∧
    Memory.SingleUse (some marker) (run (Memory.World.step (some marker) 600) (.start 0)
      [.create 0 "k" "v" "/home", .insert 0, .encrypt 0 "", .remove 0 "~k", .compare 1, .remove 0 "~k"]) ∧
    Redis.SingleUse (some marker) (run (Redis.World.step (some marker) 600) (.start 0)
      [.create "k" "v" "/home", .encrypt 0 "", .consume "~k", .consume "~k"]) := by
  obtain ⟨-, hoauth, hmemory, hredis⟩ := states_single_use 10000 600 0 (some marker)
  have hauthentic : Authentic (some marker) [("k", "~k")] "~k" := by
    rintro - key hkey
    obtain rfl : "k" = key := Option.some.inj hkey
    exact List.mem_cons_self
  refine ⟨hoauth _ ⟨trivial, trivial, ?_, ?_, trivial, ?_, ?_, trivial, trivial⟩,
    hmemory _ ⟨trivial, trivial, trivial, hauthentic, trivial, hauthentic, trivial⟩,
    hredis _ ⟨trivial, trivial, hauthentic, hauthentic, trivial⟩⟩
  · rintro value provider expiry ttl ⟨⟩
    decide
  · intro id r _ r' hmem
    cases List.mem_singleton.mp hmem
  · rintro id r ⟨⟩
  · rintro id r ⟨⟩
    decide

/-- Two callbacks with one state, both of which get it before either deletes it; and a state that was set five seconds
after its time to live was taken, and is accepted four seconds after its expiry. -/
theorem state_replayed :
    (¬OauthState.Redis.SingleUse (run OauthState.Redis.World.step (.start 0)
      [.start "s" none, .readTtl 0, .setEx 0, .get "s", .get "s", .del 1, .del 2, .readExpiry 1, .readExpiry 2,
        .compare 1, .compare 2])) ∧
    ¬OauthState.Redis.SingleUse (run OauthState.Redis.World.step (.start 0)
      [.start "s" none, .readTtl 0, .elapse 5000, .setEx 0, .elapse 599000, .get "s", .del 1, .readExpiry 1,
        .compare 1]) := by
  refine ⟨?_, ?_⟩
  · intro hsingle
    have hsame := hsingle.1 1 2 0 ⟨"s", "default", 600, 600000⟩ ⟨"s", "default", 600, 600000⟩ 0 0 (by decide) (by decide)
    cases hsame
  · intro hsingle
    have htimely := (hsingle.2 0 ⟨"s", "default", 600, 605000⟩ 604 (by decide)).2
    revert htimely
    decide

end Examples

end FraiseQL.PkceState
