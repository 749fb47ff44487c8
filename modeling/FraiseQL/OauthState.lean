import FraiseQL.EventRun
import FraiseQL.OneShot

/-! The OAuth `state` parameter (`state_store.rs`, and `auth_start` and `auth_callback` of `handlers.rs`): the steps that
the calls take on the store, in memory on each server or in a Redis that the servers share. A stored value is kept with
the call of `auth_start` that stored it; what `auth_callback` does before it asks the store and after the state check
does not touch the store. -/

namespace FraiseQL.OauthState

open Desk

/-- The seconds a state is valid. -/
def validSecs : Nat := 600

/-! ### In memory -/

namespace Memory

/-- A stored state: the map of its server holds the provider and the expiry under the value. -/
structure Issue where
  server : Nat
  value : String
  provider : String
  expiry : Nat

def Issue.key (r : Issue) : Nat × String := (r.server, r.value)

/-- How far a call is. -/
inductive Call where
  /-- `auth_start`, which has read the clock. -/
  | storing (issue : Issue)
  /-- In `cleanup_expired`, which has read the clock. -/
  | sweeping (issue : Issue) (now : Nat)
  /-- There was room. -/
  | inserting (issue : Issue)
  /-- `auth_callback`, which has the provider and the expiry of the value it was given. -/
  | comparing (id : Nat) (issue : Issue)
  /-- The state check passed, at this second. -/
  | passed (id : Nat) (issue : Issue) (now : Nat)
  | ended

/-- The clock in nanoseconds. -/
structure World where
  clock : Nat
  desk : Desk (Nat × String) Issue Call

inductive Event where
  | elapse (nanos : Nat)
  /-- `auth_start` on a server draws a value and reads the clock. -/
  | start (server : Nat) (value : String) (provider : Option String)
  /-- `cleanup_expired` reads the clock. -/
  | sweep (i : Nat)
  /-- `cleanup_expired` comes to a value. -/
  | retain (i : Nat) (value : String)
  /-- `cleanup_expired` looks at the size of the map. -/
  | measure (i : Nat)
  | insert (i : Nat)
  /-- `auth_callback` on a server removes the value it was given. -/
  | remove (server : Nat) (value : String)
  /-- `auth_callback` reads the clock. -/
  | compare (i : Nat)

namespace World

def start (clock : Nat) : World := ⟨clock, .empty⟩

/-- `as_secs` of the clock. -/
def secs (w : World) : Nat := w.clock / 10 ^ 9

def setCall (w : World) (i : Nat) (call : Call) : World := { w with desk := w.desk.setCall i call }

variable (maxStates : Nat)

def step (w : World) : Event → World
  | .elapse nanos => { w with clock := w.clock + nanos }
  | .start server value provider =>
    { w with desk := w.desk.call (.storing ⟨server, value, provider.getD "default", w.secs + validSecs⟩) }
  | .sweep i =>
    match w.desk.calls[i]? with
    | some (.storing issue) => w.setCall i (.sweeping issue w.secs)
    | _ => w
  | .retain i value =>
    match w.desk.calls[i]? with
    | some (.sweeping issue now) =>
      { w with desk := w.desk.retain fun k r => k ≠ (issue.server, value) || decide (now < r.expiry) }
    | _ => w
  | .measure i =>
    match w.desk.calls[i]? with
    | some (.sweeping issue _) =>
      if max maxStates 1 ≤ (w.desk.store.keys.filter fun k => k.1 = issue.server).length then w.setCall i .ended
      else w.setCall i (.inserting issue)
    | _ => w
  | .insert i =>
    match w.desk.calls[i]? with
    | some (.inserting issue) => { w with desk := (w.desk.issue issue.key issue).setCall i .ended }
    | _ => w
  | .remove server value =>
    match w.desk.get (server, value) with
    | some (id, r) =>
      { w with desk := (w.desk.erase (server, value)).call (.comparing id ⟨server, value, r.provider, r.expiry⟩) }
    | none => { w with desk := w.desk.call .ended }
  | .compare i =>
    match w.desk.calls[i]? with
    | some (.comparing id issue) =>
      if issue.expiry < w.secs then w.setCall i .ended else w.setCall i (.passed id issue w.secs)
    | _ => w

end World

/-- What a call has taken out of a map. -/
def hand : Call → Option (Nat × Issue)
  | .comparing id issue => some (id, issue)
  | .passed id issue _ => some (id, issue)
  | _ => none

/-- Every passed check belongs to a state of the value that was stored on the server, no two to the same, and none is
later than its expiry. -/
def SingleUse (w : World) : Prop :=
  (∀ (i j : Nat) id r r' now now', w.desk.calls[i]? = some (.passed id r now) →
      w.desk.calls[j]? = some (.passed id r' now') → i = j) ∧
    ∀ id r now, .passed id r now ∈ w.desk.calls → w.desk.issues[id]? = some r ∧ now ≤ r.expiry

/-- A check that passed was not later than the expiry. -/
def Timely : Call → Prop
  | .passed _ issue now => now ≤ issue.expiry
  | _ => True

structure Inv (w : World) : Prop where
  sound : w.desk.Sound Issue.key hand fun _ => False
  timely : ∀ c ∈ w.desk.calls, Timely c

theorem inv_start (clock : Nat) : Inv (.start clock) := ⟨sound_empty, nofun⟩

section Step

variable {w : World}

open World

/-- A call goes on with nothing in hand. -/
theorem inv_setCall (hinv : Inv w) {i : Nat} {c call : Call} (hi : w.desk.calls[i]? = some c)
    (hcall : hand call = none) (htimely : Timely call) : Inv (w.setCall i call) := by
  refine ⟨hinv.sound.go_on hi rfl rfl (fun _ _ hk => hk) ?_ ?_, forall_setCall hinv.timely htimely⟩
  · intro e he
    rw [hcall] at he
    cases he
  · intro id r he
    rw [hcall] at he
    cases he

theorem inv_step (maxStates : Nat) (e : Event) (hinv : Inv w) : Inv (w.step maxStates e) := by
  obtain ⟨hsound, htimely⟩ := hinv
  cases e with
  | elapse nanos => exact ⟨hsound, htimely⟩
  | start server value provider => exact ⟨hsound.call rfl, forall_call htimely (by trivial)⟩
  | sweep i =>
    rw [step]
    split
    · rename_i hi
      exact inv_setCall ⟨hsound, htimely⟩ hi rfl trivial
    · exact ⟨hsound, htimely⟩
  | retain i value =>
    rw [step]
    split
    · rename_i issue now hi
      exact ⟨hsound.retain fun k r => k ≠ (issue.server, value) || decide (now < r.expiry), htimely⟩
    · exact ⟨hsound, htimely⟩
  | measure i =>
    rw [step]
    split
    · rename_i hi
      split_ifs
      · exact inv_setCall ⟨hsound, htimely⟩ hi rfl trivial
      · exact inv_setCall ⟨hsound, htimely⟩ hi rfl trivial
    · exact ⟨hsound, htimely⟩
  | insert i =>
    rw [step]
    split
    · rename_i issue hi
      have hissued : Inv { w with desk := w.desk.issue issue.key issue } := ⟨hsound.issue issue, htimely⟩
      exact inv_setCall hissued hi rfl trivial
    · exact ⟨hsound, htimely⟩
  | remove server value =>
    rw [step]
    split
    · rename_i id r hget
      have hkey := (hsound.stored _ _ _ hget).2
      have hissue : (⟨server, value, r.provider, r.expiry⟩ : Issue) = r := by
        obtain ⟨rfl, rfl⟩ := Prod.mk.inj hkey
        rfl
      rw [hissue]
      refine ⟨hsound.take hget ?_ rfl rfl rfl (fun _ _ hk => AList.lookup_of_erase hk) ?_, forall_call htimely (by trivial)⟩
      · intro c hc r' hhand
        exact hsound.shared _ _ _ hget c hc r' hhand
      · exact .inl (AList.lookup_erase ..)
    · exact ⟨hsound.call rfl, forall_call htimely (by trivial)⟩
  | compare i =>
    rw [step]
    split
    · rename_i id issue hi
      split_ifs with hexpired
      · exact inv_setCall ⟨hsound, htimely⟩ hi rfl trivial
      · refine ⟨hsound.go_on hi rfl rfl (fun _ _ hk => hk) (fun _ he => he) ?_, forall_setCall htimely ?_⟩
        · intro _ _ _ hshares
          exact hshares.elim
        · exact not_lt.mp hexpired
    · exact ⟨hsound, htimely⟩

theorem singleUse (hinv : Inv w) : SingleUse w := by
  refine ⟨?_, ?_⟩
  · intro i j id r r' now now' hi hj
    exact hinv.sound.single i j _ _ id r r' hi hj rfl rfl
  · intro id r now hmem
    exact ⟨hinv.sound.owned _ hmem id r rfl, hinv.timely _ hmem⟩

end Step

end Memory

/-! ### In Redis -/

namespace Redis

/-- A stored state: the key of the value holds the provider until the deadline, in milliseconds. The expiry is what
`auth_start` asked for. -/
structure Issue where
  value : String
  provider : String
  expiry : Nat
  deadline : Nat
  deriving DecidableEq

/-- How far a call is. -/
inductive Call where
  /-- `auth_start`, which has read the clock. -/
  | storing (value provider : String) (expiry : Nat)
  /-- In `store`, which has read the clock. -/
  | setting (value provider : String) (expiry ttl : Nat)
  /-- `auth_callback`, which found the value it was given. -/
  | deleting (id : Nat) (issue : Issue)
  /-- The value is deleted. -/
  | reading (id : Nat) (issue : Issue)
  /-- `retrieve` has returned, with its reading of the clock. -/
  | comparing (id : Nat) (issue : Issue) (expiry : Nat)
  /-- The state check passed, at this second. -/
  | passed (id : Nat) (issue : Issue) (now : Nat)
  | ended
  deriving DecidableEq

/-- The clock in milliseconds. -/
structure World where
  clock : Nat
  desk : Desk String Issue Call

inductive Event where
  | elapse (millis : Nat)
  /-- `auth_start` draws a value and reads the clock. -/
  | start (value : String) (provider : Option String)
  /-- `store` reads the clock. -/
  | readTtl (i : Nat)
  /-- `SETEX`. -/
  | setEx (i : Nat)
  /-- `GET` of `auth_callback`. -/
  | get (value : String)
  /-- `DEL`. -/
  | del (i : Nat)
  /-- `retrieve` reads the clock. -/
  | readExpiry (i : Nat)
  /-- `auth_callback` reads the clock. -/
  | compare (i : Nat)

namespace World

def start (clock : Nat) : World := ⟨clock, .empty⟩

/-- `as_secs` of the clock. -/
def secs (w : World) : Nat := w.clock / 1000

def setCall (w : World) (i : Nat) (call : Call) : World := { w with desk := w.desk.setCall i call }

/-- A value before its deadline. -/
def live (w : World) (value : String) : Option (Nat × Issue) :=
  (w.desk.get value).filter fun e => w.clock < e.2.deadline

def step (w : World) : Event → World
  | .elapse millis => { w with clock := w.clock + millis }
  | .start value provider =>
    { w with desk := w.desk.call (.storing value (provider.getD "default") (w.secs + validSecs)) }
  | .readTtl i =>
    match w.desk.calls[i]? with
    | some (.storing value provider expiry) => w.setCall i (.setting value provider expiry (max (expiry - w.secs) 1))
    | _ => w
  | .setEx i =>
    match w.desk.calls[i]? with
    | some (.setting value provider expiry ttl) =>
      { w with desk := (w.desk.issue value ⟨value, provider, expiry, w.clock + ttl * 1000⟩).setCall i .ended }
    | _ => w
  | .get value =>
    match w.live value with
    | some (id, r) => { w with desk := w.desk.call (.deleting id { r with value := value }) }
    | none => { w with desk := w.desk.call .ended }
  | .del i =>
    match w.desk.calls[i]? with
    | some (.deleting id r) => { w with desk := (w.desk.erase r.value).setCall i (.reading id r) }
    | _ => w
  | .readExpiry i =>
    match w.desk.calls[i]? with
    | some (.reading id r) => w.setCall i (.comparing id r w.secs)
    | _ => w
  | .compare i =>
    match w.desk.calls[i]? with
    | some (.comparing id r expiry) => if expiry < w.secs then w.setCall i .ended else w.setCall i (.passed id r w.secs)
    | _ => w

end World

/-- What a call has found under its value. -/
def hand : Call → Option (Nat × Issue)
  | .deleting id r => some (id, r)
  | .reading id r => some (id, r)
  | .comparing id r _ => some (id, r)
  | .passed id r _ => some (id, r)
  | _ => none

/-- Between its `GET` and its `DEL` a call shares what it found with the store. -/
def Shares (call : Call) : Prop := ∃ id r, call = .deleting id r

/-- Every passed check belongs to a state of the value that was stored, no two to the same, and none is later than its
expiry. -/
def SingleUse (w : World) : Prop :=
  (∀ (i j : Nat) id r r' now now', w.desk.calls[i]? = some (.passed id r now) →
      w.desk.calls[j]? = some (.passed id r' now') → i = j) ∧
    ∀ id r now, .passed id r now ∈ w.desk.calls → w.desk.issues[id]? = some r ∧ now ≤ r.expiry

/-- No value is got while another call that got it has not deleted it yet; the deadline that `SETEX` sets is not after
the second of the expiry; and `retrieve` reads the clock before the deadline of what it got. -/
def Fair (w : World) : Event → Prop
  | .setEx i => ∀ value provider expiry ttl, w.desk.calls[i]? = some (.setting value provider expiry ttl) →
      w.clock + ttl * 1000 ≤ (expiry + 1) * 1000
  | .get value => ∀ id r, w.live value = some (id, r) → ∀ r', .deleting id r' ∉ w.desk.calls
  | .readExpiry i => ∀ id r, w.desk.calls[i]? = some (.reading id r) → w.clock < r.deadline
  | _ => True

/-- A call that was not later than the expiry of what it has. -/
def Timely : Call → Prop
  | .comparing _ r expiry => expiry ≤ r.expiry
  | .passed _ r now => now ≤ r.expiry
  | _ => True

structure Inv (w : World) : Prop where
  sound : w.desk.Sound Issue.value hand Shares
  kept : ∀ r ∈ w.desk.issues, r.deadline ≤ (r.expiry + 1) * 1000
  timely : ∀ c ∈ w.desk.calls, Timely c

theorem inv_start (clock : Nat) : Inv (.start clock) := ⟨sound_empty, nofun, nofun⟩

section Step

variable {w : World}

open World

/-- A call goes on with what it has, or with nothing. -/
theorem inv_setCall (hinv : Inv w) {i : Nat} {c call : Call} (hi : w.desk.calls[i]? = some c)
    (hhand : hand call = none ∨ hand call = hand c ∧ ¬Shares c) (htimely : Timely call) : Inv (w.setCall i call) := by
  refine ⟨hinv.sound.go_on hi rfl rfl (fun _ _ hk => hk) ?_ ?_, hinv.kept, forall_setCall hinv.timely htimely⟩
  · intro e he
    rcases hhand with hnone | ⟨hsame, -⟩
    · rw [hnone] at he
      cases he
    · exact hsame.symm.trans he
  · intro id r he hshares
    rcases hhand with hnone | ⟨-, hown⟩
    · rw [hnone] at he
      cases he
    · exact absurd hshares hown

theorem inv_step (e : Event) (hinv : Inv w) (hfair : Fair w e) : Inv (w.step e) := by
  obtain ⟨hsound, hkept, htimely⟩ := hinv
  have hw : Inv w := ⟨hsound, hkept, htimely⟩
  cases e with
  | elapse millis => exact ⟨hsound, hkept, htimely⟩
  | start value provider => exact ⟨hsound.call rfl, hkept, forall_call htimely (by trivial)⟩
  | readTtl i =>
    rw [step]
    split
    · rename_i hi
      exact inv_setCall hw hi (.inl rfl) trivial
    · exact hw
  | setEx i =>
    rw [step]
    split
    · rename_i value provider expiry ttl hi
      have hissued : Inv { w with desk := w.desk.issue value ⟨value, provider, expiry, w.clock + ttl * 1000⟩ } := by
        refine ⟨hsound.issue ⟨value, provider, expiry, w.clock + ttl * 1000⟩, ?_, htimely⟩
        intro r hr
        rcases List.mem_append.mp hr with hold | hnew
        · exact hkept r hold
        · rw [List.mem_singleton.mp hnew]
          exact hfair _ _ _ _ hi
      exact inv_setCall hissued hi (.inl rfl) trivial
    · exact hw
  | get value =>
    rw [step]
    split
    · rename_i id r hlive
      obtain ⟨hget, -⟩ := Option.mem_filter_iff.mp hlive
      have hissue : ({ r with value := value } : Issue) = r := by
        rw [← (hsound.stored _ _ _ hget).2]
      rw [hissue]
      refine ⟨hsound.take hget ?_ rfl rfl rfl (fun _ _ hk => hk) (.inr ⟨id, r, rfl⟩), hkept,
        forall_call htimely (by trivial)⟩
      intro c hc r' hhand
      obtain ⟨id', r'', rfl⟩ := hsound.shared _ _ _ hget c hc r' hhand
      cases hhand
      exact hfair id r hlive r' hc
    · exact ⟨hsound.call rfl, hkept, forall_call htimely (by trivial)⟩
  | del i =>
    rw [step]
    split
    · rename_i id r hi
      refine ⟨hsound.go_on hi rfl rfl (fun _ _ hk => AList.lookup_of_erase hk) (fun _ he => he) ?_, hkept,
        forall_setCall htimely (by trivial)⟩
      rintro _ _ ⟨⟩ -
      exact .inr (AList.lookup_erase ..)
    · exact hw
  | readExpiry i =>
    rw [step]
    split
    · rename_i id r hi
      have hmem := List.mem_of_getElem? hi
      have hissued := List.mem_of_getElem? (hsound.owned _ hmem id r rfl)
      have hdeadline := hkept r hissued
      have hbefore := hfair id r hi
      refine inv_setCall hw hi (.inr ⟨rfl, nofun⟩) ?_
      show w.clock / 1000 ≤ r.expiry
      omega
    · exact hw
  | compare i =>
    rw [step]
    split
    · rename_i id r expiry hi
      have hread : expiry ≤ r.expiry := htimely _ (List.mem_of_getElem? hi)
      split_ifs with hexpired
      · exact inv_setCall hw hi (.inl rfl) trivial
      · refine inv_setCall hw hi (.inr ⟨rfl, nofun⟩) ?_
        exact Nat.le_trans (not_lt.mp hexpired) hread
    · exact hw

theorem singleUse (hinv : Inv w) : SingleUse w := by
  refine ⟨?_, ?_⟩
  · intro i j id r r' now now' hi hj
    exact hinv.sound.single i j _ _ id r r' hi hj rfl rfl
  · intro id r now hmem
    exact ⟨hinv.sound.owned _ hmem id r rfl, hinv.timely _ hmem⟩

end Step

end Redis

end FraiseQL.OauthState
