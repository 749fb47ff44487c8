import Mathlib.Algebra.Order.Group.Int
import FraiseQL.TokenRevocation

/-! Runs of the revocation stores. An entry is a promise to reject a `jti` until its deadline. A second revocation that
ends earlier, the lazy removal of an entry that was renewed meanwhile, and the deletion of a user's keys break it;
where none of them happens it is kept. -/

namespace FraiseQL.TokenRevocation

open DeadlinePromise EventRun List Option

/-! ### What is promised -/

section Check

variable {requireJti failOpen : Bool} {isRevoked : String → Bool} {h : History} {now : Int}

/-- A `jti` that is there and revoked, or that is missing where it must not be. -/
theorem checkToken_rejects {jti : String} (hrevoked : isRevoked jti = true) (hempty : jti = "" → requireJti = true) :
    checkToken requireJti failOpen (fun jti => .ok (isRevoked jti)) (some jti) ≠ .ok () := by
  rw [checkToken, filter_some]
  by_cases hjti : jti = ""
  · rw [if_neg (by simpa using hjti)]
    simp [hempty hjti]
  · rw [if_pos (by simpa using hjti)]
    simp [hrevoked]

theorem checkToken_missing {jti : Option String} (hjti : jti.filter (· ≠ "") = none) (hrequired : requireJti = true) :
    checkToken requireJti failOpen (fun jti => .ok (isRevoked jti)) jti ≠ .ok () := by
  rw [checkToken, hjti]
  simp [hrequired]

/-- The history holds against a store: its revocations are kept, and its condemned tokens covered. -/
structure Upheld (requireJti : Bool) (now : Int) (held : String → Option Int) (h : History) : Prop where
  kept : Kept now held h.revoked
  named : ∀ p ∈ h.revoked, p.1 = "" → requireJti = true
  condemned : ∀ token ∈ h.condemned, h.Covers requireJti token

/-- An upheld history is effective. -/
theorem Upheld.effective {held : String → Option Int} (hupheld : Upheld requireJti now held h)
    (hheld : ∀ jti deadline, held jti = some deadline → now < deadline → isRevoked jti = true) :
    h.Effective now (checkToken requireJti failOpen fun jti => .ok (isRevoked jti)) := by
  have hrevoked : ∀ p ∈ h.revoked, now < p.2 →
      checkToken requireJti failOpen (fun jti => .ok (isRevoked jti)) (some p.1) ≠ .ok () := by
    intro p hp hopen
    obtain ⟨deadline, hdeadline, hlong⟩ := hupheld.kept p hp hopen
    exact checkToken_rejects (hheld _ _ hdeadline (hopen.trans_le hlong)) (hupheld.named p hp)
  refine ⟨hrevoked, ?_⟩
  intro token htoken hexp
  rcases hupheld.condemned token htoken with ⟨hmissing, hrequired⟩ | ⟨p, hp, hjti, hlong⟩
  · exact checkToken_missing hmissing hrequired
  · rw [hjti]
    exact hrevoked p hp (hexp.trans_le hlong)

theorem History.Covers.mono {h' : History} {token : Token} (hcovers : h.Covers requireJti token)
    (hsub : ∀ p ∈ h.revoked, p ∈ h'.revoked) : h'.Covers requireJti token := by
  rcases hcovers with hmissing | ⟨p, hp, hlong⟩
  · exact .inl hmissing
  · exact .inr ⟨p, hsub p hp, hlong⟩

variable {held held' : String → Option Int}

theorem upheld_empty (requireJti : Bool) (now : Int) (held : String → Option Int) :
    Upheld requireJti now held .empty := ⟨kept_nil _ _, nofun, nofun⟩

section

variable (hupheld : Upheld requireJti now held h)
include hupheld

theorem Upheld.later {moment : Int} (hlater : now ≤ moment) :
    Upheld requireJti moment held h := ⟨hupheld.kept.later hlater, hupheld.named, hupheld.condemned⟩

theorem Upheld.issue (token : Token) : Upheld requireJti now held { h with issued := token :: h.issued } :=
  ⟨hupheld.kept, hupheld.named, fun token htoken => (hupheld.condemned token htoken).mono fun _ hp => hp⟩

theorem Upheld.drop
    (hover : ∀ jti old, held jti = some old → held' jti = some old ∨ old ≤ now) : Upheld requireJti now held' h :=
  ⟨hupheld.kept.drop hover, hupheld.named, hupheld.condemned⟩

/-- A revocation that ends no earlier than what it replaces. -/
theorem Upheld.revoke {jti : String} {ends deadline : Int}
    (hlonger : ∀ old, held jti = some old → now < old → old ≤ deadline) (hends : ends ≤ deadline)
    (hempty : jti = "" → requireJti = true) (hkey : held' jti = some deadline)
    (hother : ∀ other, other ≠ jti → held' other = held other) :
    Upheld requireJti now held' (h.revoke jti ends) := by
  refine ⟨(hupheld.kept.put hlonger hkey hother).promise ⟨deadline, hkey, hends⟩, ?_, ?_⟩
  · intro p hp
    rcases mem_cons.mp hp with rfl | hold
    · exact hempty
    · exact hupheld.named p hold
  · intro token htoken
    exact (hupheld.condemned token htoken).mono fun _ hp => mem_cons_of_mem _ hp

/-- The tokens of a user are condemned when each of them is covered. -/
theorem Upheld.condemn {sub : String} (hcovers : ∀ token ∈ h.issued, token.sub = sub → h.Covers requireJti token) :
    Upheld requireJti now held (h.condemn sub) := by
  refine ⟨hupheld.kept, hupheld.named, ?_⟩
  intro token htoken
  have hcovered : h.Covers requireJti token := by
    rcases mem_append.mp htoken with hnew | hold
    · obtain ⟨hissued, hsub⟩ := mem_filter.mp hnew
      exact hcovers token hissued (by simpa using hsub)
    · exact hupheld.condemned token hold
  exact hcovered.mono fun _ hp => hp

end

end Check

/-! ### The in-memory store -/

namespace Memory

open World

/-- When the entry of a `jti` ends. -/
def held (w : World) (jti : String) : Option Int := (w.entries.lookup jti).map Prod.snd

/-- A time to live is not negative as a signed number, and a missing `jti` is revoked only where it is rejected anyway;
an insertion does not shorten a live entry; an entry is removed only while it is expired; and a user is revoked only
when each of the user's tokens was revoked one by one. -/
def Fair (requireJti : Bool) (w : World) : Event → Prop
  | .revoke jti ttlSecs => ttlSecs < 2 ^ 63 ∧ (jti = "" → requireJti = true)
  | .insert i => ∀ jti ends expiresAt, w.calls[i]? = some (.inserting jti ends expiresAt) →
      ∀ old, held w jti = some old → w.clock < old → old ≤ expiresAt
  | .remove i => ∀ jti, w.calls[i]? = some (.removing jti) → ∀ old, held w jti = some old → old ≤ w.clock
  | .finish i => ∀ sub count, w.calls[i]? = some (.counting sub count) →
      ∀ token ∈ w.history.issued, token.sub = sub → w.history.Covers requireJti token
  | _ => True

/-- What a call has to do is right. -/
def Sound (requireJti : Bool) (clock : Int) : Call → Prop
  | .inserting jti ends expiresAt => ends ≤ expiresAt ∧ (jti = "" → requireJti = true)
  | .sweeping now => now ≤ clock
  | _ => True

structure Inv (requireJti : Bool) (w : World) : Prop where
  upheld : Upheld requireJti w.clock (held w) w.history
  sound : ∀ call ∈ w.calls, Sound requireJti w.clock call

section Step

variable {requireJti : Bool} {w : World}

theorem Sound.later {clock moment : Int} {call : Call} (h : Sound requireJti clock call) (hlater : clock ≤ moment) :
    Sound requireJti moment call := by
  cases call with
  | sweeping now => exact h.trans hlater
  | _ => exact h

theorem sound_call {call : Call} (hcalls : ∀ call ∈ w.calls, Sound requireJti w.clock call)
    (hcall : Sound requireJti w.clock call) : ∀ c ∈ (w.call call).calls, Sound requireJti w.clock c := by
  intro c hc
  rcases mem_append.mp hc with hold | hnew
  · exact hcalls c hold
  · rw [mem_singleton.mp hnew]
    exact hcall

theorem sound_setCall {call : Call} (hcalls : ∀ call ∈ w.calls, Sound requireJti w.clock call)
    (hcall : Sound requireJti w.clock call) (i : Nat) : ∀ c ∈ (w.setCall i call).calls, Sound requireJti w.clock c := by
  intro c hc
  rcases mem_or_eq_of_mem_set hc with hold | rfl
  · exact hcalls c hold
  · exact hcall

/-- A time to live that is not negative ends where it says. -/
theorem ends_le {ttlSecs : Nat} {deadline : Int} (hsigned : ttlSecs < 2 ^ 63)
    (hdeadline : expiresAt w.clock ttlSecs = some deadline) : w.clock + ttlSecs * 10 ^ 9 ≤ deadline := by
  rw [expiresAt, castSigned, if_pos hsigned] at hdeadline
  simp only [ite_none_right_eq_some, some.injEq] at hdeadline
  exact hdeadline.2.2.le

theorem inv_step (e : Event) (hinv : Inv requireJti w) (hfair : Fair requireJti w e) : Inv requireJti (w.step e) := by
  obtain ⟨hupheld, hsound⟩ := hinv
  cases e with
  | elapse nanos =>
    have hlater : w.clock ≤ w.clock + nanos := Int.le_add_of_nonneg_right (Int.natCast_nonneg _)
    exact ⟨hupheld.later hlater, fun call hcall => (hsound call hcall).later hlater⟩
  | issue token => exact ⟨hupheld.issue token, hsound⟩
  | revoke jti ttlSecs =>
    rw [step]
    cases hdeadline : expiresAt w.clock ttlSecs with
    | none => exact ⟨hupheld, hsound⟩
    | some deadline => exact ⟨hupheld, sound_call hsound ⟨ends_le hfair.1 hdeadline, hfair.2⟩⟩
  | insert i =>
    rw [step]
    split
    · rename_i jti ends expiresAt hcall
      obtain ⟨hends, hempty⟩ := hsound _ (mem_of_getElem? hcall)
      refine ⟨hupheld.revoke (hfair _ _ _ hcall) hends hempty ?_ ?_, sound_setCall (w := w) hsound (by trivial) i⟩
      · show ((w.entries.insert jti ("", expiresAt)).lookup jti).map Prod.snd = _
        rw [AList.lookup_insert]
        rfl
      · intro other hother
        show ((w.entries.insert jti ("", expiresAt)).lookup other).map Prod.snd = _
        rw [AList.lookup_insert_ne hother]
        rfl
    · exact ⟨hupheld, hsound⟩
  | check jti =>
    rw [step]
    split
    · split_ifs
      · exact ⟨hupheld, hsound⟩
      · exact ⟨hupheld, sound_call hsound (by trivial)⟩
    · exact ⟨hupheld, hsound⟩
  | remove i =>
    rw [step]
    split
    · rename_i jti hcall
      refine ⟨hupheld.drop ?_, sound_setCall (w := w) hsound (by trivial) i⟩
      intro key old hold
      by_cases hkey : key = jti
      · subst hkey
        exact .inr (hfair _ hcall old hold)
      · left
        show ((w.entries.erase jti).lookup key).map Prod.snd = some old
        rwa [AList.lookup_erase_ne hkey]
    · exact ⟨hupheld, hsound⟩
  | cleanupExpired => exact ⟨hupheld, sound_call hsound le_rfl⟩
  | retain i jti =>
    rw [step]
    split
    · rename_i now hcall
      have hnow : now ≤ w.clock := hsound _ (mem_of_getElem? hcall)
      refine ⟨hupheld.drop ?_, hsound⟩
      intro key old hold
      rw [held, map_eq_some_iff] at hold
      obtain ⟨entry, hentry, rfl⟩ := hold
      show ((w.entries.retain fun key entry => key ≠ jti || decide (now < entry.2)).lookup key).map Prod.snd =
        some entry.2 ∨ _
      rw [AList.lookup_retain, hentry, filter_some]
      split_ifs with hkept
      · exact .inl rfl
      · right
        have hexpired : ¬now < entry.2 := by
          intro hlive
          exact hkept (by simp [hlive])
        exact (not_lt.mp hexpired).trans hnow
    · exact ⟨hupheld, hsound⟩
  | revokeAllForUser sub => exact ⟨hupheld, sound_call hsound (by trivial)⟩
  | count i jti =>
    rw [step]
    split
    · split_ifs
      · exact ⟨hupheld, sound_setCall hsound (by trivial) i⟩
      · exact ⟨hupheld, hsound⟩
    · exact ⟨hupheld, hsound⟩
  | finish i =>
    rw [step]
    split
    · exact ⟨hupheld, sound_setCall hsound (by trivial) i⟩
    · rename_i sub count hcall
      exact ⟨hupheld.condemn (hfair _ _ hcall), sound_setCall (w := w) hsound (by trivial) i⟩
    · exact ⟨hupheld, hsound⟩

theorem effective (failOpen : Bool) (hinv : Inv requireJti w) : w.Effective requireJti failOpen := by
  apply hinv.upheld.effective
  intro jti deadline hdeadline hlive
  rw [held, map_eq_some_iff] at hdeadline
  obtain ⟨entry, hentry, rfl⟩ := hdeadline
  rw [isRevoked, hentry]
  exact decide_eq_true hlive

end Step

end Memory

/-! ### The Redis store -/

namespace Redis

open World

/-- A missing `jti` is revoked only where it is rejected anyway; a revocation does not shorten a live one; and a user is
revoked only when each of the user's tokens was revoked one by one, and the keys that are deleted are gone by then. -/
def Fair (globMatch : String → String → Bool) (requireJti : Bool) (w : World) : Event → Prop
  | .revoke jti ttlSecs =>
    (jti = "" → requireJti = true) ∧ ∀ old, w.live (keyOf jti) = some old → old ≤ w.clock + ttlSecs * 1000
  | .revokeAllForUser sub =>
    (w.keys globMatch (keyOf ("user:" ++ sub ++ ":*"))).isEmpty = true →
      ∀ token ∈ w.history.issued, token.sub = sub → w.history.Covers requireJti token
  | .delete i => ∀ sub keys, w.calls[i]? = some (.deleting sub keys) → (∀ key ∈ keys, w.live key = none) ∧
      ∀ token ∈ w.history.issued, token.sub = sub → w.history.Covers requireJti token
  | _ => True

/-- When the key of a `jti` ends. -/
def held (w : World) (jti : String) : Option Int := w.deadlines.lookup (keyOf jti)

theorem keyOf_inj {jti other : String} (h : keyOf jti = keyOf other) : jti = other := by
  have hlist := congrArg String.toList h
  rw [keyOf, keyOf, String.toList_append, String.toList_append] at hlist
  exact String.toList_inj.mp (append_cancel_left hlist)

section Step

variable {globMatch : String → String → Bool} {requireJti : Bool} {w : World}

theorem upheld_step (e : Event) (hupheld : Upheld requireJti w.clock (held w) w.history)
    (hfair : Fair globMatch requireJti w e) :
    Upheld requireJti (w.step globMatch e).clock (held (w.step globMatch e)) (w.step globMatch e).history := by
  cases e with
  | elapse millis => exact hupheld.later (Int.le_add_of_nonneg_right (Int.natCast_nonneg _))
  | issue token => exact hupheld.issue token
  | revoke jti ttlSecs =>
    rw [step]
    split_ifs
    · refine hupheld.revoke ?_ le_rfl hfair.1 (AList.lookup_insert _) ?_
      · intro old hold hlive
        exact hfair.2 old (mem_filter_iff.mpr ⟨hold, decide_eq_true hlive⟩)
      · intro other hother
        exact AList.lookup_insert_ne fun hkey => hother (keyOf_inj hkey)
    · exact hupheld
  | revokeAllForUser sub =>
    rw [step]
    split_ifs with hnone
    · exact hupheld.condemn (hfair hnone)
    · exact hupheld
  | delete i =>
    rw [step]
    split
    · rename_i sub keys hcall
      obtain ⟨hgone, hcovers⟩ := hfair _ _ hcall
      refine Upheld.condemn (hupheld.drop ?_) hcovers
      intro jti old hold
      rw [held] at hold
      show (w.deadlines.retain fun key _ => key ∉ keys).lookup (keyOf jti) = some old ∨ _
      rw [AList.lookup_retain, hold, filter_some]
      split_ifs with hkept
      · exact .inl rfl
      · right
        have hdeleted : keyOf jti ∈ keys := by simpa using hkept
        have hlive := hgone _ hdeleted
        rw [live, hold, filter_some] at hlive
        simpa using hlive
    · exact hupheld

theorem effective (failOpen : Bool) (hupheld : Upheld requireJti w.clock (held w) w.history) :
    w.Effective requireJti failOpen := by
  apply hupheld.effective
  intro jti deadline hdeadline hlive
  rw [held] at hdeadline
  rw [isRevoked, live, hdeadline, filter_some, if_pos (decide_eq_true hlive)]
  rfl

end Step

end Redis

/-! ### Effective revocation -/

/-- Over both stores, in every state of a run whose steps are fair, what was revoked is rejected until its time to live
ends, and so is every token that was issued to a user before the user was revoked. -/
theorem revocation_effective (requireJti failOpen : Bool) (clock : Int) :
    (∀ events, Along Memory.World.step (Memory.Fair requireJti) (.start clock) events →
      (run Memory.World.step (.start clock) events).Effective requireJti failOpen) ∧
    ∀ globMatch events, Along (Redis.World.step globMatch) (Redis.Fair globMatch requireJti) (.start clock) events →
      (run (Redis.World.step globMatch) (.start clock) events).Effective requireJti failOpen := by
  refine ⟨?_, ?_⟩
  · intro events hfair
    apply Memory.effective
    refine hfair.invariant (fun w e hinv he => Memory.inv_step e hinv he) ?_
    exact ⟨upheld_empty _ _ _, nofun⟩
  · intro globMatch events hfair
    apply Redis.effective
    have hstep : ∀ w e, Upheld requireJti w.clock (Redis.held w) w.history → Redis.Fair globMatch requireJti w e →
        Upheld requireJti (w.step globMatch e).clock (Redis.held (w.step globMatch e)) (w.step globMatch e).history :=
      fun w e hupheld he => Redis.upheld_step e hupheld he
    exact hfair.invariant hstep (upheld_empty _ _ _)

section Examples

/-- A token of ann's that expires ten seconds from the start. -/
def annsToken : Token := ⟨some "a", "ann", 10 * 10 ^ 9⟩

/-- Patterns that end in a star. -/
def starMatch (pattern text : String) : Bool := pattern.toList.dropLast.isPrefixOf text.toList

/-- A token is revoked for ten seconds, and then its user. -/
theorem revocation_effective_both :
    (run Memory.World.step (.start 0) [.issue annsToken, .revoke "a" 10, .insert 0, .revokeAllForUser "ann",
      .count 1 "a", .finish 1, .elapse 5, .check "a"]).Effective false false ∧
    (run (Redis.World.step starMatch) (.start 0) [.revoke "a" 10, .elapse 9000, .revokeAllForUser "ann"]).Effective
      false false := by
  obtain ⟨hmemory, hredis⟩ := revocation_effective false false 0
  refine ⟨hmemory _ ⟨trivial, ⟨by decide, by decide⟩, ?_, trivial, trivial, ?_, trivial, trivial, trivial⟩,
    hredis starMatch _ ⟨⟨by decide, ?_⟩, trivial, ?_, trivial⟩⟩
  · rintro jti ends expiresAt ⟨⟩ old ⟨⟩
  · rintro sub count ⟨⟩ token htoken -
    obtain rfl := mem_singleton.mp htoken
    exact .inr ⟨_, mem_cons_self, rfl, by decide⟩
  · rintro old ⟨⟩
  · rintro - token ⟨⟩

/-- Four runs that end with a revoked token accepted: a second revocation that ends earlier; a check that removes an
entry which was renewed since it was found; a user that is revoked, in memory; and over Redis, where the keys that are
deleted are the revocations. -/
theorem revocation_undone :
    (¬(run Memory.World.step (.start 0) [.revoke "a" 10, .insert 0, .revoke "a" 1, .insert 1,
      .elapse (2 * 10 ^ 9)]).Effective false false) ∧
    (¬(run Memory.World.step (.start 0) [.revoke "a" 1, .insert 0, .elapse (2 * 10 ^ 9), .check "a", .revoke "a" 10,
      .insert 2, .remove 1]).Effective false false) ∧
    (¬(run Memory.World.step (.start 0) [.issue annsToken, .revokeAllForUser "ann", .finish 0]).Effective false false) ∧
    ¬(run (Redis.World.step starMatch) (.start 0) [.revoke "user:ann:1" 10, .revokeAllForUser "ann",
      .delete 0]).Effective false false := by
  refine ⟨?_, ?_, ?_, ?_⟩
  · intro heffective
    exact heffective.1 ("a", 10 * 10 ^ 9) (by decide) (by decide) (by rfl)
  · intro heffective
    exact heffective.1 ("a", 12 * 10 ^ 9) (by decide) (by decide) (by rfl)
  · intro heffective
    exact heffective.2 annsToken (by decide) (by decide) (by rfl)
  · intro heffective
    exact heffective.1 ("user:ann:1", 10000) (by decide +kernel) (by decide +kernel) (by decide +kernel)

end Examples

end FraiseQL.TokenRevocation
