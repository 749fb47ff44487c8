import Mathlib.Data.List.Basic

/-! Keys that expire, as a Redis server keeps them: a key holds a value until its deadline, and from the
deadline on it is gone for every command. Times are milliseconds, the lifetimes commands are given are
seconds. -/

/-- The values of the keys with their deadlines, and the server's clock. -/
structure ExpiringStore (κ ν : Type) where
  now : Nat
  entry : κ → Option (ν × Nat)

namespace ExpiringStore

variable {κ ν : Type}

def empty (now : Nat) : ExpiringStore κ ν := ⟨now, fun _ => none⟩

def get (s : ExpiringStore κ ν) (k : κ) : Option ν :=
  ((s.entry k).filter fun e => s.now < e.2).map Prod.fst

variable [DecidableEq κ]

/-- `SET key value EX seconds`. -/
def setEx (s : ExpiringStore κ ν) (k : κ) (v : ν) (seconds : Nat) : ExpiringStore κ ν :=
  { s with entry := Function.update s.entry k (some (v, s.now + seconds * 1000)) }

/-- `SET key value NX EX seconds`: whether the key was set. -/
def setNxEx (s : ExpiringStore κ ν) (k : κ) (v : ν) (seconds : Nat) : Bool × ExpiringStore κ ν :=
  if (s.get k).isSome then (false, s) else (true, s.setEx k v seconds)

def del (s : ExpiringStore κ ν) (k : κ) : ExpiringStore κ ν :=
  { s with entry := Function.update s.entry k none }

/-- `EXPIRE`: a live key gets a new deadline. -/
def expire (s : ExpiringStore κ ν) (k : κ) (seconds : Nat) : ExpiringStore κ ν :=
  match s.get k with
  | some v => s.setEx k v seconds
  | none => s

/-- Time passes. -/
def advance (s : ExpiringStore κ ν) (elapsed : Nat) : ExpiringStore κ ν := { s with now := s.now + elapsed }

variable {s : ExpiringStore κ ν} {k j : κ} {v : ν} {seconds : Nat}

omit [DecidableEq κ] in
theorem get_eq_some_iff : s.get k = some v ↔ ∃ deadline, s.entry k = some (v, deadline) ∧ s.now < deadline := by
  simp [get, Option.filter_eq_some_iff]

theorem get_setEx_self (hseconds : 0 < seconds) : (s.setEx k v seconds).get k = some v := by
  rw [get_eq_some_iff]
  refine ⟨s.now + seconds * 1000, by simp [setEx], ?_⟩
  show s.now < s.now + seconds * 1000
  omega

theorem get_setEx_of_ne (hne : j ≠ k) : (s.setEx k v seconds).get j = s.get j := by
  have hentry : (s.setEx k v seconds).entry j = s.entry j := Function.update_of_ne hne _ _
  rw [get, hentry]
  rfl

@[simp] theorem get_del_self : (s.del k).get k = none := by
  simp [get, del]

theorem get_del_of_ne (hne : j ≠ k) : (s.del k).get j = s.get j := by
  have hentry : (s.del k).entry j = s.entry j := Function.update_of_ne hne _ _
  rw [get, hentry]
  rfl

omit [DecidableEq κ] in
/-- What is left after time has passed was there before. -/
theorem get_of_get_advance {elapsed : Nat} (hget : (s.advance elapsed).get k = some v) : s.get k = some v := by
  obtain ⟨deadline, hentry, hlive⟩ := get_eq_some_iff.mp hget
  apply get_eq_some_iff.mpr
  refine ⟨deadline, hentry, ?_⟩
  have hnow : s.now + elapsed < deadline := hlive
  omega

end ExpiringStore
