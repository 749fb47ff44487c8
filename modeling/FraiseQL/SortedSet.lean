import Mathlib.Order.Lattice
import Mathlib.Data.List.Basic

/-! Sorted sets, as Redis keeps them: every member has a score, and the least entry is the one with the
smallest score, of equal scores the one with the smallest member. -/

/-- The members with their scores. -/
abbrev SortedSet (α : Type) := List (α × Nat)

namespace SortedSet

variable {α : Type} [LinearOrder α]

def members (z : SortedSet α) : List α := z.map Prod.fst

/-- `ZADD`: a member that is there gets the new score. -/
def add (z : SortedSet α) (member : α) (score : Nat) : SortedSet α :=
  (member, score) :: z.filter fun e => e.1 ≠ member

/-- The order of the entries. -/
def before (a b : α × Nat) : Bool := a.2 < b.2 || (a.2 = b.2 && a.1 < b.1)

def least : SortedSet α → Option (α × Nat)
  | [] => none
  | e :: rest =>
    match least rest with
    | none => some e
    | some m => if before m e then some m else some e

/-- `ZPOPMIN`: the least entry and the set without it. -/
def popMin (z : SortedSet α) : Option ((α × Nat) × SortedSet α) :=
  z.least.map fun e => (e, z.filter fun other => other.1 ≠ e.1)

variable {z z' : SortedSet α} {e : α × Nat} {x : α}

theorem mem_members_filter (m : α) : x ∈ members (z.filter fun other => other.1 ≠ m) ↔ x ∈ members z ∧ x ≠ m := by
  simp only [members, List.mem_map, List.mem_filter, decide_eq_true_eq]
  constructor
  · rintro ⟨entry, ⟨hmem, hne⟩, rfl⟩
    exact ⟨⟨entry, hmem, rfl⟩, hne⟩
  · rintro ⟨⟨entry, hmem, rfl⟩, hne⟩
    exact ⟨entry, ⟨hmem, hne⟩, rfl⟩

theorem mem_members_add (m : α) (score : Nat) : x ∈ members (z.add m score) ↔ x = m ∨ x ∈ members z := by
  have hrest := mem_members_filter (z := z) (x := x) m
  rw [add, members, List.map_cons, List.mem_cons, ← members, hrest]
  constructor
  · rintro (h | ⟨h, -⟩)
    · exact .inl h
    · exact .inr h
  · rintro (h | h)
    · exact .inl h
    · by_cases hm : x = m
      · exact .inl hm
      · exact .inr ⟨h, hm⟩

theorem least_mem (hleast : z.least = some e) : e ∈ z := by
  induction z generalizing e with
  | nil => cases hleast
  | cons first rest ih =>
    rw [least] at hleast
    cases hrest : least rest with
    | none =>
      rw [hrest] at hleast
      cases hleast
      exact List.mem_cons_self
    | some m =>
      rw [hrest] at hleast
      dsimp only at hleast
      split at hleast
      · cases hleast
        exact List.mem_cons_of_mem _ (ih hrest)
      · cases hleast
        exact List.mem_cons_self

theorem popMin_eq_none_iff : z.popMin = none ↔ z = [] := by
  rw [popMin, Option.map_eq_none_iff]
  cases z with
  | nil => exact ⟨fun _ => rfl, fun _ => rfl⟩
  | cons first rest =>
    refine ⟨?_, nofun⟩
    intro hleast
    rw [least] at hleast
    split at hleast
    · cases hleast
    · split at hleast <;> cases hleast

/-- The popped entry was in the set; what remains is the other members. -/
theorem popMin_eq_some (hpop : z.popMin = some (e, z')) :
    e.1 ∈ z.members ∧ (∀ x, x ∈ z'.members ↔ x ∈ z.members ∧ x ≠ e.1) ∧ z'.length < z.length := by
  rw [popMin, Option.map_eq_some_iff] at hpop
  obtain ⟨least, hleast, heq⟩ := hpop
  cases heq
  have hmem := least_mem hleast
  refine ⟨List.mem_map_of_mem hmem, fun x => mem_members_filter e.1, ?_⟩
  apply List.length_filter_lt_length_iff_exists.mpr
  exact ⟨e, hmem, by simp⟩

end SortedSet
