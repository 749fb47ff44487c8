import Mathlib.Data.List.Basic

/-! Windows of a list: what a limit and an offset leave of a result. A window is a fixed choice of positions, whatever
stands at them, so two windows are compared on the list of positions. -/

namespace PageWindow

open List

variable {α β : Type}

/-- The items from an offset on, as many as a limit allows. -/
def window (limit : Option Nat) (offset : Nat) (xs : List α) : List α :=
  match limit with
  | some n => (xs.drop offset).take n
  | none => xs.drop offset

@[simp] theorem window_none_zero (xs : List α) : window none 0 xs = xs := rfl

theorem length_window_some (n offset : Nat) (xs : List α) :
    (window (some n) offset xs).length = min n (xs.length - offset) := by
  simp [window]

theorem length_window_none (offset : Nat) (xs : List α) : (window none offset xs).length = xs.length - offset := by
  simp [window]

/-- No more of a window than a limit allows. -/
theorem length_window_le {limit : Option Nat} {bound : Nat} {offset : Nat} {xs : List α} :
    (window limit offset xs).length ≤ bound ↔ xs.length - offset ≤ bound ∨ ∃ n, limit = some n ∧ n ≤ bound := by
  cases limit with
  | none => simp [length_window_none]
  | some n =>
    rw [length_window_some]
    simp only [Option.some.injEq, exists_eq_left']
    omega

/-- A window that is not empty starts at its offset. -/
theorem head_window_range {n offset size : Nat} (hn : 0 < n) (hsize : offset < size) :
    (window (some n) offset (range size)).head? = some offset := by
  rw [window, head?_take, if_neg (Nat.ne_of_gt hn), head?_drop, getElem?_range hsize]

/-- Windows of one size are the same positions when they start together, or have no positions. -/
theorem window_range_eq_iff {n p q size : Nat} :
    window (some n) p (range size) = window (some n) q (range size) ↔
      p = q ∨ n = 0 ∨ (size ≤ p ∧ size ≤ q) := by
  constructor
  · intro h
    have hlength := congrArg length h
    rw [length_window_some, length_window_some, length_range] at hlength
    by_contra hne
    have hn : 0 < n := by omega
    have hp : p < size := by omega
    have hq : q < size := by omega
    have hhead := congrArg head? h
    rw [head_window_range hn hp, head_window_range hn hq] at hhead
    exact hne (.inl (Option.some.inj hhead))
  · rintro (rfl | rfl | ⟨hp, hq⟩)
    · rfl
    · simp [window]
    · have hempty : ∀ r, size ≤ r → window (some n) r (range size) = [] := by
        intro r hr
        rw [← length_eq_zero_iff, length_window_some, length_range]
        omega
      rw [hempty p hp, hempty q hq]

/-- A window leaves everything when it starts at the first item and its limit is no less than their number. -/
theorem map_window_eq_iff {f : α → β} {limit : Option Nat} {offset : Nat} {xs : List α} :
    (window limit offset xs).map f = xs.map f ↔
      (∀ n, limit = some n → xs.length ≤ n) ∧ (offset = 0 ∨ xs = []) := by
  constructor
  · intro h
    have hlength := congrArg length h
    rw [length_map, length_map] at hlength
    rw [← length_eq_zero_iff]
    cases limit with
    | none =>
      rw [length_window_none] at hlength
      exact ⟨nofun, by omega⟩
    | some n =>
      rw [length_window_some] at hlength
      refine ⟨?_, by omega⟩
      rintro m ⟨⟩
      omega
  · rintro ⟨hlimit, rfl | rfl⟩
    · cases limit with
      | none => rfl
      | some n =>
        show ((xs.drop 0).take n).map f = _
        rw [drop_zero, take_of_length_le (hlimit n rfl)]
    · cases limit <;> simp [window]

end PageWindow
