import Mathlib.Algebra.Order.Field.Basic
import Mathlib.Algebra.Order.Ring.Cast
import Mathlib.Tactic.Linarith
import Mathlib.Tactic.Ring
import FraiseQL.EventRun

/-! Machines that grant requests out of a supply. The supply has a capacity and refills at a steady rate; a grant takes
one from it. Whatever a machine does besides, it grants no more in an interval than the capacity and what flows in
during the interval. -/

namespace EventRun

open Nat

variable {σ ε K : Type} [Field K] [LinearOrder K] [IsStrictOrderedRing K]

/-- How many events of a run are granted from `first` to `last`. -/
def granted (step : σ → ε → σ) (time : ε → K) (grants : σ → ε → Bool) (first last : K) : σ → List ε → Nat
  | _, [] => 0
  | s, e :: rest =>
    (if grants s e ∧ first ≤ time e ∧ time e ≤ last then 1 else 0) +
      granted step time grants first last (step s e) rest

omit [Field K] [IsStrictOrderedRing K] in
/-- A machine that grants nothing. -/
theorem granted_of_never {step : σ → ε → σ} {time : ε → K} {grants : σ → ε → Bool} (h : ∀ s e, grants s e = false)
    (first last : K) (s : σ) (events : List ε) : granted step time grants first last s events = 0 := by
  induction events generalizing s with
  | nil => rfl
  | cons e rest ih => rw [granted, ih, if_neg (by simp [h])]

/-- A supply that the grants of a machine are taken from. It is looked at from the machine's clock on. -/
structure Metered (step : σ → ε → σ) (time : ε → K) (grants : σ → ε → Bool) (clock : σ → K) (inv : σ → Prop)
    (p : σ → ε → Prop) (supply : σ → K → K) (capacity rate : K) : Prop where
  nonneg : ∀ s t, inv s → clock s ≤ t → 0 ≤ supply s t
  capped : ∀ s t, inv s → supply s t ≤ capacity
  refill : ∀ s t u, inv s → clock s ≤ t → t ≤ u → supply s u ≤ supply s t + rate * (u - t)
  ticks : ∀ s e, inv s → p s e → clock s ≤ time e ∧ clock (step s e) = time e
  keeps : ∀ s e, inv s → p s e → inv (step s e)
  taken : ∀ s e, inv s → p s e →
    supply (step s e) (time e) + (if grants s e then 1 else 0) ≤ supply s (time e)

namespace Metered

variable {step : σ → ε → σ} {time : ε → K} {grants : σ → ε → Bool} {clock : σ → K} {inv : σ → Prop}
  {p : σ → ε → Prop} {supply : σ → K → K} {capacity rate last : K}

omit [IsStrictOrderedRing K] in
/-- After the interval nothing is counted. -/
theorem granted_after (h : Metered step time grants clock inv p supply capacity rate) {s : σ} (hinv : inv s)
    {events : List ε} (hevents : Along step p s events) (hlast : last < clock s) (first : K) :
    granted step time grants first last s events = 0 := by
  induction events generalizing s with
  | nil => rfl
  | cons e rest ih =>
    obtain ⟨he, hrest⟩ := hevents
    obtain ⟨hclock, hstep⟩ := h.ticks s e hinv he
    have hafter : last < time e := hlast.trans_le hclock
    rw [granted, if_neg fun hcounted => absurd hcounted.2.2 (not_le.mpr hafter), zero_add]
    exact ih (h.keeps s e hinv he) hrest (hstep ▸ hafter)

/-- Inside the interval the supply and what flows in are all that can be granted. -/
theorem granted_inside (h : Metered step time grants clock inv p supply capacity rate) (hrate : 0 ≤ rate) {s : σ}
    (hinv : inv s) {events : List ε} (hevents : Along step p s events) {now : K} (hnow : clock s ≤ now)
    (hnext : ∀ e ∈ events.head?, now ≤ time e) (hlast : now ≤ last) (first : K) :
    (granted step time grants first last s events : K) ≤ supply s now + rate * (last - now) := by
  have hflow : 0 ≤ rate * (last - now) := mul_nonneg hrate (sub_nonneg.mpr hlast)
  induction events generalizing s now with
  | nil =>
    have hsupply := h.nonneg s now hinv hnow
    rw [granted, cast_zero]
    linarith
  | cons e rest ih =>
    obtain ⟨he, hrest⟩ := hevents
    obtain ⟨hclock, hstep⟩ := h.ticks s e hinv he
    have hkeeps := h.keeps s e hinv he
    have hafter : now ≤ time e := hnext e rfl
    by_cases hin : time e ≤ last
    · have hnextTime : ∀ e' ∈ rest.head?, time e ≤ time e' := by
        intro e' he'
        cases rest with
        | nil => cases he'
        | cons e'' rest =>
          cases he'
          have hticks := (h.ticks _ _ hkeeps hrest.1).1
          rwa [hstep] at hticks
      have htail := ih hkeeps hrest hstep.le hnextTime hin (mul_nonneg hrate (sub_nonneg.mpr hin))
      have htaken := h.taken s e hinv he
      have hrefill := h.refill s now (time e) hinv hnow hafter
      have hone : (((if grants s e = true ∧ first ≤ time e ∧ time e ≤ last then 1 else 0 : Nat)) : K) ≤
          if grants s e = true then 1 else 0 := by
        split_ifs with hcounted hgrants
        · rw [cast_one]
        · exact absurd hcounted.1 hgrants
        · rw [cast_zero]
          exact zero_le_one
        · rw [cast_zero]
      have hsum : rate * (last - now) = rate * (time e - now) + rate * (last - time e) := by ring
      rw [granted, cast_add, hsum]
      linarith
    · have hnone := h.granted_after hkeeps hrest (hstep ▸ not_le.mp hin) first
      have hsupply := h.nonneg s now hinv hnow
      rw [granted, hnone, if_neg fun hcounted => hin hcounted.2.2, cast_zero]
      linarith

/-- In every run, at most the capacity and what flows in is granted in an interval. -/
theorem granted_le (h : Metered step time grants clock inv p supply capacity rate) (hrate : 0 ≤ rate)
    (hcapacity : 0 ≤ capacity) {s : σ} (hinv : inv s) {events : List ε} (hevents : Along step p s events)
    {first : K} (hinterval : first ≤ last) :
    (granted step time grants first last s events : K) ≤ capacity + rate * (last - first) := by
  have hflow : 0 ≤ rate * (last - first) := mul_nonneg hrate (sub_nonneg.mpr hinterval)
  induction events generalizing s with
  | nil =>
    rw [granted, cast_zero]
    exact add_nonneg hcapacity hflow
  | cons e rest ih =>
    obtain ⟨he, hrest⟩ := hevents
    obtain ⟨hclock, hstep⟩ := h.ticks s e hinv he
    by_cases hbefore : time e < first
    · rw [granted, if_neg fun hcounted => absurd hcounted.2.1 (not_le.mpr hbefore), zero_add]
      exact ih (h.keeps s e hinv he) hrest
    · by_cases hin : time e ≤ last
      · have hnow : first ≤ time e := not_lt.mp hbefore
        have hnext : ∀ e' ∈ (e :: rest).head?, time e ≤ time e' := by
          intro e' he'
          cases he'
          exact le_rfl
        have hall : Along step p s (e :: rest) := ⟨he, hrest⟩
        have hinside := h.granted_inside hrate hinv hall hclock hnext hin first
        have hcapped := h.capped s (time e) hinv
        have hless : rate * (last - time e) ≤ rate * (last - first) :=
          mul_le_mul_of_nonneg_left (sub_le_sub_left hnow last) hrate
        linarith
      · have hnone := h.granted_after (h.keeps s e hinv he) hrest (hstep ▸ not_le.mp hin) first
        rw [granted, hnone, if_neg fun hcounted => hin hcounted.2.2, cast_zero]
        exact add_nonneg hcapacity hflow

end Metered

end EventRun
