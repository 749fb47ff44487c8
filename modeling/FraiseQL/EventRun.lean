import Mathlib.Algebra.Group.Int.Defs
import Mathlib.Algebra.GroupWithZero.Nat
import Mathlib.Data.List.Basic

/-! Runs of a machine that is driven by events. A state and an event give the next state; what the
environment chooses is part of the event, and an event that cannot happen in a state leaves it as it is. A
run is a list of events, so every beginning of a run is a run and what holds at the end of every run holds
at every moment of each. -/

namespace EventRun

variable {σ ε : Type} (step : σ → ε → σ)

/-- The state at the end of a run. -/
def run (s : σ) (events : List ε) : σ := events.foldl step s

/-- Every event of the run meets the condition in the state it finds. -/
def Along (p : σ → ε → Prop) : σ → List ε → Prop
  | _, [] => True
  | s, e :: rest => p s e ∧ Along p (step s e) rest

instance decidableAlong (p : σ → ε → Prop) [∀ s e, Decidable (p s e)] :
    (s : σ) → (events : List ε) → Decidable (Along step p s events)
  | _, [] => isTrue trivial
  | s, e :: rest =>
    have := decidableAlong p (step s e) rest
    inferInstanceAs (Decidable (p s e ∧ Along step p (step s e) rest))

variable {step} {p q : σ → ε → Prop} {inv : σ → Prop} {s : σ}

@[simp] theorem run_nil : run step s [] = s := rfl

@[simp] theorem run_cons (e : ε) (rest : List ε) : run step s (e :: rest) = run step (step s e) rest := rfl

theorem run_append (events more : List ε) : run step s (events ++ more) = run step (run step s events) more :=
  List.foldl_append

theorem along_append (events more : List ε) :
    Along step p s (events ++ more) ↔ Along step p s events ∧ Along step p (run step s events) more := by
  induction events generalizing s with
  | nil => exact ⟨fun h => ⟨trivial, h⟩, fun h => h.2⟩
  | cons e rest ih =>
    rw [List.cons_append, Along, ih, Along, run_cons, and_assoc]

theorem Along.and {events : List ε} (hp : Along step p s events) (hq : Along step q s events) :
    Along step (fun s e => p s e ∧ q s e) s events := by
  induction events generalizing s with
  | nil => trivial
  | cons e rest ih => exact ⟨⟨hp.1, hq.1⟩, ih hp.2 hq.2⟩

/-- A condition that does not look at the state. -/
theorem along_const {p : ε → Prop} {events : List ε} :
    Along step (fun _ e => p e) s events ↔ ∀ e ∈ events, p e := by
  induction events generalizing s with
  | nil => simp [Along]
  | cons e rest ih => rw [Along, ih, List.forall_mem_cons]

section

variable (hstep : ∀ s e, inv s → p s e → inv (step s e))
include hstep

variable {events : List ε}

/-- An invariant that every allowed event keeps holds at the end of a run of allowed events. -/
theorem Along.invariant (halong : Along step p s events) (hinv : inv s) : inv (run step s events) := by
  induction events generalizing s with
  | nil => exact hinv
  | cons e rest ih =>
    obtain ⟨he, hrest⟩ := halong
    apply ih hrest
    exact hstep s e hinv he

/-- Under an invariant of the allowed events, a run of allowed events meets whatever the invariant and
the condition imply of one event. -/
theorem Along.mono (hq : ∀ s e, inv s → p s e → q s e)
    (halong : Along step p s events) (hinv : inv s) : Along step q s events := by
  induction events generalizing s with
  | nil => trivial
  | cons e rest ih =>
    obtain ⟨he, hrest⟩ := halong
    refine ⟨hq s e hinv he, ?_⟩
    apply ih hrest
    exact hstep s e hinv he

/-- Two conditions that agree under an invariant, which the first one keeps, are met by the same runs. -/
theorem along_iff (hpq : ∀ s e, inv s → (p s e ↔ q s e))
    (hinv : inv s) : Along step p s events ↔ Along step q s events := by
  induction events generalizing s with
  | nil => exact Iff.rfl
  | cons e rest ih =>
    rw [Along, Along, ← hpq s e hinv]
    exact and_congr_right fun he => ih (hstep s e hinv he)

/-- A run meets a condition exactly when every moment of it is good and stays so under some events that never
break it, where the condition keeps an invariant of good states and one that fails leads out of them. -/
theorem along_iff_paused {ι : Type} {good : σ → Prop} {pause : ι → ε}
    (hgood : ∀ s, inv s → good s) (hpause : ∀ s i, p s (pause i))
    (hbad : ∀ s e, ¬p s e → ∃ i, ¬good (step (step s e) (pause i))) (hinv : inv s) :
    (∀ pre, pre <+: events → ∀ is : List ι, good (run step s (pre ++ is.map pause))) ↔ Along step p s events := by
  constructor
  · intro hall
    induction events generalizing s with
    | nil => trivial
    | cons e rest ih =>
      have he : p s e := by
        by_contra hnot
        obtain ⟨i, hi⟩ := hbad s e hnot
        exact hi (hall [e] (List.cons_prefix_cons.mpr ⟨rfl, List.nil_prefix⟩) [i])
      refine ⟨he, ih (hstep s e hinv he) fun pre hpre is => ?_⟩
      exact hall (e :: pre) (List.cons_prefix_cons.mpr ⟨rfl, hpre⟩) is
  · rintro halong pre ⟨post, rfl⟩ is
    apply hgood
    refine Along.invariant hstep ((along_append _ _).mpr ⟨((along_append _ _).mp halong).1, ?_⟩) hinv
    generalize run step s pre = s'
    induction is generalizing s' with
    | nil => trivial
    | cons i is ih => exact ⟨hpause s' i, ih _⟩

end

/-- An invariant that every event keeps holds at the end of every run. -/
theorem run_invariant (hstep : ∀ s e, inv s → inv (step s e)) (events : List ε) (hinv : inv s) :
    inv (run step s events) := by
  induction events generalizing s with
  | nil => exact hinv
  | cons e rest ih =>
    apply ih
    exact hstep s e hinv

/-- What is seen of a state at the end of a run is seen at the end of the run of the events that bear on it. -/
theorem run_filter {α : Type} (view : σ → α) {bears : ε → Bool}
    (hbears : ∀ s s' e, bears e = true → view s = view s' → view (step s e) = view (step s' e))
    (hrest : ∀ s e, ¬bears e = true → view (step s e) = view s) {s' : σ} (h : view s = view s') (events : List ε) :
    view (run step s events) = view (run step s' (events.filter bears)) := by
  induction events generalizing s s' with
  | nil => exact h
  | cons e rest ih =>
    rw [run_cons, List.filter_cons]
    split_ifs with he
    · exact ih (hbears s s' e he h)
    · exact ih ((hrest s e he).trans h)

end EventRun
