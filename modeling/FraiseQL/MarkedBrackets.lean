import Mathlib.Data.List.Basic

/-! Words of brackets and marks, and the stack that a pass over such a word keeps: for each open bracket, whether a
mark that counts stands directly in it. The pass stops at a closing bracket with such a mark inside and a mark behind;
it stops in exactly the words that have such a pair of brackets. -/

namespace FraiseQL.Brackets

open List

inductive Symbol where
  | opening
  | closing
  | mark (counts : Bool)
  | plain
  deriving DecidableEq

/-- Each bracket has its partner in the word. -/
inductive Balanced : List Symbol → Prop
  | nil : Balanced []
  | mark {counts w} (h : Balanced w) : Balanced (.mark counts :: w)
  | plain {w} (h : Balanced w) : Balanced (.plain :: w)
  | group {u w} (hu : Balanced u) (hw : Balanced w) : Balanced (.opening :: (u ++ .closing :: w))

variable {u w : List Symbol}

theorem Balanced.append (hu : Balanced u) (hw : Balanced w) : Balanced (u ++ w) := by
  induction hu with
  | nil => exact hw
  | mark _ ih => exact .mark ih
  | plain _ ih => exact .plain ih
  | group hu _ _ ih =>
    rw [cons_append, append_assoc, cons_append]
    exact .group hu ih

/-- A mark that counts stands in the balanced word and in no pair of brackets of it. -/
def Direct (w : List Symbol) : Prop := ∃ u v, w = u ++ .mark true :: v ∧ Balanced u ∧ Balanced v

variable {v : List Symbol}

theorem Direct.append (h : Direct w) (hv : Balanced v) : Direct (w ++ v) := by
  obtain ⟨u, rest, rfl, hu, hrest⟩ := h
  exact ⟨u, rest ++ v, by rw [append_assoc, cons_append], hu, hrest.append hv⟩

/-- A pair of brackets has a mark that counts directly inside and a mark behind. -/
def Caught (w : List Symbol) : Prop :=
  ∃ pre body counts post, w = pre ++ .opening :: (body ++ .closing :: .mark counts :: post) ∧ Direct body

def startsWithMark : List Symbol → Bool
  | .mark _ :: _ => true
  | _ => false

/-- The innermost open bracket gets its mark. -/
def markTop : List Bool → List Bool
  | [] => []
  | _ :: stack => true :: stack

/-- The pass over the word; it is false where the pass stops. -/
def run (stack : List Bool) : List Symbol → Bool
  | [] => true
  | .opening :: w => run (false :: stack) w
  | .closing :: w => if stack.headD false && startsWithMark w then false else run stack.tail w
  | .mark counts :: w => run (if counts then markTop stack else stack) w
  | .plain :: w => run stack w

/-! ### What is caught is stopped at -/

/-- The pass stops in a word, or it goes on behind it with another stack. -/
def Passes (stack stack' : List Bool) (u : List Symbol) : Prop :=
  ∀ w, run stack (u ++ w) = false ∨ run stack (u ++ w) = run stack' w

theorem Passes.trans {stack₁ stack₂ stack₃ : List Bool} (hu : Passes stack₁ stack₂ u)
    (hv : Passes stack₂ stack₃ v) : Passes stack₁ stack₃ (u ++ v) := by
  intro w
  rw [append_assoc]
  rcases hu (v ++ w) with h | h
  · exact .inl h
  · rw [h]
    exact hv w

theorem passes_closing (stack : List Bool) : Passes stack stack.tail [.closing] := by
  intro w
  rw [singleton_append, run]
  split
  · exact .inl rfl
  · exact .inr rfl

theorem passes_any (stack : List Bool) (u : List Symbol) : ∃ stack', Passes stack stack' u := by
  induction u generalizing stack with
  | nil => exact ⟨stack, fun w => .inr rfl⟩
  | cons s u ih =>
    cases s with
    | opening =>
      obtain ⟨stack', h⟩ := ih (false :: stack)
      exact ⟨stack', h⟩
    | closing =>
      obtain ⟨stack', h⟩ := ih stack.tail
      exact ⟨stack', (passes_closing stack).trans h⟩
    | mark counts =>
      obtain ⟨stack', h⟩ := ih (if counts then markTop stack else stack)
      exact ⟨stack', h⟩
    | plain =>
      obtain ⟨stack', h⟩ := ih stack
      exact ⟨stack', h⟩

/-- A balanced word leaves the stack as it is below its top, and the mark of the top where it is. -/
theorem passes_balanced (hu : Balanced u) (b : Bool) (stack : List Bool) :
    ∃ b', Passes (b :: stack) (b' :: stack) u ∧ (b = true → b' = true) := by
  induction hu generalizing b stack with
  | nil => exact ⟨b, fun w => .inr rfl, id⟩
  | @mark counts w _ ih =>
    cases counts with
    | false => exact ih b stack
    | true =>
      obtain ⟨b', h, hb⟩ := ih true stack
      exact ⟨b', h, fun _ => hb rfl⟩
  | plain _ ih => exact ih b stack
  | group _ _ ihu ihw =>
    obtain ⟨c, hu, -⟩ := ihu false (b :: stack)
    obtain ⟨b', hw, hb⟩ := ihw b stack
    have hclosing : Passes (c :: b :: stack) (b :: stack) [.closing] := passes_closing _
    exact ⟨b', (hu.trans (hclosing.trans hw) : _), hb⟩

theorem run_of_caught (h : Caught w) (stack : List Bool) : run stack w = false := by
  obtain ⟨pre, _, counts, post, rfl, u, v, rfl, hu, hv⟩ := h
  obtain ⟨stack', hpre⟩ := passes_any stack pre
  obtain ⟨c, hpassu, -⟩ := passes_balanced hu false stack'
  obtain ⟨b, hpassv, hb⟩ := passes_balanced hv true stack'
  obtain rfl : b = true := hb rfl
  have hbody : Passes (false :: stack') (true :: stack') (u ++ (.mark true :: v)) := hpassu.trans hpassv
  rcases hpre (.opening :: (u ++ .mark true :: v ++ .closing :: .mark counts :: post)) with h | h
  · exact h
  · rw [h, run]
    rcases hbody (.closing :: .mark counts :: post) with h | h
    · exact h
    · rw [h]
      rfl

/-! ### What is stopped at is caught -/

/-- What the stack says of the word that has been read: each entry is of an open bracket, with a balanced word behind
it. Below the last entry brackets may have been closed that were not open. -/
inductive History : List Symbol → List Bool → Prop
  | bottom (pre) : History pre []
  | entry {pre stack u b} (h : History pre stack) (hu : Balanced u) (hb : b = true → Direct u) :
      History (pre ++ .opening :: u) (b :: stack)

variable {pre : List Symbol} {stack : List Bool}

theorem History.append (h : History pre stack) (hv : Balanced v) : History (pre ++ v) stack := by
  cases h with
  | bottom => exact .bottom _
  | entry h hu hb =>
    rw [append_assoc, cons_append]
    exact .entry h (hu.append hv) fun htrue => (hb htrue).append hv

theorem History.markTop (h : History pre stack) : History (pre ++ [.mark true]) (markTop stack) := by
  cases h with
  | bottom => exact .bottom _
  | entry h hu _ =>
    rw [append_assoc, cons_append]
    exact .entry h (hu.append (.mark .nil)) fun _ => ⟨_, [], rfl, hu, .nil⟩

theorem History.closing (h : History pre stack) : History (pre ++ [.closing]) stack.tail := by
  cases h with
  | bottom => exact .bottom _
  | entry h hu _ =>
    rw [append_assoc, cons_append]
    exact h.append (.group hu .nil)

theorem caught_of_run (hhistory : History pre stack) (w : List Symbol)
    (h : run stack w = false) : Caught (pre ++ w) := by
  induction w generalizing pre stack with
  | nil => cases h
  | cons s w ih =>
    have hcons : pre ++ s :: w = pre ++ [s] ++ w := by rw [append_assoc, singleton_append]
    cases s with
    | opening =>
      rw [hcons]
      exact ih (.entry hhistory .nil fun hfalse => by cases hfalse) h
    | closing =>
      rw [run] at h
      split at h
      · rename_i hstop
        obtain ⟨htop, hmark⟩ := Bool.and_eq_true_iff.mp hstop
        cases hhistory with
        | bottom => cases htop
        | @entry pre stack u b _ _ hb =>
          cases w with
          | nil => cases hmark
          | cons s post =>
            cases s with
            | mark counts =>
              refine ⟨pre, u, counts, post, ?_, hb htop⟩
              rw [append_assoc, cons_append]
            | opening | closing | plain => cases hmark
      · rw [hcons]
        exact ih hhistory.closing h
    | mark counts =>
      rw [hcons]
      cases counts with
      | true => exact ih hhistory.markTop h
      | false => exact ih (hhistory.append (.mark .nil)) h
    | plain =>
      rw [hcons]
      exact ih (hhistory.append (.plain .nil)) h

/-- The pass stops in exactly the words that have a caught pair. -/
theorem run_eq_false_iff : run [] w = false ↔ Caught w :=
  ⟨caught_of_run (.bottom []) w, fun h => run_of_caught h []⟩

end FraiseQL.Brackets
