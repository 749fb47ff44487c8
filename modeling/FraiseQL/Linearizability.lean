import Mathlib.Data.List.Basic
import Mathlib.Data.List.Sublists

/-! Linearizability of calls that take their effect when they respond. A history lists invocations and responses
in the order of time, each with the number of its call. It is linearizable when the calls can be put in one order
that explains every response on the sequential object and keeps the order of calls that do not overlap. A
sequential object also reads the environment, such as a clock, in every turn. -/

namespace Linearizability

open List

variable {σ θ κ ρ : Type}

inductive Action (κ ρ : Type) where
  | invoke (number : Nat) (call : κ)
  | respond (number : Nat) (reply : ρ)

/-- A call's turn in a sequential order. -/
structure Turn (θ κ ρ : Type) where
  number : Nat
  call : κ
  reading : θ
  reply : ρ

/-- The object after the turns. -/
def after (apply : θ → κ → σ → ρ × σ) (s : σ) (turns : List (Turn θ κ ρ)) : σ :=
  turns.foldl (fun s turn => (apply turn.reading turn.call s).2) s

/-- One after another, the turns get their replies from the object. -/
def Explains (apply : θ → κ → σ → ρ × σ) : σ → List (Turn θ κ ρ) → Prop
  | _, [] => True
  | s, turn :: rest =>
    (apply turn.reading turn.call s).1 = turn.reply ∧ Explains apply (apply turn.reading turn.call s).2 rest

/-- The first call responds before the second is invoked. -/
def Precedes (history : List (Action κ ρ)) (first second : Nat) : Prop :=
  ∃ reply call, List.Sublist [.respond first reply, .invoke second call] history

/-- Every response is explained by a turn of an invoked call, and turns keep the order of calls that do not
overlap. -/
structure Linearization (history : List (Action κ ρ)) (turns : List (Turn θ κ ρ)) : Prop where
  distinct : (turns.map (·.number)).Nodup
  responded : ∀ number reply, .respond number reply ∈ history →
    ∃ turn ∈ turns, turn.number = number ∧ turn.reply = reply
  invoked : ∀ turn ∈ turns, .invoke turn.number turn.call ∈ history
  ordered : ∀ first ∈ turns, ∀ second ∈ turns, Precedes history first.number second.number →
    List.Sublist [first.number, second.number] (turns.map (·.number))

/-- Some order of the calls explains the history from the given state of the object. -/
def Linearizable (apply : θ → κ → σ → ρ × σ) (s : σ) (history : List (Action κ ρ)) : Prop :=
  ∃ turns, Linearization history turns ∧ Explains apply s turns

theorem after_append (apply : θ → κ → σ → ρ × σ) (s : σ) (turns : List (Turn θ κ ρ)) (turn : Turn θ κ ρ) :
    after apply s (turns ++ [turn]) = (apply turn.reading turn.call (after apply s turns)).2 :=
  foldl_append

theorem explains_append {apply : θ → κ → σ → ρ × σ} {s : σ} {turns : List (Turn θ κ ρ)} {turn : Turn θ κ ρ}
    (hexplains : Explains apply s turns)
    (hreply : (apply turn.reading turn.call (after apply s turns)).1 = turn.reply) :
    Explains apply s (turns ++ [turn]) := by
  induction turns generalizing s with
  | nil => exact ⟨hreply, trivial⟩
  | cons first rest ih =>
    obtain ⟨hfirst, hrest⟩ := hexplains
    exact ⟨hfirst, ih hrest hreply⟩

theorem linearization_nil : Linearization ([] : List (Action κ ρ)) ([] : List (Turn θ κ ρ)) where
  distinct := nodup_nil
  responded := nofun
  invoked := nofun
  ordered := nofun

/-- Whether a sublist of two ends in the new last element. -/
theorem sublist_pair_append {α : Type} {a b c : α} {l : List α} (hsub : List.Sublist [a, b] (l ++ [c])) :
    List.Sublist [a, b] l ∨ (b = c ∧ a ∈ l) := by
  obtain ⟨l₁, l₂, heq, h₁, h₂⟩ := sublist_append_iff.mp hsub
  match l₁, heq with
  | [], heq =>
    have hlength := h₂.length_le
    rw [← nil_append l₂, ← heq] at hlength
    simp at hlength
  | [x], heq =>
    simp only [cons_append, nil_append, List.cons.injEq] at heq
    obtain ⟨rfl, rfl⟩ := heq
    refine .inr ⟨?_, h₁.subset mem_cons_self⟩
    exact mem_singleton.mp (h₂.subset mem_cons_self)
  | x :: y :: rest, heq =>
    simp only [cons_append, List.cons.injEq] at heq
    obtain ⟨rfl, rfl, hrest⟩ := heq
    have hnil := (append_eq_nil_iff.mp hrest.symm).1
    rw [hnil] at h₁
    exact .inl h₁

theorem Precedes.mem {history : List (Action κ ρ)} {first second : Nat} (h : Precedes history first second) :
    ∃ reply, .respond first reply ∈ history := by
  obtain ⟨reply, _, hsub⟩ := h
  exact ⟨reply, hsub.subset mem_cons_self⟩

namespace Linearization

variable {history : List (Action κ ρ)} {turns : List (Turn θ κ ρ)}

/-- A new call changes no turn. -/
theorem invoke (h : Linearization history turns) {number : Nat} (call : κ)
    (hfresh : ∀ turn ∈ turns, turn.number ≠ number) : Linearization (history ++ [.invoke number call]) turns where
  distinct := h.distinct
  responded := by
    intro n reply hmem
    rcases mem_append.mp hmem with hmem | hmem
    · exact h.responded n reply hmem
    · cases mem_singleton.mp hmem
  invoked := fun turn hturn => mem_append_left _ (h.invoked turn hturn)
  ordered := by
    rintro first hfirst second hsecond ⟨reply, call', hsub⟩
    rcases sublist_pair_append hsub with hold | ⟨heq, -⟩
    · exact h.ordered first hfirst second hsecond ⟨reply, call', hold⟩
    · cases heq
      exact absurd rfl (hfresh second hsecond)

/-- A call that takes its turn as it responds comes after all that have responded. -/
theorem respond (h : Linearization history turns) (turn : Turn θ κ ρ)
    (hinvoked : .invoke turn.number turn.call ∈ history) (hfresh : ∀ t ∈ turns, t.number ≠ turn.number) :
    Linearization (history ++ [.respond turn.number turn.reply]) (turns ++ [turn]) where
  distinct := by
    rw [map_append]
    apply nodup_append'.mpr
    refine ⟨h.distinct, nodup_singleton _, ?_⟩
    intro number hnumber hsingle
    obtain ⟨t, ht, rfl⟩ := mem_map.mp hnumber
    exact hfresh t ht (mem_singleton.mp hsingle)
  responded := by
    intro number reply hmem
    rcases mem_append.mp hmem with hmem | hmem
    · obtain ⟨t, ht, heq⟩ := h.responded number reply hmem
      exact ⟨t, mem_append_left _ ht, heq⟩
    · cases mem_singleton.mp hmem
      exact ⟨turn, mem_append_right _ mem_cons_self, rfl, rfl⟩
  invoked := by
    intro t ht
    apply mem_append_left
    rcases mem_append.mp ht with ht | ht
    · exact h.invoked t ht
    · rw [mem_singleton.mp ht]
      exact hinvoked
  ordered := by
    rintro first hfirst second hsecond ⟨reply, call, hsub⟩
    have hprecedes : Precedes history first.number second.number := by
      rcases sublist_pair_append hsub with hold | ⟨heq, -⟩
      · exact ⟨reply, call, hold⟩
      · cases heq
    obtain ⟨reply', hresponded⟩ := hprecedes.mem
    obtain ⟨earlier, hearlier, hnumber, -⟩ := h.responded _ _ hresponded
    rw [map_append]
    rcases mem_append.mp hsecond with hold | hnew
    · rw [← hnumber] at hprecedes ⊢
      exact (h.ordered earlier hearlier second hold hprecedes).trans (sublist_append_left _ _)
    · rw [mem_singleton.mp hnew, ← hnumber]
      have hleft : List.Sublist [earlier.number] (turns.map (·.number)) :=
        singleton_sublist.mpr (mem_map.mpr ⟨earlier, hearlier, rfl⟩)
      exact hleft.append (List.Sublist.refl [turn.number])

end Linearization

end Linearizability
