import Mathlib.Data.Set.BooleanAlgebra
import Mathlib.Data.Set.Disjoint
import Mathlib.Order.CompletePartialOrder

/-! A store whose entries carry tags, and an index from tags to keys. A key is registered under the tags of its entry
when the entry is stored. An entry that is removed or replaced waits for a call that unregisters the key under the
tags of that entry, whatever the key holds by then. The index covers the store as long as an entry is only stored
over entries of its key it shares no tag with. -/

/-- What is live, what waits for its call, and what is registered. -/
structure TaggedStore (κ ε τ : Type) where
  live : κ → Option ε
  waits : κ → ε → Prop
  index : τ → κ → Prop

namespace TaggedStore

variable {κ ε τ : Type} (tags : ε → Set τ)

/-- Every live key is registered under the tags of its entry. -/
def Covers (s : TaggedStore κ ε τ) : Prop := ∀ key e, s.live key = some e → ∀ t ∈ tags e, s.index t key

/-- The entries of a key that a call is still to come for once the key is written again. -/
def Outgoing (s : TaggedStore κ ε τ) (key : κ) (e : ε) : Prop := s.live key = some e ∨ s.waits key e

/-- The index covers the store, and a waiting entry shares no tag with the live entry of its key. -/
structure Inv (s : TaggedStore κ ε τ) : Prop where
  covers : s.Covers tags
  apart : ∀ key e old, s.live key = some e → s.waits key old → Disjoint (tags e) (tags old)

/-- Some entries were removed, which wait now. -/
structure Shrinks (s s' : TaggedStore κ ε τ) : Prop where
  live : ∀ key e, s'.live key = some e → s.live key = some e
  waits : ∀ key old, s'.waits key old → s.waits key old ∨ s'.live key = none
  index : ∀ t key, s.index t key → s'.index t key

/-- An entry was stored and registered, the one it replaces waits. -/
structure Stores (key : κ) (e : ε) (s s' : TaggedStore κ ε τ) : Prop where
  same : s'.live key = some e
  other : ∀ k, k ≠ key → s'.live k = s.live k
  waits : ∀ k old, s'.waits k old ↔ s.waits k old ∨ k = key ∧ s.live key = some old
  index : ∀ t k, s'.index t k ↔ t ∈ tags e ∧ k = key ∨ s.index t k

/-- The call for a waiting entry. -/
structure Calls (key : κ) (old : ε) (s s' : TaggedStore κ ε τ) : Prop where
  waiting : s.waits key old
  live : ∀ k, s'.live k = s.live k
  waits : ∀ k e, s'.waits k e → s.waits k e
  index : ∀ t k, s'.index t k ↔ s.index t k ∧ ¬(t ∈ tags old ∧ k = key)

variable {tags} {s s' : TaggedStore κ ε τ} {key : κ} {e old : ε}

theorem Shrinks.refl (s : TaggedStore κ ε τ) : Shrinks s s := ⟨fun _ _ h => h, fun _ _ h => .inl h, fun _ _ h => h⟩

theorem Shrinks.trans {s'' : TaggedStore κ ε τ} (h : Shrinks s s') (h' : Shrinks s' s'') : Shrinks s s'' where
  live := fun key e hlive => h.live key e (h'.live key e hlive)
  waits := by
    intro key old hwait
    rcases h'.waits key old hwait with hwait | hnone
    · rcases h.waits key old hwait with hwait | hnone
      · exact .inl hwait
      · right
        cases hlive : s''.live key with
        | none => rfl
        | some e => exact absurd (h'.live key e hlive) (by simp [hnone])
    · exact .inr hnone
  index := fun t key hmem => h'.index t key (h.index t key hmem)

theorem Inv.shrinks (hinv : Inv tags s) (h : Shrinks s s') : Inv tags s' where
  covers := fun key e hlive t ht => h.index t key (hinv.covers key e (h.live key e hlive) t ht)
  apart := by
    intro key e old hlive hwait
    rcases h.waits key old hwait with hwait | hnone
    · exact hinv.apart key e old (h.live key e hlive) hwait
    · rw [hlive] at hnone
      cases hnone

/-- An entry is stored over entries it shares no tag with. -/
theorem Inv.stores (hinv : Inv tags s) (h : Stores tags key e s s')
    (hfresh : ∀ old, s.Outgoing key old → Disjoint (tags e) (tags old)) : Inv tags s' where
  covers := by
    intro k e' hlive t ht
    by_cases hk : k = key
    · subst hk
      obtain rfl := Option.some.inj (h.same.symm.trans hlive)
      exact (h.index t k).mpr (.inl ⟨ht, rfl⟩)
    · rw [h.other k hk] at hlive
      exact (h.index t k).mpr (.inr (hinv.covers k e' hlive t ht))
  apart := by
    intro k e' old hlive hwait
    by_cases hk : k = key
    · subst hk
      obtain rfl := Option.some.inj (h.same.symm.trans hlive)
      rcases (h.waits k old).mp hwait with hwait | ⟨-, hold⟩
      · exact hfresh old (.inr hwait)
      · exact hfresh old (.inl hold)
    · rw [h.other k hk] at hlive
      rcases (h.waits k old).mp hwait with hwait | ⟨hkey, -⟩
      · exact hinv.apart k e' old hlive hwait
      · exact absurd hkey hk

/-- A call leaves the registrations of the live entry, which shares no tag with the one it is for. -/
theorem Inv.calls (hinv : Inv tags s) (h : Calls tags key old s s') : Inv tags s' where
  covers := by
    intro k e hlive t ht
    rw [h.live] at hlive
    refine (h.index t k).mpr ⟨hinv.covers k e hlive t ht, ?_⟩
    rintro ⟨hold, rfl⟩
    exact Set.disjoint_left.mp (hinv.apart k e old hlive h.waiting) ht hold
  apart := by
    intro k e old' hlive hwait
    rw [h.live] at hlive
    exact hinv.apart k e old' hlive (h.waits k old' hwait)

/-- The entry that was stored is no longer covered after a call for one it shares a tag with. -/
theorem Stores.not_covers {s'' : TaggedStore κ ε τ} (h : Stores tags key e s s') (hshare : ¬Disjoint (tags e) (tags old))
    (hcall : Calls tags key old s' s'') : ¬s''.Covers tags := by
  intro hcovers
  obtain ⟨t, ht, hold⟩ := Set.not_disjoint_iff.mp hshare
  have hlive : s''.live key = some e := by rw [hcall.live, h.same]
  exact ((hcall.index t key).mp (hcovers key e hlive t ht)).2 ⟨hold, rfl⟩

theorem Stores.waits_of_outgoing (h : Stores tags key e s s') (hout : s.Outgoing key old) : s'.waits key old := by
  refine (h.waits key old).mpr ?_
  rcases hout with hlive | hwait
  · exact .inr ⟨rfl, hlive⟩
  · exact .inl hwait

end TaggedStore
