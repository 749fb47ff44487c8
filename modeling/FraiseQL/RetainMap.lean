import Mathlib.Data.List.AList

/-! Hash maps with one value under each key: what is found after `retain`. -/

namespace AList

variable {α : Type} [DecidableEq α] {β : α → Type}

omit [DecidableEq α] in
def retain (p : (a : α) → β a → Bool) (m : AList β) : AList β :=
  ⟨m.entries.filter fun e => p e.1 e.2, m.nodupKeys.sublist List.filter_sublist⟩

theorem lookup_retain (p : (a : α) → β a → Bool) (m : AList β) (a : α) :
    (m.retain p).lookup a = (m.lookup a).filter (p a) := by
  ext b
  rw [Option.mem_def.symm, mem_lookup_iff, Option.mem_def.symm, Option.mem_filter_iff, mem_lookup_iff]
  exact List.mem_filter

/-- A value that is still found was found before. -/
theorem lookup_of_retain {p : (a : α) → β a → Bool} {m : AList β} {a : α} {b : β a}
    (h : (m.retain p).lookup a = some b) : m.lookup a = some b ∧ p a b = true := by
  rw [lookup_retain] at h
  exact Option.mem_filter_iff.mp h

theorem lookup_of_erase {m : AList β} {a k : α} {b : β a} (h : (m.erase k).lookup a = some b) :
    m.lookup a = some b := by
  by_cases hk : a = k
  · subst hk
    rw [lookup_erase] at h
    cases h
  · rwa [lookup_erase_ne hk] at h

end AList
