import Mathlib.Order.Lattice

/-! Stores whose keys are held until a deadline, and promises to hold a key until one. A promise is kept when the key
is held at least as long as promised; a promise that is over asks for nothing. -/

namespace DeadlinePromise

variable {κ T : Type} [LinearOrder T]

/-- At this moment every promise is kept. -/
def Kept (now : T) (held : κ → Option T) (promised : List (κ × T)) : Prop :=
  ∀ p ∈ promised, now < p.2 → ∃ deadline, held p.1 = some deadline ∧ p.2 ≤ deadline

variable {now moment : T} {held held' : κ → Option T} {promised : List (κ × T)} {key : κ} {deadline : T}

theorem kept_nil (now : T) (held : κ → Option T) : Kept now held [] := fun _ hp => nomatch hp

theorem Kept.later (h : Kept now held promised) (hlater : now ≤ moment) : Kept moment held promised :=
  fun p hp hopen => h p hp (hlater.trans_lt hopen)

/-- A promise about a key that is held. -/
theorem Kept.promise (h : Kept now held promised) (hheld : ∃ old, held key = some old ∧ deadline ≤ old) :
    Kept now held ((key, deadline) :: promised) := by
  intro p hp hopen
  rcases List.mem_cons.mp hp with rfl | hold
  · exact hheld
  · exact h p hold hopen

/-- A key is held anew, and no shorter than it was. -/
theorem Kept.put (h : Kept now held promised) (hlonger : ∀ old, held key = some old → now < old → old ≤ deadline)
    (hkey : held' key = some deadline) (hother : ∀ other, other ≠ key → held' other = held other) :
    Kept now held' promised := by
  intro p hp hopen
  obtain ⟨old, hold, hlong⟩ := h p hp hopen
  by_cases hsame : p.1 = key
  · rw [hsame] at hold ⊢
    exact ⟨deadline, hkey, hlong.trans (hlonger old hold (hopen.trans_le hlong))⟩
  · exact ⟨old, (hother p.1 hsame).trans hold, hlong⟩

/-- Keys are given up that are over. -/
theorem Kept.drop (h : Kept now held promised)
    (hover : ∀ key old, held key = some old → held' key = some old ∨ old ≤ now) : Kept now held' promised := by
  intro p hp hopen
  obtain ⟨old, hold, hlong⟩ := h p hp hopen
  rcases hover p.1 old hold with hstill | hpast
  · exact ⟨old, hstill, hlong⟩
  · exact absurd (hopen.trans_le hlong) (not_lt.mpr hpast)

end DeadlinePromise
