import FraiseQL.RetainMap

/-! Things that are put in a store once and taken out of it once. A desk numbers what it puts in the store; a call that
takes something has it in hand from then on. A call that only copied it shares it with the store, until it removes it
there: as long as no other call copies it meanwhile, nothing is in two hands. -/

/-- What was put in the store, what is there with its number, and the calls. -/
structure Desk (κ R P : Type) where
  issues : List R
  store : AList fun _ : κ => Nat × R
  calls : List P

namespace Desk

variable {κ R P : Type}

def empty : Desk κ R P := ⟨[], ∅, []⟩

/-- A call begins. -/
def call (d : Desk κ R P) (c : P) : Desk κ R P := { d with calls := d.calls ++ [c] }

/-- A call goes on. -/
def setCall (d : Desk κ R P) (i : Nat) (c : P) : Desk κ R P := { d with calls := d.calls.set i c }

/-- What does not meet the condition leaves the store. -/
def retain (d : Desk κ R P) (p : κ → R → Bool) : Desk κ R P := { d with store := d.store.retain fun k e => p k e.2 }

/-- What holds of the calls and of the new one holds of all. -/
theorem forall_call {d : Desk κ R P} {p : P → Prop} (h : ∀ c ∈ d.calls, p c) {c : P} (hc : p c) :
    ∀ c' ∈ (d.call c).calls, p c' := by
  intro c' hc'
  rcases List.mem_append.mp hc' with hold | hnew
  · exact h c' hold
  · rw [List.mem_singleton.mp hnew]
    exact hc

theorem forall_setCall {d : Desk κ R P} {p : P → Prop} (h : ∀ c ∈ d.calls, p c) {i : Nat} {c : P} (hc : p c) :
    ∀ c' ∈ (d.setCall i c).calls, p c' := by
  intro c' hc'
  rcases List.mem_or_eq_of_mem_set hc' with hold | rfl
  · exact h c' hold
  · exact hc

variable [DecidableEq κ]

def get (d : Desk κ R P) (k : κ) : Option (Nat × R) := d.store.lookup k

/-- Something new is put in the store. -/
def issue (d : Desk κ R P) (k : κ) (r : R) : Desk κ R P :=
  { d with issues := d.issues ++ [r], store := d.store.insert k (d.issues.length, r) }

def erase (d : Desk κ R P) (k : κ) : Desk κ R P := { d with store := d.store.erase k }

/-- What is in the store was issued under its key, what a call has in hand was issued, and nothing is in two hands; in
the store and in a hand is only what the call shares. -/
structure Sound (keyOf : R → κ) (hand : P → Option (Nat × R)) (shares : P → Prop) (d : Desk κ R P) : Prop where
  stored : ∀ k id r, d.get k = some (id, r) → d.issues[id]? = some r ∧ keyOf r = k
  owned : ∀ c ∈ d.calls, ∀ id r, hand c = some (id, r) → d.issues[id]? = some r
  shared : ∀ k id r, d.get k = some (id, r) → ∀ c ∈ d.calls, ∀ r', hand c = some (id, r') → shares c
  single : ∀ (i j : Nat) (c c' : P) (id : Nat) (r r' : R), d.calls[i]? = some c → d.calls[j]? = some c' → hand c = some (id, r) →
    hand c' = some (id, r') → i = j

variable {keyOf : R → κ} {hand : P → Option (Nat × R)} {shares : P → Prop} {d : Desk κ R P}

theorem sound_empty : Sound keyOf hand shares (empty : Desk κ R P) := by
  refine ⟨?_, nofun, ?_, ?_⟩
  · intro k id r h
    cases h
  · intro k id r h
    cases h
  · intro i j c c' id r r' hi
    cases hi

omit [DecidableEq κ] in
/-- A call is one of the old ones or the new one. -/
theorem call_cases {c c' : P} {i : Nat} (h : (d.calls ++ [c])[i]? = some c') :
    d.calls[i]? = some c' ∨ i = d.calls.length ∧ c' = c := by
  rw [List.getElem?_append] at h
  split_ifs at h with hlt
  · exact .inl h
  · obtain ⟨hone, heq⟩ := List.getElem?_eq_some_iff.mp h
    rw [List.length_singleton] at hone
    rw [List.getElem_singleton] at heq
    exact .inr ⟨by omega, heq.symm⟩

omit [DecidableEq κ] in
theorem getElem?_issue {d : Desk κ R P} {r r' : R} {id : Nat} (h : d.issues[id]? = some r) :
    (d.issues ++ [r'])[id]? = some r := by
  rw [List.getElem?_append_left (List.getElem?_eq_some_iff.mp h).1]
  exact h

section

variable (h : Sound keyOf hand shares d)
include h

theorem Sound.issue (r : R) : Sound keyOf hand shares (d.issue (keyOf r) r) := by
  obtain ⟨hstored, howned, hshared, hsingle⟩ := h
  have hget : ∀ k id r', (d.issue (keyOf r) r).get k = some (id, r') →
      k = keyOf r ∧ id = d.issues.length ∧ r' = r ∨ d.get k = some (id, r') := by
    intro k id r' hk
    by_cases hkey : k = keyOf r
    · subst hkey
      left
      rw [get, Desk.issue, AList.lookup_insert] at hk
      cases hk
      exact ⟨rfl, rfl, rfl⟩
    · right
      rw [get, Desk.issue, AList.lookup_insert_ne hkey] at hk
      exact hk
  refine ⟨?_, ?_, ?_, hsingle⟩
  · intro k id r' hk
    rcases hget k id r' hk with ⟨rfl, rfl, rfl⟩ | hold
    · exact ⟨List.getElem?_concat_length, rfl⟩
    · obtain ⟨hissued, hkey⟩ := hstored k id r' hold
      exact ⟨getElem?_issue hissued, hkey⟩
  · intro c hc id r' hhand
    exact getElem?_issue (howned c hc id r' hhand)
  · intro k id r' hk c hc r'' hhand
    rcases hget k id r' hk with ⟨-, rfl, -⟩ | hold
    · have hissued := howned c hc _ r'' hhand
      rw [List.getElem?_eq_none le_rfl] at hissued
      cases hissued
    · exact hshared k id r' hold c hc r'' hhand

/-- The store loses something. -/
theorem Sound.drop {d' : Desk κ R P} (hissues : d'.issues = d.issues)
    (hcalls : d'.calls = d.calls) (hget : ∀ k e, d'.get k = some e → d.get k = some e) :
    Sound keyOf hand shares d' := by
  obtain ⟨hstored, howned, hshared, hsingle⟩ := h
  refine ⟨?_, ?_, ?_, ?_⟩
  · intro k id r hk
    rw [hissues]
    exact hstored k id r (hget k _ hk)
  · rw [hissues, hcalls]
    exact howned
  · rw [hcalls]
    intro k id r hk
    exact hshared k id r (hget k _ hk)
  · rw [hcalls]
    exact hsingle

theorem Sound.retain (p : κ → R → Bool) : Sound keyOf hand shares (d.retain p) :=
  h.drop rfl rfl fun _ _ hk => (AList.lookup_of_retain hk).1

/-- A call begins with nothing in hand. -/
theorem Sound.call {c : P} (hc : hand c = none) : Sound keyOf hand shares (d.call c) := by
  obtain ⟨hstored, howned, hshared, hsingle⟩ := h
  have hold : ∀ c' ∈ (d.call c).calls, ∀ e, hand c' = some e → c' ∈ d.calls := by
    intro c' hc' e he
    rcases List.mem_append.mp hc' with hmem | hnew
    · exact hmem
    · rw [List.mem_singleton.mp hnew, hc] at he
      cases he
  have hindex : ∀ (i : Nat) c' e, (d.call c).calls[i]? = some c' → hand c' = some e → d.calls[i]? = some c' := by
    intro i c' e hi he
    rcases call_cases hi with hold | ⟨-, rfl⟩
    · exact hold
    · rw [hc] at he
      cases he
  refine ⟨hstored, ?_, ?_, ?_⟩
  · intro c' hc' id r hhand
    exact howned c' (hold c' hc' _ hhand) id r hhand
  · intro k id r hk c' hc' r' hhand
    exact hshared k id r hk c' (hold c' hc' _ hhand) r' hhand
  · intro i j c₁ c₂ id r r' hi hj h₁ h₂
    exact hsingle i j c₁ c₂ id r r' (hindex i c₁ _ hi h₁) (hindex j c₂ _ hj h₂) h₁ h₂

/-- A call begins with what it found in the store, which no call has in hand: it is gone from there, or shared. -/
theorem Sound.take {d' : Desk κ R P} {k : κ} {id : Nat} {r : R}
    (hk : d.get k = some (id, r)) (hfree : ∀ c ∈ d.calls, ∀ r', hand c ≠ some (id, r')) {c : P}
    (hc : hand c = some (id, r)) (hissues : d'.issues = d.issues) (hcalls : d'.calls = d.calls ++ [c])
    (hget : ∀ k' e, d'.get k' = some e → d.get k' = some e) (hgone : d'.get k = none ∨ shares c) :
    Sound keyOf hand shares d' := by
  obtain ⟨hstored, howned, hshared, hsingle⟩ := h
  have hmem : ∀ c' ∈ d'.calls, c' ∈ d.calls ∨ c' = c := by
    intro c' hc'
    rw [hcalls] at hc'
    rcases List.mem_append.mp hc' with hold | hnew
    · exact .inl hold
    · exact .inr (List.mem_singleton.mp hnew)
  have hindex : ∀ (i : Nat) c', d'.calls[i]? = some c' → d.calls[i]? = some c' ∨ i = d.calls.length ∧ c' = c := by
    intro i c' hi
    rw [hcalls] at hi
    exact call_cases hi
  refine ⟨?_, ?_, ?_, ?_⟩
  · intro k' id' r' hk'
    rw [hissues]
    exact hstored k' id' r' (hget k' _ hk')
  · intro c' hc' id' r' hhand
    rw [hissues]
    rcases hmem c' hc' with hold | rfl
    · exact howned c' hold id' r' hhand
    · cases hc.symm.trans hhand
      exact (hstored k id r hk).1
  · intro k' id' r' hk' c' hc' r'' hhand
    have hbefore := hget k' _ hk'
    rcases hmem c' hc' with hold | rfl
    · exact hshared k' id' r' hbefore c' hold r'' hhand
    · cases hc.symm.trans hhand
      -- the same number is under one key only
      obtain ⟨hissued, hkey⟩ := hstored k id r hk
      obtain ⟨hissued', hkey'⟩ := hstored k' id r' hbefore
      have hsame : k' = k := by
        rw [← hkey, ← hkey', Option.some.inj (hissued.symm.trans hissued')]
      rcases hgone with hnone | hshares
      · rw [hsame, hnone] at hk'
        cases hk'
      · exact hshares
  · intro i j c₁ c₂ id' r₁ r₂ hi hj h₁ h₂
    rcases hindex i c₁ hi with hi | ⟨rfl, rfl⟩
    · rcases hindex j c₂ hj with hj | ⟨rfl, rfl⟩
      · exact hsingle i j c₁ c₂ id' r₁ r₂ hi hj h₁ h₂
      · cases hc.symm.trans h₂
        exact absurd h₁ (hfree c₁ (List.mem_of_getElem? hi) r₁)
    · rcases hindex j c₂ hj with hj | ⟨rfl, rfl⟩
      · cases hc.symm.trans h₁
        exact absurd h₂ (hfree c₂ (List.mem_of_getElem? hj) r₂)
      · rfl

/-- A call goes on with what it has in hand, or without it. What it does not share any more is gone from the store. -/
theorem Sound.go_on {d' : Desk κ R P} {i : Nat} {c c' : P} (hi : d.calls[i]? = some c)
    (hissues : d'.issues = d.issues) (hcalls : d'.calls = d.calls.set i c')
    (hget : ∀ k e, d'.get k = some e → d.get k = some e) (hhand : ∀ e, hand c' = some e → hand c = some e)
    (hshares : ∀ id r, hand c' = some (id, r) → shares c → shares c' ∨ d'.get (keyOf r) = none) :
    Sound keyOf hand shares d' := by
  obtain ⟨hstored, howned, hshared, hsingle⟩ := h
  have hmem : ∀ c₁ ∈ d'.calls, c₁ ∈ d.calls ∨ c₁ = c' := by
    intro c₁ hc₁
    rw [hcalls] at hc₁
    exact List.mem_or_eq_of_mem_set hc₁
  have hindex : ∀ (j : Nat) c₁ e, d'.calls[j]? = some c₁ → hand c₁ = some e → ∃ c₀, d.calls[j]? = some c₀ ∧ hand c₀ = some e := by
    intro j c₁ e hj he
    rw [hcalls, List.getElem?_set] at hj
    split_ifs at hj with hij hlt
    · cases hj
      subst hij
      exact ⟨c, hi, hhand e he⟩
    · exact ⟨c₁, hj, he⟩
  refine ⟨?_, ?_, ?_, ?_⟩
  · intro k id r hk
    rw [hissues]
    exact hstored k id r (hget k _ hk)
  · intro c₁ hc₁ id r he
    rw [hissues]
    rcases hmem c₁ hc₁ with hold | rfl
    · exact howned c₁ hold id r he
    · exact howned c (List.mem_of_getElem? hi) id r (hhand _ he)
  · intro k id r hk c₁ hc₁ r' he
    have hbefore := hget k _ hk
    rcases hmem c₁ hc₁ with hold | rfl
    · exact hshared k id r hbefore c₁ hold r' he
    · have hc := List.mem_of_getElem? hi
      have hbeforeShared := hshared k id r hbefore c hc r' (hhand _ he)
      rcases hshares id r' he hbeforeShared with hstill | hgone
      · exact hstill
      · obtain ⟨hissued, hkey⟩ := hstored k id r hbefore
        have hissued' := howned c hc id r' (hhand _ he)
        have hsame : keyOf r' = k := by rw [← hkey, Option.some.inj (hissued.symm.trans hissued')]
        rw [hsame, hk] at hgone
        cases hgone
  · intro j₁ j₂ c₁ c₂ id r₁ r₂ hj₁ hj₂ h₁ h₂
    obtain ⟨c₁', hj₁', h₁'⟩ := hindex j₁ c₁ _ hj₁ h₁
    obtain ⟨c₂', hj₂', h₂'⟩ := hindex j₂ c₂ _ hj₂ h₂
    exact hsingle j₁ j₂ c₁' c₂' id r₁ r₂ hj₁' hj₂' h₁' h₂'

end

end Desk
