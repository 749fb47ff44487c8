import Mathlib.Data.List.AList

/-! Finite maps from keys to finite sets, as a hash map of hash sets is used: an insertion creates the
set of its key when there is none, a removal looks the set up and leaves a missing one alone. A set is a
list; only membership is ever observed. A `SetMap₂` is such a map one level deeper. -/

variable {α β : Type} [DecidableEq α]

/-- A map from keys to sets of values. -/
abbrev SetMap (α β : Type) := AList (fun _ : α => List β)

namespace SetMap

/-- The set stored under a key, empty when the key is absent. -/
def members (m : SetMap α β) (a : α) : List β := (m.lookup a).getD []

@[simp] theorem members_empty (a : α) : (∅ : SetMap α β).members a = [] := by
  simp [members]

variable {m : SetMap α β} {a : α}

theorem members_eq_nil_of_notMem_keys (h : a ∉ m.keys) : m.members a = [] := by
  rw [members, AList.lookup_eq_none.mpr (by rwa [AList.mem_keys])]
  rfl

variable [DecidableEq β]

/-- `entry(a).or_default().insert(b)`. -/
def add (m : SetMap α β) (a : α) (b : β) : SetMap α β := m.insert a ((m.members a).insert b)

/-- `if let Some(s) = get(a) then s.remove(b)`. -/
def remove (m : SetMap α β) (a : α) (b : β) : SetMap α β :=
  match m.lookup a with
  | some s => m.insert a (s.filter fun x => decide (x ≠ b))
  | none => m

/-- The insertion of one value under each key of a list. -/
def addAll (m : SetMap α β) (as : List α) (b : β) : SetMap α β := as.foldl (fun m a => m.add a b) m

/-- The removal of one value under each key of a list. -/
def removeAll (m : SetMap α β) (as : List α) (b : β) : SetMap α β := as.foldl (fun m a => m.remove a b) m

variable {c : α} {b x : β}

@[simp] theorem mem_members_add : x ∈ (m.add a b).members c ↔ (c = a ∧ x = b) ∨ x ∈ m.members c := by
  by_cases hc : c = a
  · subst hc
    simp [add, members, List.mem_insert_iff]
  · simp [add, members, AList.lookup_insert_ne hc, hc]

@[simp] theorem mem_members_remove : x ∈ (m.remove a b).members c ↔ x ∈ m.members c ∧ ¬(c = a ∧ x = b) := by
  unfold remove
  cases hs : m.lookup a with
  | none =>
    by_cases hc : c = a
    · subst hc
      simp [members, hs]
    · simp [hc]
  | some s =>
    by_cases hc : c = a
    · subst hc
      simp [members, hs]
    · simp [members, AList.lookup_insert_ne hc, hc]

@[simp] theorem mem_members_addAll {as : List α} :
    x ∈ (m.addAll as b).members c ↔ (c ∈ as ∧ x = b) ∨ x ∈ m.members c := by
  induction as generalizing m with
  | nil => simp [addAll]
  | cons a as ih =>
    have hstep : m.addAll (a :: as) b = (m.add a b).addAll as b := rfl
    rw [hstep, ih, mem_members_add, List.mem_cons]
    tauto

@[simp] theorem mem_members_removeAll {as : List α} :
    x ∈ (m.removeAll as b).members c ↔ x ∈ m.members c ∧ ¬(c ∈ as ∧ x = b) := by
  induction as generalizing m with
  | nil => simp [removeAll]
  | cons a as ih =>
    have hstep : m.removeAll (a :: as) b = (m.remove a b).removeAll as b := rfl
    rw [hstep, ih, mem_members_remove, List.mem_cons]
    tauto

/-! ### Sets that go with their last value -/

/-- `remove`, and a set that is left empty is removed under its key. -/
def discard (m : SetMap α β) (a : α) (b : β) : SetMap α β :=
  match m.lookup a with
  | some s =>
    let left := s.filter fun x => decide (x ≠ b)
    if left = [] then m.erase a else m.insert a left
  | none => m

def discardAll (m : SetMap α β) (as : List α) (b : β) : SetMap α β := as.foldl (fun m a => m.discard a b) m

theorem members_discard : (m.discard a b).members c = (m.remove a b).members c := by
  unfold discard remove
  cases hs : m.lookup a with
  | none => rfl
  | some s =>
    dsimp only
    split_ifs with hleft
    · by_cases hc : c = a
      · rw [hc, hleft, members, members, AList.lookup_erase, AList.lookup_insert]
        rfl
      · rw [members, members, AList.lookup_erase_ne hc, AList.lookup_insert_ne hc]
    · rfl

@[simp] theorem mem_members_discardAll {as : List α} :
    x ∈ (m.discardAll as b).members c ↔ x ∈ m.members c ∧ ¬(c ∈ as ∧ x = b) := by
  induction as generalizing m with
  | nil => simp [discardAll]
  | cons a as ih =>
    have hstep : m.discardAll (a :: as) b = (m.discard a b).discardAll as b := rfl
    rw [hstep, ih, members_discard, mem_members_remove, List.mem_cons]
    tauto

/-- No set is empty. -/
def Occupied (m : SetMap α β) : Prop := ∀ a, m.lookup a ≠ some []

omit [DecidableEq β] in
theorem Occupied.set (h : m.Occupied) {s : List β} (hs : s ≠ []) : Occupied (m.insert a s) := by
  intro c hc
  by_cases hca : c = a
  · rw [hca, AList.lookup_insert] at hc
    exact hs (Option.some.inj hc)
  · rw [AList.lookup_insert_ne hca] at hc
    exact h c hc

theorem Occupied.discard (h : m.Occupied) : Occupied (m.discard a b) := by
  unfold SetMap.discard
  split
  · dsimp only
    split_ifs with hleft
    · intro c hc
      by_cases hca : c = a
      · rw [hca, AList.lookup_erase] at hc
        cases hc
      · rw [AList.lookup_erase_ne hca] at hc
        exact h c hc
    · exact h.set hleft
  · exact h

theorem Occupied.discardAll (h : m.Occupied) (as : List α) : Occupied (m.discardAll as b) := by
  induction as generalizing m with
  | nil => exact h
  | cons a as ih => exact ih h.discard

theorem Occupied.addAll (h : m.Occupied) (as : List α) : Occupied (m.addAll as b) := by
  induction as generalizing m with
  | nil => exact h
  | cons a as ih => exact ih (h.set (List.ne_nil_of_mem (List.mem_insert_self)))

end SetMap

/-- A map from keys to maps from keys to sets of values. -/
abbrev SetMap₂ (α β γ : Type) := AList (fun _ : α => SetMap β γ)

namespace SetMap₂

variable {γ : Type} [DecidableEq β] [DecidableEq γ]

/-- The set stored under a pair of keys, empty when one of them is absent. -/
def members (m : SetMap₂ α β γ) (p : α × β) : List γ := ((m.lookup p.1).getD ∅).members p.2

omit [DecidableEq γ] in
@[simp] theorem members_empty (p : α × β) : (∅ : SetMap₂ α β γ).members p = [] := by
  simp [members]

/-- `entry(a).or_default().entry(b).or_default().insert(c)`. -/
def add (m : SetMap₂ α β γ) (p : α × β) (c : γ) : SetMap₂ α β γ :=
  m.insert p.1 (((m.lookup p.1).getD ∅).add p.2 c)

/-- `if let Some(n) = get(a) then if let Some(s) = n.get(b) then s.remove(c)`. -/
def remove (m : SetMap₂ α β γ) (p : α × β) (c : γ) : SetMap₂ α β γ :=
  match m.lookup p.1 with
  | some n => m.insert p.1 (n.remove p.2 c)
  | none => m

/-- The insertion of one value under each pair of a list. -/
def addAll (m : SetMap₂ α β γ) (ps : List (α × β)) (c : γ) : SetMap₂ α β γ :=
  ps.foldl (fun m p => m.add p c) m

/-- The removal of one value under each pair of a list. -/
def removeAll (m : SetMap₂ α β γ) (ps : List (α × β)) (c : γ) : SetMap₂ α β γ :=
  ps.foldl (fun m p => m.remove p c) m

variable {m : SetMap₂ α β γ} {q : α × β} {c x : γ}

@[simp] theorem mem_members_add {p : α × β} : x ∈ (m.add p c).members q ↔ (q = p ∧ x = c) ∨ x ∈ m.members q := by
  obtain ⟨a, b⟩ := p
  obtain ⟨a', b'⟩ := q
  by_cases ha : a' = a
  · subst ha
    simp [add, members]
  · simp [add, members, AList.lookup_insert_ne ha, ha]

@[simp] theorem mem_members_remove {p : α × β} : x ∈ (m.remove p c).members q ↔ x ∈ m.members q ∧ ¬(q = p ∧ x = c) := by
  obtain ⟨a, b⟩ := p
  obtain ⟨a', b'⟩ := q
  unfold remove
  cases hn : m.lookup a with
  | none =>
    by_cases ha : a' = a
    · subst ha
      simp [members, hn]
    · simp [ha]
  | some n =>
    by_cases ha : a' = a
    · subst ha
      simp [members, hn]
    · simp [members, AList.lookup_insert_ne ha, ha]

@[simp] theorem mem_members_addAll {ps : List (α × β)} :
    x ∈ (m.addAll ps c).members q ↔ (q ∈ ps ∧ x = c) ∨ x ∈ m.members q := by
  induction ps generalizing m with
  | nil => simp [addAll]
  | cons p ps ih =>
    have hstep : m.addAll (p :: ps) c = (m.add p c).addAll ps c := rfl
    rw [hstep, ih, mem_members_add, List.mem_cons]
    tauto

@[simp] theorem mem_members_removeAll {ps : List (α × β)} :
    x ∈ (m.removeAll ps c).members q ↔ x ∈ m.members q ∧ ¬(q ∈ ps ∧ x = c) := by
  induction ps generalizing m with
  | nil => simp [removeAll]
  | cons p ps ih =>
    have hstep : m.removeAll (p :: ps) c = (m.remove p c).removeAll ps c := rfl
    rw [hstep, ih, mem_members_remove, List.mem_cons]
    tauto

omit [DecidableEq γ] in
theorem members_eq_nil_of_lookup_none {a : α} (h : m.lookup a = none) (b : β) : m.members (a, b) = [] := by
  simp [members, h]

end SetMap₂
