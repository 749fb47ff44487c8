import Mathlib.Data.List.Forall2

/-! Reading a successful computation in `Except` backwards: what a bind, a map or a pure that returned says
of its parts. -/

namespace Outcome

open List

variable {ε α β : Type}

variable {x : Except ε α} {f : α → Except ε β} {b : β}

@[simp] theorem bind_eq_ok : (x >>= f) = .ok b ↔ ∃ a, x = .ok a ∧ f a = .ok b := by
  cases x with
  | error e => exact ⟨fun h => (nomatch h), fun ⟨_, h, _⟩ => (nomatch h)⟩
  | ok a => exact ⟨fun h => ⟨a, rfl, h⟩, fun ⟨_, h, hf⟩ => by cases h; exact hf⟩

theorem ok_bind (a : α) (f : α → Except ε β) : (.ok a >>= f) = f a := rfl

@[simp] theorem map_eq_ok {f : α → β} : x.map f = .ok b ↔ ∃ a, x = .ok a ∧ f a = b := by
  cases x with
  | error e => simp [Except.map]
  | ok a => simp [Except.map]

@[simp] theorem pure_eq_ok {a b : α} : (pure a : Except ε α) = .ok b ↔ a = b := by
  simp [pure, Except.pure]

@[simp] theorem isOk_map {f : α → β} : (x.map f).isOk = x.isOk := by
  cases x <;> rfl

/-- A computation in two parts succeeds when both do. -/
theorem isOk_both {γ : Type} {y : Except ε β} {f : α → β → γ} :
    (x >>= fun a => y >>= fun b => pure (f a b)).isOk = true ↔ x.isOk = true ∧ y.isOk = true := by
  cases x <;> cases y <;> simp [bind, Except.bind, pure, Except.pure, Except.isOk, Except.toBool]

theorem isSome_both {γ : Type} {x : Option α} {y : Option β} {f : α → β → γ} :
    (x >>= fun a => y >>= fun b => pure (f a b)).isSome = true ↔ x.isSome = true ∧ y.isSome = true := by
  cases x <;> cases y <;> simp

theorem isOk_iff : x.isOk = true ↔ ∃ a, x = .ok a := by
  cases x <;> simp [Except.isOk, Except.toBool]

variable {as : List α}

/-- Steps that all succeed give the list of their results. -/
theorem mapM_of_forall {g : α → β} (h : ∀ a ∈ as, f a = .ok (g a)) : as.mapM f = .ok (as.map g) := by
  induction as with
  | nil => rfl
  | cons a as ih =>
    have hrest := ih fun b hb => h b (mem_cons_of_mem _ hb)
    rw [mapM_cons, h a mem_cons_self, ok_bind, hrest, ok_bind]
    rfl

variable {bs : List β}

/-- The results of steps that all succeed, one by one. -/
theorem mapM_forall₂ (h : as.mapM f = .ok bs) : List.Forall₂ (fun a b => f a = .ok b) as bs := by
  induction as generalizing bs with
  | nil =>
    cases h
    exact .nil
  | cons a as ih =>
    simp only [mapM_cons, bind_eq_ok, pure_eq_ok] at h
    obtain ⟨b, hb, bs, hbs, rfl⟩ := h
    exact .cons hb (ih hbs)

theorem mapM_some_forall₂ {f : α → Option β} (h : as.mapM f = some bs) :
    List.Forall₂ (fun a b => f a = some b) as bs := by
  induction as generalizing bs with
  | nil =>
    obtain rfl := Option.some.inj h
    exact .nil
  | cons a as ih =>
    rw [mapM_cons] at h
    obtain ⟨b, hb, h⟩ := Option.bind_eq_some_iff.mp h
    obtain ⟨bs, hbs, h⟩ := Option.bind_eq_some_iff.mp h
    obtain rfl := Option.some.inj h
    exact .cons hb (ih hbs)

/-- Each element of the second list is related to one of the first. -/
theorem forall₂_mem {R : α → β → Prop} (h : List.Forall₂ R as bs) (hb : b ∈ bs) : ∃ a ∈ as, R a b := by
  induction h with
  | nil => cases hb
  | cons hab _ ih =>
    rcases mem_cons.mp hb with rfl | hb
    · exact ⟨_, mem_cons_self, hab⟩
    · obtain ⟨a, ha, hR⟩ := ih hb
      exact ⟨a, mem_cons_of_mem _ ha, hR⟩

theorem mapM_mem (h : as.mapM f = .ok bs) {a : α} (ha : a ∈ as) : ∃ b, f a = .ok b := by
  have hback : List.Forall₂ (fun b a => f a = .ok b) bs as := (mapM_forall₂ h).flip
  obtain ⟨b, -, hb⟩ := forall₂_mem hback ha
  exact ⟨b, hb⟩

end Outcome
