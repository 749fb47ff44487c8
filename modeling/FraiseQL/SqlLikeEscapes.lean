import FraiseQL.SqlLikeSets

/-! LIKE with an escape character, and a text that is put in a pattern as it is. Such a text means itself only when it
has nothing to escape: a shortest match of the pattern has fewer of its special characters. -/

namespace SqlLike

open List

/-! ### Dangling escapes -/

/-- The pattern ends with an escape character that escapes nothing. -/
def dangling (e : Char) : Bool → List Char → Bool
  | b, [] => b
  | true, _ :: p => dangling e false p
  | false, c :: p => dangling e (decide (c = e)) p

variable {e : Char}

theorem dangling_append (b : Bool) (p q : List Char) : dangling e b (p ++ q) = dangling e (dangling e b p) q := by
  induction p generalizing b with
  | nil => cases q <;> cases b <;> rfl
  | cons c p ih => cases b <;> exact ih _

theorem dangling_escaped (v : List Char) : dangling e false (escaped e v) = false := by
  induction v with
  | nil => rfl
  | cons c v ih =>
    have hcons : escaped e (c :: v) = (if c = e ∨ c = '%' ∨ c = '_' then [e, c] else [c]) ++ escaped e v := rfl
    have hfirst : dangling e false (if c = e ∨ c = '%' ∨ c = '_' then [e, c] else [c]) = false := by
      split
      · simp [dangling]
      · next hplain => simp [dangling, show c ≠ e from fun h => hplain (.inl h)]
    rw [hcons, dangling_append, hfirst, ih]

theorem dangling_wildText_escaped (he : e ≠ '%') (before after : Bool) (v : List Char) :
    dangling e false (wildText before after (escaped e v)) = false := by
  have hwild : ∀ b : Bool, dangling e false (if b then ['%'] else []) = false := by
    intro b
    cases b <;> simp [dangling, he.symm]
  rw [wildText, dangling_append, hwild, dangling_append, dangling_escaped, hwild]

/-! ### Shortest matches -/

/-- A shortest text that a pattern matches, with a character for every `_`. -/
def shortest (e filler : Char) : Bool → List Char → List Char
  | _, [] => []
  | true, c :: p => c :: shortest e filler false p
  | false, c :: p =>
    if c = e then shortest e filler true p
    else if c = '%' then shortest e filler false p
    else (if c = '_' then filler else c) :: shortest e filler false p

theorem matchFrom_shortest {same : Char → Char → Bool} (hsame : ∀ c, same c c = true) (filler : Char) {b : Bool}
    {p : List Char} (hp : dangling e b p = false) : matchFrom same (some e) b p (shortest e filler b p) = true := by
  induction p generalizing b with
  | nil =>
    obtain rfl : b = false := by simpa [dangling] using hp
    rfl
  | cons c p ih =>
    cases b with
    | true =>
      rw [matchFrom, shortest, one, hsame, ih hp]
      rfl
    | false =>
      rw [matchFrom, shortest]
      by_cases hescape : c = e
      · rw [dangling, decide_eq_true hescape] at hp
        rw [if_pos (congrArg some hescape.symm), if_pos hescape, ih hp]
      · rw [dangling, decide_eq_false hescape] at hp
        rw [if_neg (fun h => hescape (Option.some.inj h).symm), if_neg hescape]
        by_cases hany : c = '%'
        · rw [if_pos hany, if_pos hany, any_eq_true]
          exact ⟨_, (mem_tails _ _).mpr (suffix_refl _), ih hp⟩
        · rw [if_neg hany, if_neg hany, one, ih hp, Bool.and_true]
          by_cases hone : c = '_'
          · simp [hone]
          · simp [hone, hsame]

theorem count_shortest_le {filler : Char} (hfiller : filler ≠ e) (b : Bool) (p : List Char) :
    (shortest e filler b p).count e ≤ p.count e ∧
      (b = false → e ∈ p → (shortest e filler b p).count e < p.count e) := by
  induction p generalizing b with
  | nil => exact ⟨Nat.le_refl 0, nofun⟩
  | cons c p ih =>
    cases b with
    | true =>
      rw [shortest, count_cons, count_cons]
      exact ⟨Nat.add_le_add_right (ih false).1 _, nofun⟩
    | false =>
      rw [shortest]
      by_cases hescape : c = e
      · rw [if_pos hescape, hescape, count_cons_self]
        have hrest := (ih true).1
        exact ⟨by omega, fun _ _ => by omega⟩
      · have hrest : (if c = '%' then shortest e filler false p
            else (if c = '_' then filler else c) :: shortest e filler false p).count e =
              (shortest e filler false p).count e := by
          split_ifs
          · rfl
          · exact count_cons_of_ne hfiller
          · exact count_cons_of_ne hescape
        rw [if_neg hescape, hrest, count_cons_of_ne hescape]
        refine ⟨(ih false).1, fun _ hmem => (ih false).2 rfl ?_⟩
        exact (mem_cons.mp hmem).resolve_left fun h => hescape h.symm

/-- Without escapes no wildcard is left. -/
theorem wildcard_not_mem_shortest {filler z : Char} (hz : z = '%' ∨ z = '_') (hfiller : filler ≠ z) {p : List Char}
    (hp : e ∉ p) : z ∉ shortest e filler false p := by
  induction p with
  | nil => nofun
  | cons c p ih =>
    obtain ⟨hhead, hrest⟩ := not_or.mp (mem_cons.not.mp hp)
    rw [shortest, if_neg (Ne.symm hhead)]
    by_cases hany : c = '%'
    · rw [if_pos hany]
      exact ih hrest
    · rw [if_neg hany, mem_cons, not_or]
      refine ⟨?_, ih hrest⟩
      by_cases hone : c = '_'
      · rw [if_pos hone]
        exact hfiller.symm
      · rw [if_neg hone]
        rcases hz with rfl | rfl
        · exact Ne.symm hany
        · exact Ne.symm hone

/-! ### Texts that are not escaped -/

/-- A match of a pattern with an escaped text has all its special characters. -/
theorem count_le_of_match {key : Char → Char} {z : Char} (he : e ≠ '%') (hz : ∀ c, key c = key z → c = z)
    {before after : Bool} {v t : List Char}
    (h : likeMatch (sameKey key) (some e) (wildText before after (escaped e v)) t = true) : v.count z ≤ t.count z := by
  rw [likeMatch_wildText key (fun h => he (Option.some.inj h)) (escaped_literal _ e v), standsIn_map_iff] at h
  obtain ⟨pre, mid, post, rfl, hmid, -, -⟩ := h
  rw [← count_eq_of_map hz hmid, count_append, count_append]
  omega

/-- A text with a special character, not escaped, is matched by a text that the escaped one does not match. -/
theorem exists_match_of_special {key : Char → Char} {filler : Char} (he : e ≠ '%')
    (hkey : ∀ z, z = e ∨ z = '%' ∨ z = '_' → filler ≠ z ∧ ∀ c, key c = key z → c = z) {before after : Bool}
    {v : List Char} (hv : ∃ z ∈ v, z = e ∨ z = '%' ∨ z = '_')
    (hdangling : dangling e false (wildText before after v) = false) :
    ∃ t, likeMatch (sameKey key) (some e) (wildText before after v) t = true ∧
      likeMatch (sameKey key) (some e) (wildText before after (escaped e v)) t = false := by
  refine ⟨shortest e filler false (wildText before after v),
    matchFrom_shortest (fun _ => decide_eq_true rfl) filler hdangling, ?_⟩
  obtain ⟨z, hz, hfewer⟩ : ∃ z, (z = e ∨ z = '%' ∨ z = '_') ∧
      (shortest e filler false (wildText before after v)).count z < v.count z := by
    by_cases hescape : e ∈ v
    · have hcount := count_wildText he before after v
      have hmem : e ∈ wildText before after v := count_pos_iff.mp (hcount ▸ count_pos_iff.mpr hescape)
      refine ⟨e, .inl rfl, ?_⟩
      rw [← hcount]
      exact (count_shortest_le (hkey e (.inl rfl)).1 false _).2 rfl hmem
    · obtain ⟨z, hmem, hz⟩ := hv
      have hwild : z = '%' ∨ z = '_' := hz.resolve_left fun h => hescape (h ▸ hmem)
      have hnone : e ∉ wildText before after v := by
        rw [← count_eq_zero, count_wildText he, count_eq_zero]
        exact hescape
      refine ⟨z, hz, ?_⟩
      rw [count_eq_zero.mpr (wildcard_not_mem_shortest hwild (hkey z hz).1 hnone)]
      exact count_pos_iff.mpr hmem
  rw [Bool.eq_false_iff]
  intro hmatch
  exact Nat.not_lt_of_le (count_le_of_match he (hkey z hz).2 hmatch) hfewer

end SqlLike
