import Mathlib
import FraiseQL.NestedProjection

/-! The two conversions of field names. `to_snake_case` finds the stored key of a filter, an order or a projection;
`to_camel_case` leads back from it on names of letters and digits. A second conversion changes nothing as long as no
upper-case character stays upper-case in its lower-case form. -/

namespace FraiseQL.WhereFilter

open List

open ProjectionMapper (toCamelCase camelChars)

/-- The tables agree with the ASCII ones on ASCII. -/
structure CharCase.OnAscii (cc : CharCase) : Prop where
  isUppercase : ∀ c : Char, c.toNat < 128 → cc.isUppercase c = c.isUpper
  toLowercase : ∀ c : Char, c.toNat < 128 → cc.toLowercase c = c.toLower

/-- A `camelCase` name: letters and digits, the first a lower-case letter. -/
def CamelName : List Char → Prop
  | [] => False
  | c :: cs => c.isLower = true ∧ ∀ d ∈ cs, d.isAlphanum = true

variable {cc : CharCase}

/-- What a character after the first is converted to. -/
def snakeChar (cc : CharCase) (c : Char) : List Char :=
  if cc.isUppercase c then ['_', cc.toLowercase c] else [c]

theorem zipIdx_snakeChars (cs : List Char) {n : Nat} (hn : 0 < n) :
    ((cs.zipIdx n).flatMap fun (c, i) =>
      if cc.isUppercase c && decide (0 < i) then ['_', cc.toLowercase c] else [c]) = cs.flatMap (snakeChar cc) := by
  induction cs generalizing n with
  | nil => rfl
  | cons c cs ih =>
    rw [zipIdx_cons, flatMap_cons, flatMap_cons, ih n.succ_pos, snakeChar]
    simp only [hn, decide_true, Bool.and_true]

theorem toSnakeCase_cons (c : Char) (cs : List Char) :
    toSnakeCase cc (String.ofList (c :: cs)) = String.ofList (c :: cs.flatMap (snakeChar cc)) := by
  rw [toSnakeCase, String.toList_ofList, zipIdx_cons, flatMap_cons, zipIdx_snakeChars cs Nat.one_pos]
  simp

theorem length_snakeChars (cs : List Char) :
    (cs.flatMap (snakeChar cc)).length = cs.length + cs.countP cc.isUppercase := by
  induction cs with
  | nil => rfl
  | cons c cs ih =>
    rw [flatMap_cons, length_append, ih, length_cons, countP_cons, snakeChar]
    split <;> simp <;> omega

/-- What the conversion does not change has no upper-case character behind the first. -/
theorem snakeChars_eq_self_iff {cs : List Char} :
    cs.flatMap (snakeChar cc) = cs ↔ ∀ c ∈ cs, cc.isUppercase c ≠ true := by
  constructor
  · intro h
    have hlength : (cs.flatMap (snakeChar cc)).length = _ := length_snakeChars cs
    rw [h] at hlength
    exact countP_eq_zero.mp (by omega)
  · intro h
    have hself : ∀ c ∈ cs, snakeChar cc c = [c] := fun c hc => if_neg (h c hc)
    rw [flatMap_congr hself, flatMap_singleton']

theorem notUpper_snakeChars (hcc : cc.OnAscii) {cs : List Char} :
    (∀ d ∈ cs.flatMap (snakeChar cc), cc.isUppercase d ≠ true) ↔
      ∀ c ∈ cs, cc.isUppercase c = true → cc.isUppercase (cc.toLowercase c) ≠ true := by
  constructor
  · intro h c hc hupper
    apply h
    refine mem_flatMap.mpr ⟨c, hc, ?_⟩
    rw [snakeChar, if_pos hupper]
    exact mem_cons_of_mem _ mem_cons_self
  · intro h d hd
    obtain ⟨c, hc, hd⟩ := mem_flatMap.mp hd
    rw [snakeChar] at hd
    split_ifs at hd with hupper
    · rcases mem_cons.mp hd with rfl | hd
      · rw [hcc.isUppercase '_' (by decide)]
        decide
      · rw [mem_singleton.mp hd]
        exact h c hc hupper
    · rwa [mem_singleton.mp hd]

theorem toNat_lt_of_isAlphanum {c : Char} (h : c.isAlphanum = true) : c.toNat < 128 ∧ c ≠ '_' := by
  refine ⟨?_, ?_⟩
  · simp only [Char.isAlphanum, Char.isAlpha, Char.isUpper, Char.isLower, Char.isDigit, Bool.or_eq_true,
      Bool.and_eq_true, decide_eq_true_eq, UInt32.le_iff_toNat_le] at h
    have : c.toNat = c.val.toNat := rfl
    simp at h
    omega
  · rintro rfl
    revert h
    decide

theorem toUpper_toLower_of_isUpper {c : Char} (hascii : c.toNat < 128) (h : c.isUpper = true) :
    c.toLower ≠ '_' ∧ c.toLower.toUpper = c := by
  have hall : ∀ n < 128, (Char.ofNat n).isUpper = true →
      (Char.ofNat n).toLower ≠ '_' ∧ (Char.ofNat n).toLower.toUpper = Char.ofNat n := by decide +kernel
  have hc := hall c.toNat hascii
  rw [Char.ofNat_toNat] at hc
  exact hc h

theorem camelChars_snakeChars (hcc : cc.OnAscii) {cs : List Char} (h : ∀ c ∈ cs, c.isAlphanum = true) :
    camelChars false (cs.flatMap (snakeChar cc)) = cs := by
  induction cs with
  | nil => rfl
  | cons c cs ih =>
    have ih := ih fun d hd => h d (mem_cons_of_mem _ hd)
    obtain ⟨hascii, hne⟩ := toNat_lt_of_isAlphanum (h c mem_cons_self)
    rw [flatMap_cons, snakeChar, hcc.isUppercase c hascii, hcc.toLowercase c hascii]
    by_cases hupper : c.isUpper = true
    · obtain ⟨hlower, hback⟩ := toUpper_toLower_of_isUpper hascii hupper
      rw [if_pos hupper]
      simp only [cons_append, nil_append, camelChars, if_true, if_neg hlower, hback, ih]
    · rw [if_neg hupper]
      simp only [cons_append, nil_append, camelChars, if_neg hne, Bool.false_eq_true, if_false, ih]

/-- A name is left alone by a second conversion to `snake_case` exactly when no upper-case character behind the first
is upper-case in its lower-case form as well; and `camelCase` leads back to a name of letters and digits. -/
theorem snakeCase_stable_iff (hcc : cc.OnAscii) (name : String) :
    (toSnakeCase cc (toSnakeCase cc name) = toSnakeCase cc name ∧
        (CamelName name.toList → toCamelCase (toSnakeCase cc name) = name)) ↔
      ∀ c ∈ name.toList.tail, cc.isUppercase c = true → cc.isUppercase (cc.toLowercase c) ≠ true := by
  obtain ⟨cs, rfl⟩ : ∃ cs, name = String.ofList cs := ⟨name.toList, (String.ofList_toList).symm⟩
  rw [String.toList_ofList]
  cases cs with
  | nil => simp [toSnakeCase, CamelName]
  | cons c cs =>
    rw [toSnakeCase_cons, toSnakeCase_cons, tail_cons, ← notUpper_snakeChars hcc, ← snakeChars_eq_self_iff,
      String.ofList_inj, cons_inj_right]
    refine and_iff_left fun hname => ?_
    obtain ⟨hlower, hrest⟩ := hname
    have hne : c ≠ '_' := by
      rintro rfl
      revert hlower
      decide
    rw [toCamelCase, String.toList_ofList, camelChars, if_neg hne]
    simp only [Bool.false_eq_true, if_false, camelChars_snakeChars hcc hrest]

theorem ascii_onAscii : CharCase.ascii.OnAscii := ⟨fun _ _ => rfl, fun _ _ => rfl⟩

/-- The two names of one field have one key. -/
theorem snakeCase_stable_userId :
    toSnakeCase .ascii (toSnakeCase .ascii "userId1D") = toSnakeCase .ascii "userId1D" ∧
      (CamelName "userId1D".toList → toCamelCase (toSnakeCase .ascii "userId1D") = "userId1D") :=
  (snakeCase_stable_iff ascii_onAscii "userId1D").mpr (@of_decide_eq_true _ (decidableBAll _ _) rfl)

/-- The tables on ASCII and a letter that is upper-case and has no lower-case form. -/
def CharCase.withLetterlike : CharCase := ⟨fun c => c.isUpper || c == 'ℂ', Char.toLower⟩

/-- Every further conversion adds an underscore. -/
theorem snakeCase_letterlike : ¬∀ name, toSnakeCase .withLetterlike (toSnakeCase .withLetterlike name) =
    toSnakeCase .withLetterlike name := by
  intro h
  exact absurd (h "aℂ") (by decide)

end FraiseQL.WhereFilter
