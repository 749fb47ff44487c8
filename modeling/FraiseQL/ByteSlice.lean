import Mathlib.Algebra.GroupWithZero.Nat
import Mathlib.Data.List.Basic

/-! Slices of Rust's `str`, whose bounds count bytes. A bound that does not fall between two characters panics, which
is `none` here. -/

namespace RustText

open List Option

/-- How many bytes a text takes. -/
def byteLength (cs : List Char) : Nat := (cs.map Char.utf8Size).sum

/-- The text before a byte and the text from it on. -/
def splitAtByte : List Char → Nat → Option (List Char × List Char)
  | cs, 0 => some ([], cs)
  | [], _ + 1 => none
  | c :: cs, n + 1 =>
    if c.utf8Size ≤ n + 1 then
      (splitAtByte cs (n + 1 - c.utf8Size)).map fun parts => (c :: parts.1, parts.2)
    else none

/-- `&s[start..stop]`. -/
def sliceBytes (cs : List Char) (start stop : Nat) : Option (List Char) :=
  if start ≤ stop then
    (splitAtByte cs start).bind fun parts => (splitAtByte parts.2 (stop - start)).map Prod.fst
  else none

@[simp] theorem byteLength_nil : byteLength [] = 0 := rfl

@[simp] theorem byteLength_cons (c : Char) (cs : List Char) : byteLength (c :: cs) = c.utf8Size + byteLength cs :=
  sum_cons

@[simp] theorem byteLength_append (as bs : List Char) : byteLength (as ++ bs) = byteLength as + byteLength bs := by
  simp [byteLength]

@[simp] theorem splitAtByte_zero (cs : List Char) : splitAtByte cs 0 = some ([], cs) := by
  cases cs <;> rfl

/-- A text is cut where its first part ends. -/
theorem splitAtByte_append (as bs : List Char) : splitAtByte (as ++ bs) (byteLength as) = some (as, bs) := by
  induction as with
  | nil => exact splitAtByte_zero bs
  | cons a as ih =>
    obtain ⟨n, hn⟩ : ∃ n, byteLength (a :: as) = n + 1 :=
      Nat.exists_eq_succ_of_ne_zero (by
        rw [byteLength_cons]
        have hpos := Char.utf8Size_pos a
        omega)
    have hrest : n + 1 - a.utf8Size = byteLength as := by
      rw [byteLength_cons] at hn
      omega
    have hfits : a.utf8Size ≤ n + 1 := by
      rw [byteLength_cons] at hn
      omega
    rw [hn, cons_append, splitAtByte, if_pos hfits, hrest, ih]
    rfl

/-- A slice between two parts of a text is what stands between them. -/
theorem sliceBytes_append (as bs cs : List Char) :
    sliceBytes (as ++ bs ++ cs) (byteLength as) (byteLength as + byteLength bs) = some bs := by
  rw [sliceBytes, if_pos (Nat.le_add_right _ _), append_assoc, splitAtByte_append, bind_some,
    Nat.add_sub_cancel_left, splitAtByte_append]
  rfl

variable {cs : List Char}

/-- What is cut off at a byte takes that many bytes, and the two parts make up the text. -/
theorem splitAtByte_spec {n : Nat} {parts : List Char × List Char}
    (h : splitAtByte cs n = some parts) : parts.1 ++ parts.2 = cs ∧ byteLength parts.1 = n := by
  induction cs generalizing n parts with
  | nil =>
    cases n with
    | zero =>
      cases h
      exact ⟨rfl, rfl⟩
    | succ n => cases h
  | cons c cs ih =>
    cases n with
    | zero =>
      cases h
      exact ⟨rfl, rfl⟩
    | succ n =>
      rw [splitAtByte] at h
      split at h
      · rename_i hfits
        obtain ⟨rest, hrest, rfl⟩ := map_eq_some_iff.mp h
        obtain ⟨happend, hbytes⟩ := ih hrest
        refine ⟨congrArg (c :: ·) happend, ?_⟩
        rw [byteLength_cons, hbytes]
        omega
      · cases h

/-- A slice takes as many bytes as its bounds say. -/
theorem byteLength_sliceBytes {cs part : List Char} {start stop : Nat} (h : sliceBytes cs start stop = some part) :
    byteLength part = stop - start := by
  rw [sliceBytes] at h
  split at h
  · obtain ⟨parts, -, hparts⟩ := bind_eq_some_iff.mp h
    obtain ⟨cut, hcut, rfl⟩ := map_eq_some_iff.mp hparts
    exact (splitAtByte_spec hcut).2
  · cases h

theorem length_le_byteLength (cs : List Char) : cs.length ≤ byteLength cs := by
  induction cs with
  | nil => exact Nat.le_refl 0
  | cons c cs ih =>
    have hpos := Char.utf8Size_pos c
    rw [byteLength_cons, length_cons]
    omega

theorem byteLength_le_of_sublist {as bs : List Char} (h : as.Sublist bs) : byteLength as ≤ byteLength bs := by
  induction h with
  | slnil => exact Nat.le_refl 0
  | cons b _ ih =>
    rw [byteLength_cons]
    omega
  | cons_cons b _ ih =>
    rw [byteLength_cons, byteLength_cons]
    omega

/-- Every character takes one byte. -/
def Ascii (cs : List Char) : Prop := ∀ c ∈ cs, c.val ≤ 127

instance (cs : List Char) : Decidable (Ascii cs) := List.decidableBAll (fun c : Char => c.val ≤ 127) cs

@[simp] theorem ascii_nil : Ascii [] := nofun

@[simp] theorem ascii_cons {c : Char} : Ascii (c :: cs) ↔ c.val ≤ 127 ∧ Ascii cs :=
  forall_mem_cons

@[simp] theorem ascii_append {as bs : List Char} : Ascii (as ++ bs) ↔ Ascii as ∧ Ascii bs := forall_mem_append

/-- Bytes and characters are counted alike in exactly the texts of one-byte characters. -/
theorem byteLength_eq_length_iff : byteLength cs = cs.length ↔ Ascii cs := by
  induction cs with
  | nil => simp
  | cons c cs ih =>
    have hpos := Char.utf8Size_pos c
    have hle := length_le_byteLength cs
    rw [ascii_cons, ← ih, ← Char.utf8Size_eq_one_iff, byteLength_cons, length_cons]
    omega

theorem length_lt_byteLength (h : ¬ Ascii cs) : cs.length < byteLength cs :=
  Nat.lt_of_le_of_ne (length_le_byteLength cs) fun heq => h (byteLength_eq_length_iff.mp heq.symm)

/-- Behind one-byte characters a slice by counts of characters begins where it should. -/
theorem sliceBytes_of_ascii {before cs part : List Char} {n : Nat} (hbefore : Ascii before)
    (h : sliceBytes (before ++ cs) before.length (before.length + n) = some part) :
    part <+: cs ∧ byteLength part = n := by
  rw [sliceBytes, if_pos (Nat.le_add_right _ _), ← byteLength_eq_length_iff.mpr hbefore, splitAtByte_append,
    bind_some, Nat.add_sub_cancel_left] at h
  obtain ⟨parts, hparts, rfl⟩ := map_eq_some_iff.mp h
  obtain ⟨happend, hbytes⟩ := splitAtByte_spec hparts
  exact ⟨⟨parts.2, happend⟩, hbytes⟩

/-- Within one-byte characters it ends where it should as well. -/
theorem sliceBytes_ascii {before part : List Char} (hbefore : Ascii before) (hpart : Ascii part) (rest : List Char) :
    sliceBytes (before ++ (part ++ rest)) before.length (before.length + part.length) = some part := by
  rw [← byteLength_eq_length_iff.mpr hbefore, ← byteLength_eq_length_iff.mpr hpart, ← append_assoc]
  exact sliceBytes_append before part rest

end RustText
