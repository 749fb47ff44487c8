import Mathlib.Data.List.Nodup

/-! Encodings that can be read back from the front of a longer text: what follows an encoded value does not
change which value it is. Sequences of known length, sequences closed by a symbol that starts no item, and a
run of symbols closed by one outside it keep the property, and so do string literals with escapes. -/

namespace FraiseQL.PrefixCode

open List Prod

variable {α τ : Type}

/-- The values with the property are determined by the front of a text, and so is the rest of it. -/
def Decodes (P : α → Prop) (enc : α → List τ) : Prop :=
  ∀ a b, P a → P b → ∀ x y, enc a ++ x = enc b ++ y → a = b ∧ x = y

variable {P : α → Prop} {enc : α → List τ}

theorem Decodes.injective (h : Decodes P enc) {a b : α} (ha : P a) (hb : P b) (heq : enc a = enc b) :
    a = b := by
  refine (h a b ha hb [] [] ?_).1
  rw [heq]

/-- Two sequences of the same length. -/
theorem Decodes.sequence (h : Decodes P enc) (as bs : List α) (hlength : as.length = bs.length)
    (ha : ∀ a ∈ as, P a) (hb : ∀ b ∈ bs, P b) (x y : List τ)
    (heq : as.flatMap enc ++ x = bs.flatMap enc ++ y) : as = bs ∧ x = y := by
  induction as generalizing bs with
  | nil =>
    obtain rfl := length_eq_zero_iff.mp hlength.symm
    exact ⟨rfl, heq⟩
  | cons a as ih =>
    cases bs with
    | nil => cases hlength
    | cons b bs =>
      rw [flatMap_cons, flatMap_cons, append_assoc, append_assoc] at heq
      obtain ⟨rfl, hrest⟩ := h a b (ha a mem_cons_self) (hb b mem_cons_self) _ _ heq
      obtain ⟨rfl, hxy⟩ := ih bs (Nat.succ.inj hlength)
        (fun a hmem => ha a (mem_cons_of_mem _ hmem))
        (fun b hmem => hb b (mem_cons_of_mem _ hmem)) hrest
      exact ⟨rfl, hxy⟩

/-- Two sequences closed by a symbol that starts no item. -/
theorem Decodes.closed (h : Decodes P enc) {stop : τ} (hstart : ∀ a, P a → ∃ c cs, enc a = c :: cs ∧ c ≠ stop)
    (as bs : List α) (ha : ∀ a ∈ as, P a) (hb : ∀ b ∈ bs, P b) (x y : List τ)
    (heq : as.flatMap enc ++ stop :: x = bs.flatMap enc ++ stop :: y) : as = bs ∧ x = y := by
  induction as generalizing bs with
  | nil =>
    cases bs with
    | nil => exact ⟨rfl, (cons.inj heq).2⟩
    | cons b bs =>
      obtain ⟨c, cs, hc, hne⟩ := hstart b (hb b mem_cons_self)
      rw [flatMap_cons, hc] at heq
      exact absurd (cons.inj heq).1.symm hne
  | cons a as ih =>
    cases bs with
    | nil =>
      obtain ⟨c, cs, hc, hne⟩ := hstart a (ha a mem_cons_self)
      rw [flatMap_cons, hc] at heq
      exact absurd (cons.inj heq).1 hne
    | cons b bs =>
      rw [flatMap_cons, flatMap_cons, append_assoc, append_assoc] at heq
      obtain ⟨rfl, hrest⟩ := h a b (ha a mem_cons_self) (hb b mem_cons_self) _ _ heq
      obtain ⟨rfl, hxy⟩ := ih bs (fun a hmem => ha a (mem_cons_of_mem _ hmem))
        (fun b hmem => hb b (mem_cons_of_mem _ hmem)) hrest
      exact ⟨rfl, hxy⟩

/-- Two runs of symbols of a kind, each followed by a symbol of another kind. -/
theorem run_until (p : τ → Prop) (as bs x y : List τ) {c d : τ} (ha : ∀ a ∈ as, p a) (hb : ∀ b ∈ bs, p b)
    (hc : ¬p c) (hd : ¬p d) (heq : as ++ c :: x = bs ++ d :: y) : as = bs ∧ c = d ∧ x = y := by
  induction as generalizing bs with
  | nil =>
    cases bs with
    | nil =>
      obtain ⟨rfl, rfl⟩ := cons.inj heq
      exact ⟨rfl, rfl, rfl⟩
    | cons b bs => exact absurd ((cons.inj heq).1 ▸ hb b mem_cons_self) hc
  | cons a as ih =>
    cases bs with
    | nil => exact absurd ((cons.inj heq).1 ▸ ha a mem_cons_self) hd
    | cons b bs =>
      obtain ⟨rfl, hrest⟩ := cons.inj heq
      obtain ⟨rfl, hcd, hxy⟩ := ih bs (fun a h => ha a (mem_cons_of_mem _ h))
        (fun b h => hb b (mem_cons_of_mem _ h)) hrest
      exact ⟨rfl, hcd, hxy⟩

/-- Two runs of symbols of a kind, each followed by nothing or by a symbol of another kind. -/
theorem run_of_stops (p : τ → Prop) (as bs x y : List τ) (ha : ∀ a ∈ as, p a) (hb : ∀ b ∈ bs, p b)
    (hx : ∀ c ∈ x.head?, ¬p c) (hy : ∀ c ∈ y.head?, ¬p c) (heq : as ++ x = bs ++ y) : as = bs ∧ x = y := by
  induction as generalizing bs with
  | nil =>
    cases bs with
    | nil => exact ⟨rfl, heq⟩
    | cons b bs =>
      rw [nil_append] at heq
      exact absurd (hb b mem_cons_self) (hx b (by rw [heq]; rfl))
  | cons a as ih =>
    cases bs with
    | nil =>
      rw [nil_append] at heq
      exact absurd (ha a mem_cons_self) (hy a (by rw [← heq]; rfl))
    | cons b bs =>
      obtain ⟨rfl, hrest⟩ := cons.inj heq
      obtain ⟨rfl, hxy⟩ := ih bs (fun a h => ha a (mem_cons_of_mem _ h))
        (fun b h => hb b (mem_cons_of_mem _ h)) hrest
      exact ⟨rfl, hxy⟩

/-! ### String literals -/

/-- What a character of a string literal is written as: a backslash with its letter, a backslash with a `u`
and a code, or itself. -/
inductive Escaped (letters : List (Char × Char)) (Coded : Char → Prop) (code : Char → List Char) (c : Char) :
    List Char → Prop
  | letter (t : Char) (hletter : (c, t) ∈ letters) : Escaped letters Coded code c ['\\', t]
  | code (hcoded : Coded c) : Escaped letters Coded code c ('\\' :: 'u' :: code c)
  | plain (hquote : c ≠ '"') (hslash : c ≠ '\\') : Escaped letters Coded code c [c]

variable {letters : List (Char × Char)} {Coded : Char → Prop} {code : Char → List Char}

theorem Escaped.decodes (hplain : 'u' ∉ letters.map snd) (hunique : (letters.map snd).Nodup)
    (hcode : Decodes Coded code) {c d : Char} {ec ed : List Char} (hc : Escaped letters Coded code c ec)
    (hd : Escaped letters Coded code d ed) (x y : List Char) (heq : ec ++ x = ed ++ y) : c = d ∧ x = y := by
  have hnot : ∀ {c t : Char}, (c, t) ∈ letters → t ≠ 'u' := by
    rintro c t hmem rfl
    exact hplain (mem_map_of_mem (f := snd) hmem)
  cases hc with
  | letter t hletter =>
    cases hd with
    | letter t' hletter' =>
      obtain ⟨rfl, hxy⟩ : t = t' ∧ x = y := by simpa using heq
      have hpair := inj_on_of_nodup_map hunique hletter hletter' rfl
      exact ⟨congrArg fst hpair, hxy⟩
    | code _ => exact absurd (cons.inj (cons.inj heq).2).1 (hnot hletter)
    | plain _ hslash => exact absurd (cons.inj heq).1.symm hslash
  | code hcoded =>
    cases hd with
    | letter t' hletter' => exact absurd (cons.inj (cons.inj heq).2).1.symm (hnot hletter')
    | code hcoded' => exact hcode c d hcoded hcoded' x y (cons.inj (cons.inj heq).2).2
    | plain _ hslash => exact absurd (cons.inj heq).1.symm hslash
  | plain hquote hslash =>
    cases hd with
    | letter t' _ => exact absurd (cons.inj heq).1 hslash
    | code _ => exact absurd (cons.inj heq).1 hslash
    | plain _ _ => exact cons.inj heq

theorem Escaped.start {c : Char} {ec : List Char} (h : Escaped letters Coded code c ec) :
    ∃ a as, ec = a :: as ∧ a ≠ '"' := by
  cases h with
  | letter t _ => exact ⟨_, _, rfl, by decide⟩
  | code _ => exact ⟨_, _, rfl, by decide⟩
  | plain hquote _ => exact ⟨_, _, rfl, hquote⟩

/-- A literal is read back up to its closing quote. -/
theorem literal_decodes (hplain : 'u' ∉ letters.map snd) (hunique : (letters.map snd).Nodup)
    (hcode : Decodes Coded code) {escape : Char → List Char}
    (hescape : ∀ c, Escaped letters Coded code c (escape c)) :
    Decodes (fun _ => True) fun s : String => '"' :: s.toList.flatMap escape ++ ['"'] := by
  intro s t _ _ x y heq
  have hchars : Decodes (fun _ => True) escape :=
    fun c d _ _ x y h => Escaped.decodes hplain hunique hcode (hescape c) (hescape d) x y h
  have hrest : s.toList.flatMap escape ++ '"' :: x = t.toList.flatMap escape ++ '"' :: y := by
    simpa using heq
  obtain ⟨hst, hxy⟩ := hchars.closed (fun c _ => (hescape c).start) _ _ (fun _ _ => trivial)
    (fun _ _ => trivial) x y hrest
  exact ⟨String.toList_inj.mp hst, hxy⟩

end FraiseQL.PrefixCode
