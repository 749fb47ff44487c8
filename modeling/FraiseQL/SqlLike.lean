import Mathlib.Data.List.Basic

/-! The patterns of LIKE. `%` stands for any text, `_` for any character, and an escape character, when there is one,
takes the character after it for itself; how two characters are compared is a parameter. A pattern made of wildcards
and escaped texts means the same whichever character escapes it. -/

namespace SqlLike

variable (same : Char → Char → Bool) (escape : Option Char)

def one (test : Char → Bool) (rest : List Char → Bool) : List Char → Bool
  | [] => false
  | x :: t => test x && rest t

/-- Whether a text matches a pattern, before whose first character the escape character may stand. -/
def matchFrom : Bool → List Char → List Char → Bool
  | false, [] => List.isEmpty
  | true, [] => fun _ => false
  | true, c :: p => one (same c) (matchFrom false p)
  | false, c :: p =>
    if escape = some c then matchFrom true p
    else if c = '%' then fun t => t.tails.any (matchFrom false p)
    else one (fun x => c = '_' || same c x) (matchFrom false p)

/-- Whether a text matches a pattern. -/
def likeMatch (p t : List Char) : Bool := matchFrom same escape false p t

/-- A text with its wildcards and the escape character escaped. -/
def escaped (e : Char) (s : List Char) : List Char :=
  s.flatMap fun c => if c = e ∨ c = '%' ∨ c = '_' then [e, c] else [c]

theorem escaped_eq_self {e : Char} {s : List Char} (hs : ∀ c ∈ s, c ≠ e ∧ c ≠ '%' ∧ c ≠ '_') : escaped e s = s := by
  induction s with
  | nil => rfl
  | cons c s ih =>
    obtain ⟨⟨hescape, hany, hone⟩, hrest⟩ := List.forall_mem_cons.mp hs
    have hcons : escaped e (c :: s) = (if c = e ∨ c = '%' ∨ c = '_' then [e, c] else [c]) ++ escaped e s := rfl
    rw [hcons, if_neg (by simp [hescape, hany, hone]), ih hrest]
    rfl

/-- What follows a text that begins with the given one. -/
def afterLiteral : List Char → List Char → Option (List Char)
  | [], t => some t
  | _ :: _, [] => none
  | c :: s, x :: t => if same c x then afterLiteral s t else none

/-! ### One character of the pattern -/

theorem likeMatch_any (hescape : escape ≠ some '%') (p : List Char) :
    likeMatch same escape ('%' :: p) = fun t => t.tails.any (likeMatch same escape p) := by
  funext t
  rw [likeMatch, matchFrom, if_neg hescape, if_pos rfl]
  rfl

/-- A character that is neither the escape character nor a wildcard. -/
theorem likeMatch_plain {c : Char} (hescape : escape ≠ some c) (hany : c ≠ '%') (hone : c ≠ '_') (p : List Char) :
    likeMatch same escape (c :: p) = one (same c) (likeMatch same escape p) := by
  have htest : (fun x => decide (c = '_') || same c x) = same c := by
    funext x
    rw [decide_eq_false hone, Bool.false_or]
  funext t
  rw [likeMatch, matchFrom, if_neg hescape, if_neg hany, htest]
  rfl

theorem likeMatch_escape {e : Char} (c : Char) (p : List Char) :
    likeMatch same (some e) (e :: c :: p) = one (same c) (likeMatch same (some e) p) := by
  funext t
  rw [likeMatch, matchFrom, if_pos rfl, matchFrom]
  rfl

/-! ### Texts in a pattern -/

/-- The pattern stands for the text itself, whatever follows. -/
def Literal (pattern s : List Char) : Prop :=
  ∀ p t, likeMatch same escape (pattern ++ p) t = (afterLiteral same s t).any (likeMatch same escape p)

theorem literal_nil : Literal same escape [] [] := by
  intro p t
  rfl

theorem Literal.cons {pattern s first : List Char} {c : Char} (h : Literal same escape pattern s)
    (hfirst : ∀ p, likeMatch same escape (first ++ p) = one (same c) (likeMatch same escape p)) :
    Literal same escape (first ++ pattern) (c :: s) := by
  intro p t
  rw [List.append_assoc, hfirst]
  cases t with
  | nil => rfl
  | cons x t =>
    rw [afterLiteral, one]
    cases same c x with
    | false => rfl
    | true => exact h p t

theorem escaped_literal (e : Char) (s : List Char) : Literal same (some e) (escaped e s) s := by
  induction s with
  | nil => exact literal_nil same (some e)
  | cons c s ih =>
    have hcons : escaped e (c :: s) = (if c = e ∨ c = '%' ∨ c = '_' then [e, c] else [c]) ++ escaped e s := rfl
    rw [hcons]
    apply ih.cons
    intro p
    split
    · exact likeMatch_escape same c p
    · next hplain =>
        have hplain : c ≠ e ∧ c ≠ '%' ∧ c ≠ '_' := by simpa [not_or] using hplain
        have hescape : some e ≠ some c := fun h => hplain.1 (Option.some.inj h).symm
        exact likeMatch_plain same (some e) hescape hplain.2.1 hplain.2.2 p

/-- A text without wildcards and escape characters. -/
theorem plain_literal {s : List Char} (hs : ∀ c ∈ s, escape ≠ some c ∧ c ≠ '%' ∧ c ≠ '_') :
    Literal same escape s s := by
  induction s with
  | nil => exact literal_nil same escape
  | cons c s ih =>
    obtain ⟨⟨hescape, hany, hone⟩, hrest⟩ := List.forall_mem_cons.mp hs
    have hfirst : ∀ p, likeMatch same escape ([c] ++ p) = one (same c) (likeMatch same escape p) :=
      likeMatch_plain same escape hescape hany hone
    exact (ih hrest).cons same escape hfirst

/-! ### Patterns of wildcards and texts -/

inductive Part where
  | any
  | literal (s : List Char)

/-- The pattern of the parts, with a way to write texts. -/
def pattern (write : List Char → List Char) : List Part → List Char
  | [] => []
  | .any :: parts => '%' :: pattern write parts
  | .literal s :: parts => write s ++ pattern write parts

/-- What the parts say of a text. -/
def Holds : List Part → List Char → Bool
  | [], t => t.isEmpty
  | .any :: parts, t => t.tails.any (Holds parts)
  | .literal s :: parts, t => (afterLiteral same s t).any (Holds parts)

def texts : List Part → List (List Char)
  | [] => []
  | .any :: parts => texts parts
  | .literal s :: parts => s :: texts parts

theorem likeMatch_pattern {write : List Char → List Char} (hescape : escape ≠ some '%') {parts : List Part}
    (hwrite : ∀ s ∈ texts parts, Literal same escape (write s) s) :
    likeMatch same escape (pattern write parts) = Holds same parts := by
  induction parts with
  | nil =>
    funext t
    rfl
  | cons part parts ih =>
    funext t
    cases part with
    | any =>
      rw [pattern, likeMatch_any same escape hescape, ih hwrite]
      rfl
    | literal s =>
      obtain ⟨hs, hrest⟩ := List.forall_mem_cons.mp hwrite
      rw [pattern, hs, ih hrest]
      rfl

end SqlLike
