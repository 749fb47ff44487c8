import FraiseQL.SqlBoolean

/-! The clauses of a SELECT statement. The tokens before the first clause word outside all parentheses are its head;
after WHERE stands the condition, up to the first word that ends it; the rest is the tail. A statement narrows another
by an atom when they have the same head and tail and its condition is the other's AND the atom, under every
valuation of the atoms. -/

namespace SqlSelect

open SqlLex SqlBoolean List

def isSelect : Token → Bool := isKeyword ['S', 'E', 'L', 'E', 'C', 'T']

def isWhere : Token → Bool := isKeyword ['W', 'H', 'E', 'R', 'E']

/-- The words that begin a clause after the condition. -/
def laterClauses : List (List Char) :=
  [['G', 'R', 'O', 'U', 'P'], ['H', 'A', 'V', 'I', 'N', 'G'], ['W', 'I', 'N', 'D', 'O', 'W'], ['O', 'R', 'D', 'E', 'R'],
    ['L', 'I', 'M', 'I', 'T'], ['O', 'F', 'F', 'S', 'E', 'T'], ['F', 'E', 'T', 'C', 'H'], ['F', 'O', 'R'],
    ['U', 'N', 'I', 'O', 'N'], ['I', 'N', 'T', 'E', 'R', 'S', 'E', 'C', 'T'], ['E', 'X', 'C', 'E', 'P', 'T']]

def isLater (t : Token) : Bool := laterClauses.any fun w => isKeyword w t

def isClause (t : Token) : Bool := isWhere t || isLater t

structure Select where
  head : List Token
  condition : Option (List Token)
  tail : List Token

/-- The parenthesis depth after a token. -/
def deeper (n : Nat) (t : Token) : Nat := if t = .symbol '(' then n + 1 else if t = .symbol ')' then n - 1 else n

/-- The tokens up to the first of a kind outside all parentheses, and the rest from there. -/
def upTo (p : Token → Bool) : Nat → List Token → List Token × List Token
  | _, [] => ([], [])
  | n, t :: ts =>
    if n = 0 ∧ p t = true then ([], t :: ts)
    else (t :: (upTo p (deeper n t) ts).1, (upTo p (deeper n t) ts).2)

def clauses (ts : List Token) : Select :=
  match upTo isClause 0 ts with
  | (head, []) => ⟨head, none, []⟩
  | (head, t :: rest) =>
    if isWhere t then ⟨head, some (upTo isLater 0 rest).1, (upTo isLater 0 rest).2⟩ else ⟨head, none, t :: rest⟩

/-- The tokens of a statement: SELECT comes first and parentheses match. -/
def WellFormed (ts : List Token) : Prop := (ts.head?.any isSelect) = true ∧ depth ts 0 = some 0

instance : DecidablePred WellFormed := fun ts =>
  inferInstanceAs (Decidable ((ts.head?.any isSelect) = true ∧ depth ts 0 = some 0))

/-! ### What a condition means -/

section Meaning

variable (v : List Token → Bool)

/-- The truth value of a condition. -/
def value (condition : List Token) : Option Bool :=
  read (fun ts => v (ts.map Prod.fst)) (condition.map fun t => (t, 0))

/-- A statement without a condition takes every row. -/
def Select.value (s : Select) : Option Bool := s.condition.elim (some true) (SqlSelect.value v)

end Meaning

structure Narrows (before after : Select) (atom : List Token) : Prop where
  head : after.head = before.head
  tail : after.tail = before.tail
  narrowed : after.condition.isSome
  condition : ∀ v, ∃ x, before.value v = some x ∧ after.value v = some (x && v atom)

/-! ### Splitting -/

variable {p : Token → Bool} {a b ts : List Token} {t : Token} {n m : Nat}

theorem upTo_append_eq (p : Token → Bool) (n : Nat) (ts : List Token) : (upTo p n ts).1 ++ (upTo p n ts).2 = ts := by
  induction ts generalizing n with
  | nil => rfl
  | cons t ts ih =>
    rw [upTo]
    split
    · rfl
    · exact congrArg (t :: ·) (ih _)

/-- What is met after the tokens are split is not looked at. -/
theorem upTo_append_of_stop (h : upTo p n ts = (a, t :: b)) (more : List Token) :
    upTo p n (ts ++ more) = (a, t :: b ++ more) := by
  induction ts generalizing n a with
  | nil => cases h
  | cons u ts ih =>
    rw [upTo] at h
    rw [cons_append, upTo]
    split at h
    · next hstop =>
        rw [if_pos hstop]
        obtain ⟨rfl, hrest⟩ := Prod.mk.inj h
        rw [← cons_append, hrest]
    · next hstop =>
        rw [if_neg hstop]
        obtain ⟨rfl, hrest⟩ := Prod.mk.inj h
        have hsplit : upTo p (deeper n u) ts = ((upTo p (deeper n u) ts).1, t :: b) := by rw [← hrest]
        rw [ih hsplit]

/-- Tokens of which none is of the kind do not split. -/
theorem upTo_append_of_none (h : upTo p n ts = (ts, [])) {more : List Token} (hmore : ∀ t ∈ more, p t = false) :
    upTo p n (ts ++ more) = (ts ++ more, []) := by
  have hfree : ∀ (us : List Token) (k : Nat), (∀ t ∈ us, p t = false) → upTo p k us = (us, []) := by
    intro us
    induction us with
    | nil => exact fun _ _ => rfl
    | cons u us ih =>
      intro k hus
      have hu : ¬(k = 0 ∧ p u = true) := by simp [hus u mem_cons_self]
      rw [upTo, if_neg hu, ih _ fun t ht => hus t (mem_cons_of_mem _ ht)]
  induction ts generalizing n with
  | nil => exact hfree more n hmore
  | cons u ts ih =>
    rw [upTo] at h
    rw [cons_append, upTo]
    split at h
    · cases h
    · next hstop =>
        obtain ⟨hhead, hrest⟩ := Prod.mk.inj h
        have hsplit : upTo p (deeper n u) ts = (ts, []) := Prod.ext (cons.inj hhead).2 hrest
        rw [if_neg hstop, ih hsplit]

theorem depth_cons_of_some (h : depth (t :: ts) n = some m) : depth ts (deeper n t) = some m := by
  rw [depth] at h
  rw [deeper]
  split_ifs at h ⊢
  · exact h
  · exact h
  · exact h

/-- The tokens are split after balanced ones. -/
theorem upTo_append_of_depth (hsplit : upTo p n a = (a, [])) (hdepth : depth a n = some m) (b : List Token) :
    upTo p n (a ++ b) = (a ++ (upTo p m b).1, (upTo p m b).2) := by
  induction a generalizing n with
  | nil =>
    obtain rfl := Option.some.inj hdepth
    rfl
  | cons u a ih =>
    rw [upTo] at hsplit
    rw [cons_append, upTo]
    split at hsplit
    · cases hsplit
    · next hstop =>
        obtain ⟨hhead, hrest⟩ := Prod.mk.inj hsplit
        have hrec : upTo p (deeper n u) a = (a, []) := Prod.ext (cons.inj hhead).2 hrest
        rw [if_neg hstop, ih hrec (depth_cons_of_some hdepth)]
        rfl

/-- Balanced tokens are split where the parentheses match. -/
theorem depth_of_upTo (h : upTo p n ts = (a, t :: b)) (hdepth : depth ts n = some m) :
    depth (t :: b) 0 = some m := by
  induction ts generalizing n a with
  | nil => cases h
  | cons u ts ih =>
    rw [upTo] at h
    split at h
    · next hstop =>
        obtain ⟨-, hrest⟩ := Prod.mk.inj h
        rw [← hrest, ← hstop.1]
        exact hdepth
    · obtain ⟨-, hrest⟩ := Prod.mk.inj h
      have hsplit : upTo p (deeper n u) ts = ((upTo p (deeper n u) ts).1, t :: b) := by rw [← hrest]
      exact ih hsplit (depth_cons_of_some hdepth)

/-! ### Narrowing -/

theorem isWhere_of_isLater (h : isLater t = true) : isWhere t = false := by
  rw [isLater, any_eq_true] at h
  obtain ⟨w, hw, hword⟩ := h
  cases t with
  | word cs =>
    have hcs : cs.map Char.toUpper = w := of_decide_eq_true hword
    show decide (cs.map Char.toUpper = ['W', 'H', 'E', 'R', 'E']) = false
    rw [hcs]
    have hall : ∀ w ∈ laterClauses, decide (w = ['W', 'H', 'E', 'R', 'E']) = false := by decide
    exact hall w hw
  | _ => rfl

/-- A statement without a condition. -/
theorem clauses_of_head (hsplit : upTo isClause 0 a = (a, [])) (hdepth : depth a 0 = some 0)
    (hb : ∀ t ∈ b.head?, isLater t = true) : clauses (a ++ b) = ⟨a, none, b⟩ := by
  rw [clauses, upTo_append_of_depth hsplit hdepth]
  cases b with
  | nil => simp [upTo]
  | cons t b =>
    have hlater := hb t rfl
    have hclause : isClause t = true := by rw [isClause, hlater, Bool.or_true]
    rw [upTo, if_pos ⟨rfl, hclause⟩]
    simp [isWhere_of_isLater hlater]

/-- The same statement with a condition. -/
theorem clauses_of_where {condition : List Token} (hsplit : upTo isClause 0 a = (a, [])) (hdepth : depth a 0 = some 0)
    (ht : isWhere t = true) (hcondition : upTo isLater 0 condition = (condition, []))
    (hbalanced : depth condition 0 = some 0) (hb : ∀ t ∈ b.head?, isLater t = true) :
    clauses (a ++ t :: (condition ++ b)) = ⟨a, some condition, b⟩ := by
  have hclause : isClause t = true := by rw [isClause, ht, Bool.true_or]
  have hrest : upTo isLater 0 (condition ++ b) = (condition, b) := by
    rw [upTo_append_of_depth hcondition hbalanced]
    cases b with
    | nil => simp [upTo]
    | cons u b =>
      rw [upTo, if_pos ⟨rfl, hb u rfl⟩]
      simp
  rw [clauses, upTo_append_of_depth hsplit hdepth, upTo, if_pos ⟨rfl, hclause⟩]
  simp [ht, hrest]

/-- What a condition of one atom has to be. -/
structure IsAtom (atom : List Token) : Prop where
  nonempty : atom ≠ []
  plain : atom.all isPlain = true
  unclaused : ∀ t ∈ atom, isLater t = false
  notConstant : constant atom = none

theorem IsAtom.upTo_eq (h : IsAtom a) : upTo isLater 0 a = (a, []) := by
  have hsplit : upTo isLater 0 ([] ++ a) = ([] ++ a, []) := upTo_append_of_none rfl h.unclaused
  exact hsplit

theorem IsAtom.depth_eq (h : IsAtom a) : depth a 0 = some 0 := by
  apply depth_of_noParen
  intro t ht
  have hplain := all_eq_true.mp h.plain t ht
  simp only [isPlain, Bool.and_eq_true, Bool.not_eq_true'] at hplain
  exact hplain.1.1.1

section Value

variable (v : List Token → Bool)

theorem map_fst_placed (ts : List Token) : (ts.map fun t => ((t, 0) : Placed)).map Prod.fst = ts := by
  rw [map_map]
  exact map_id ts

theorem IsAtom.readsAs (h : IsAtom a) :
    ReadsAs (fun ts => v (ts.map Prod.fst)) (a.map fun t => (t, 0)) (v a) true := by
  have hne : (a.map fun t => (t, 0)) ≠ [] := fun hnil => h.nonempty (map_eq_nil_iff.mp hnil)
  have hplain : ((a.map fun t => (t, 0)).all fun t => isPlain t.1) = true := by
    rw [all_map]
    exact h.plain
  have hatom := readsAs_atom (v := fun ts : List Placed => v (ts.map Prod.fst)) hne hplain
  rw [atom, map_fst_placed, h.notConstant] at hatom
  exact hatom

theorem IsAtom.value_eq (h : IsAtom a) : value v a = some (v a) := (h.readsAs v).read_eq

/-- A condition without an OR outside all parentheses may be followed by AND. -/
theorem value_and {condition : List Token} (hdepth : depth condition 0 = some 0)
    (hor : ∀ t ∈ outer 0 condition, isOr t = false) (h : IsAtom a) :
    ∃ x, value v condition = some x ∧ value v (condition ++ .word ['A', 'N', 'D'] :: a) = some (x && v a) := by
  have hplaced : depth ((condition.map fun t => ((t, 0) : Placed)).map Prod.fst) 0 = some 0 := by
    rw [map_fst_placed]
    exact hdepth
  obtain ⟨us, hreads⟩ := reads_of_depth hplaced
  have htops : ∀ t ∈ tops us, isOr t = false := by
    rw [← hreads.outer_eq, map_fst_placed]
    exact hor
  have hcondition : ReadsAs (fun ts => v (ts.map Prod.fst)) (condition.map fun t => (t, 0))
      (readTrees (fun ts => v (ts.map Prod.fst)) us) true := ⟨us, hreads, rfl, fun _ => htops⟩
  refine ⟨_, hcondition.read_eq, ?_⟩
  have hand := hcondition.and (h.readsAs v) rfl 0
  have hmap : (condition ++ .word ['A', 'N', 'D'] :: a).map (fun t => (t, 0)) =
      condition.map (fun t => (t, 0)) ++ (.word ['A', 'N', 'D'], 0) :: a.map fun t => (t, 0) := by simp
  rw [value, hmap]
  exact hand.read_eq

end Value

/-- The condition stands last and has no OR outside all parentheses. -/
structure EndsInCondition (ts : List Token) : Prop where
  condition : ∃ c, (clauses ts).condition = some c ∧ ∀ t ∈ outer 0 c, isOr t = false
  last : (clauses ts).tail = []

theorem EndsInCondition.narrows (hts : EndsInCondition ts) (hdepth : depth ts 0 = some 0) (h : IsAtom a) :
    Narrows (clauses ts) (clauses (ts ++ .word ['A', 'N', 'D'] :: a)) a := by
  obtain ⟨⟨c, hcondition, hor⟩, hlast⟩ := hts
  rw [clauses] at hcondition hlast
  cases hsplit : upTo isClause 0 ts with
  | mk head rest =>
    rw [hsplit] at hcondition hlast
    cases rest with
    | nil => cases hcondition
    | cons t rest =>
      by_cases ht : isWhere t = true
      · simp only [ht, if_true, Option.some.injEq] at hcondition hlast
        have hpair : upTo isLater 0 rest = (rest, []) := by
          have hsame := upTo_append_eq isLater 0 rest
          rw [hlast, append_nil] at hsame
          exact Prod.ext hsame hlast
        have hrest : rest = c := by rw [← hcondition, hpair]
        subst hrest
        have hquiet : ∀ u ∈ Token.word ['A', 'N', 'D'] :: a, isLater u = false :=
          forall_mem_cons.mpr ⟨by decide, h.unclaused⟩
        have hbefore : clauses ts = ⟨head, some rest, []⟩ := by
          rw [clauses, hsplit]
          simp [ht, hpair]
        have hafter : clauses (ts ++ .word ['A', 'N', 'D'] :: a) =
            ⟨head, some (rest ++ .word ['A', 'N', 'D'] :: a), []⟩ := by
          rw [clauses, upTo_append_of_stop hsplit]
          simp [ht, upTo_append_of_none hpair hquiet]
        have hword : ¬(t = .symbol '(') ∧ ¬(t = .symbol ')') := by
          constructor
          · rintro rfl
            cases ht
          · rintro rfl
            cases ht
        have hbalanced := depth_of_upTo hsplit hdepth
        rw [depth, if_neg hword.1, if_neg hword.2] at hbalanced
        rw [hbefore, hafter]
        exact ⟨rfl, rfl, rfl, fun v => value_and v hbalanced hor h⟩
      · simp only [ht] at hcondition
        cases hcondition

theorem narrows_where (hsplit : upTo isClause 0 b = (b, [])) (hdepth : depth b 0 = some 0) (ht : isWhere t = true)
    (h : IsAtom a) {rest : List Token} (hrest : ∀ u ∈ rest.head?, isLater u = true) :
    Narrows (clauses (b ++ rest)) (clauses (b ++ t :: (a ++ rest))) a := by
  rw [clauses_of_head hsplit hdepth hrest, clauses_of_where hsplit hdepth ht h.upTo_eq h.depth_eq hrest]
  refine ⟨rfl, rfl, rfl, ?_⟩
  intro v
  refine ⟨true, rfl, ?_⟩
  rw [Bool.true_and]
  exact h.value_eq v

end SqlSelect
