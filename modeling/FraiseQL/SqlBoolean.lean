import FraiseQL.SqlLex

/-! Reading a SQL condition with the precedence NOT, AND, OR. The tokens are grouped by parentheses; an
operand that is one parenthesised group is read again, any other operand is an atom, whose truth value is
given by a valuation of token sequences. Each token carries its place in the text, so that two atoms of the
same tokens may have different values. The constants of SQL are read as such. -/

namespace SqlBoolean

open SqlLex List Prod

/-- A token and its place in the text. -/
abbrev Placed := Token × Nat

inductive Tree where
  | tok (t : Placed)
  | group (ts : List Tree)

/-! ### Grouping -/

/-- The trees of a token sequence; the stack holds what precedes each open parenthesis. -/
def parse : List Placed → List (List Tree) → List Tree → Option (List Tree)
  | [], stack, cur => if stack.isEmpty then some cur else none
  | t :: ts, stack, cur =>
    if t.1 = .symbol '(' then parse ts (cur :: stack) []
    else if t.1 = .symbol ')' then
      stack.head?.bind fun top => parse ts stack.tail (top ++ [.group cur])
    else parse ts stack (cur ++ [.tok t])

def isParen (t : Token) : Bool := decide (t = .symbol '(') || decide (t = .symbol ')')

/-- The tokens are a grouped reading of the trees. -/
inductive Reads : List Placed → List Tree → Prop
  | nil : Reads [] []
  | tok {t : Placed} {ts : List Placed} {us : List Tree} (ht : isParen t.1 = false) (h : Reads ts us) :
      Reads (t :: ts) (.tok t :: us)
  | group {m n : Nat} {a b : List Placed} {us ws : List Tree} (ha : Reads a us) (hb : Reads b ws) :
      Reads ((.symbol '(', m) :: (a ++ (.symbol ')', n) :: b)) (.group us :: ws)

variable {a : List Placed} {us : List Tree}

theorem Reads.append {b : List Placed} {ws : List Tree} (ha : Reads a us) (hb : Reads b ws) :
    Reads (a ++ b) (us ++ ws) := by
  induction ha with
  | nil => exact hb
  | tok ht _ ih => exact .tok ht ih
  | group hinner _ _ ih =>
    rw [cons_append, append_assoc, cons_append]
    exact .group hinner ih

theorem Reads.parse_append (ha : Reads a us) (b : List Placed)
    (stack : List (List Tree)) (cur : List Tree) : parse (a ++ b) stack cur = parse b stack (cur ++ us) := by
  induction ha generalizing stack cur b with
  | nil => simp
  | @tok t ts us ht _ ih =>
    simp only [isParen, Bool.or_eq_false_iff, decide_eq_false_iff_not] at ht
    rw [cons_append, parse, if_neg ht.1, if_neg ht.2, ih, append_assoc]
    rfl
  | group _ _ iha ihb =>
    rw [cons_append, parse, if_pos rfl, append_assoc, iha, cons_append, parse,
      if_neg (by simp), if_pos rfl]
    show parse _ stack (cur ++ [.group ([] ++ _)]) = _
    rw [ihb, nil_append, append_assoc]
    rfl

theorem Reads.parse_eq (ha : Reads a us) : parse a [] [] = some us := by
  have h := ha.parse_append [] [] []
  rwa [append_nil, nil_append, parse] at h

/-- The parenthesis depth after a token sequence, none when it falls below the start. -/
def depth : List Token → Nat → Option Nat
  | [], n => some n
  | t :: ts, n =>
    if t = .symbol '(' then depth ts (n + 1)
    else if t = .symbol ')' then
      if n = 0 then none else depth ts (n - 1)
    else depth ts n

theorem depth_append (a b : List Token) (n : Nat) : depth (a ++ b) n = (depth a n).bind (depth b) := by
  induction a generalizing n with
  | nil => rfl
  | cons t a ih =>
    rw [cons_append, depth, depth]
    split_ifs
    · exact ih _
    · rfl
    · exact ih _
    · exact ih _

/-- The tokens read some trees up to each of `n` closing parentheses. -/
def Closes : Nat → List Placed → Prop
  | 0, ts => ∃ us, Reads ts us
  | n + 1, ts => ∃ a us k b, Reads a us ∧ ts = a ++ (.symbol ')', k) :: b ∧ Closes n b

variable {n : Nat} {t : Placed} {ts : List Placed}

theorem Closes.cons_tok (ht : isParen t.1 = false) (h : Closes n ts) : Closes n (t :: ts) := by
  cases n with
  | zero =>
    obtain ⟨us, hus⟩ := h
    exact ⟨_, .tok ht hus⟩
  | succ n =>
    obtain ⟨a, us, k, b, ha, rfl, hb⟩ := h
    exact ⟨t :: a, _, k, b, .tok ht ha, rfl, hb⟩

theorem Closes.cons_open {m : Nat} (h : Closes (n + 1) ts) : Closes n ((.symbol '(', m) :: ts) := by
  obtain ⟨a, us, k, b, ha, rfl, hb⟩ := h
  cases n with
  | zero =>
    obtain ⟨ws, hws⟩ := hb
    exact ⟨_, .group ha hws⟩
  | succ n =>
    obtain ⟨a', us', k', b', ha', rfl, hb'⟩ := hb
    exact ⟨(.symbol '(', m) :: (a ++ (.symbol ')', k) :: a'), _, k', b', .group ha ha', by simp, hb'⟩

theorem closes_of_depth (h : depth (ts.map fst) n = some 0) : Closes n ts := by
  induction ts generalizing n with
  | nil =>
    obtain rfl := Option.some.inj h
    exact ⟨[], .nil⟩
  | cons t ts ih =>
    obtain ⟨t, k⟩ := t
    rw [map_cons, depth] at h
    split_ifs at h with hopen hclose hn
    · subst hopen
      exact (ih h).cons_open
    · subst hclose
      obtain ⟨m, rfl⟩ := Nat.exists_eq_succ_of_ne_zero hn
      exact ⟨[], [], k, ts, .nil, rfl, ih h⟩
    · exact (ih h).cons_tok (by simp [isParen, hopen, hclose])

/-- Balanced tokens can be read. -/
theorem reads_of_depth (h : depth (ts.map fst) 0 = some 0) : ∃ us, Reads ts us :=
  closes_of_depth h

/-- The tokens outside all parentheses. -/
def outer : Nat → List Token → List Token
  | _, [] => []
  | n, t :: ts =>
    if t = .symbol '(' then outer (n + 1) ts
    else if t = .symbol ')' then outer (n - 1) ts
    else if n = 0 then t :: outer n ts else outer n ts

variable {x : List Token}

/-- Tokens that close their parentheses may be left out of a depth count. -/
theorem depth_of_balanced (hx : depth x 0 = some 0) (n : Nat) : depth x n = some n := by
  have hadd : ∀ (ts : List Token) (m k : Nat), depth ts m = some k → depth ts (m + n) = some (k + n) := by
    intro ts
    induction ts with
    | nil =>
      intro m k h
      obtain rfl := Option.some.inj h
      rfl
    | cons t ts ih =>
      intro m k h
      rw [depth] at h ⊢
      split_ifs at h with hopen hclose hm
      · rw [if_pos hopen, Nat.add_right_comm]
        exact ih _ _ h
      · have hsub : m + n - 1 = m - 1 + n := by omega
        rw [if_neg hopen, if_pos hclose, if_neg (by omega), hsub]
        exact ih _ _ h
      · rw [if_neg hopen, if_neg hclose]
        exact ih _ _ h
  have h := hadd x 0 0 hx
  rwa [Nat.zero_add] at h

theorem depth_insert (hx : depth x 0 = some 0) (a b : List Token) (n : Nat) :
    depth (a ++ (x ++ b)) n = depth (a ++ b) n := by
  rw [depth_append, depth_append]
  congr 1
  funext m
  rw [depth_append, depth_of_balanced hx]
  rfl

theorem outer_append {a : List Token} {m : Nat} (h : depth a n = some m) (b : List Token) :
    outer n (a ++ b) = outer n a ++ outer m b := by
  induction a generalizing n with
  | nil =>
    obtain rfl := Option.some.inj h
    rfl
  | cons t a ih =>
    rw [depth] at h
    rw [cons_append, outer, outer]
    split_ifs at h ⊢ with hopen hclose hn
    · exact ih h
    · exact ih h
    · rw [ih h, cons_append]
    · exact ih h

/-- What balanced tokens, put anywhere, add to the tokens outside all parentheses. -/
theorem mem_outer_of_balanced (hx : depth x 0 = some 0) {t : Token} (ht : t ∈ outer n x) : t ∈ outer 0 x := by
  have hdeep : ∀ (ts : List Token) (m k : Nat), depth ts m = some k → 0 < n → outer (m + n) ts = [] := by
    intro ts
    induction ts with
    | nil => exact fun _ _ _ _ => rfl
    | cons t ts ih =>
      intro m k h hn
      rw [depth] at h
      rw [outer]
      split_ifs at h with hopen hclose hm
      · rw [if_pos hopen, Nat.add_right_comm]
        exact ih _ _ h hn
      · have hsub : m + n - 1 = m - 1 + n := by omega
        rw [if_neg hopen, if_pos hclose, hsub]
        exact ih _ _ h hn
      · rw [if_neg hopen, if_neg hclose, if_neg (by omega)]
        exact ih _ _ h hn
  rcases Nat.eq_zero_or_pos n with rfl | hn
  · exact ht
  · have hnil := hdeep x 0 0 hx hn
    rw [Nat.zero_add] at hnil
    rw [hnil] at ht
    cases ht

theorem mem_outer_insert (hx : depth x 0 = some 0) {a b : List Token}
    (ha : (depth a n).isSome) {t : Token} (ht : t ∈ outer n (a ++ (x ++ b))) :
    t ∈ outer n (a ++ b) ∨ t ∈ outer 0 x := by
  obtain ⟨m, hm⟩ := Option.isSome_iff_exists.mp ha
  rw [outer_append hm, outer_append (depth_of_balanced hx m)] at ht
  rw [outer_append hm]
  rcases mem_append.mp ht with ht | ht
  · exact .inl (mem_append_left _ ht)
  · rcases mem_append.mp ht with ht | ht
    · exact .inr (mem_outer_of_balanced hx ht)
    · exact .inl (mem_append_right _ ht)

theorem depth_of_noParen {ts : List Token} (h : ∀ t ∈ ts, isParen t = false) (n : Nat) :
    depth ts n = some n := by
  induction ts with
  | nil => rfl
  | cons t ts ih =>
    have ht := h t (mem_cons_self ..)
    simp only [isParen, Bool.or_eq_false_iff, decide_eq_false_iff_not] at ht
    rw [depth, if_neg ht.1, if_neg ht.2]
    exact ih fun u hu => h u (mem_cons_of_mem _ hu)

theorem mem_of_mem_outer {ts : List Token} {t : Token} (h : t ∈ outer n ts) : t ∈ ts := by
  induction ts generalizing n with
  | nil => cases h
  | cons u ts ih =>
    rw [outer] at h
    split_ifs at h
    · exact mem_cons_of_mem _ (ih h)
    · exact mem_cons_of_mem _ (ih h)
    · rcases mem_cons.mp h with rfl | h
      · exact mem_cons_self ..
      · exact mem_cons_of_mem _ (ih h)
    · exact mem_cons_of_mem _ (ih h)

section Substitution

variable {α : Type} {F G : α → List Token} {xs : List α}

/-- Balanced tokens in place of no tokens. -/
theorem depth_flatMap (h : ∀ x ∈ xs, F x = G x ∨ (G x = [] ∧ depth (F x) 0 = some 0)) (n : Nat) :
    depth (xs.flatMap F) n = depth (xs.flatMap G) n := by
  induction xs generalizing n with
  | nil => rfl
  | cons x xs ih =>
    have hrest := ih fun y hy => h y (mem_cons_of_mem _ hy)
    rw [flatMap_cons, flatMap_cons]
    rcases h x (mem_cons_self ..) with heq | ⟨hnil, hbalanced⟩
    · rw [heq, depth_append, depth_append]
      congr 1
      funext m
      exact hrest m
    · rw [hnil, depth_append, depth_of_balanced hbalanced]
      exact hrest n

/-- What is outside all parentheses stays there, and what joins it comes from the balanced tokens. -/
theorem mem_outer_flatMap (h : ∀ x ∈ xs, F x = G x ∨ (G x = [] ∧ depth (F x) 0 = some 0)) {n m : Nat}
    (hclosed : depth (xs.flatMap G) n = some m) (t : Token) :
    (t ∈ outer n (xs.flatMap G) → t ∈ outer n (xs.flatMap F)) ∧
      (t ∈ outer n (xs.flatMap F) → t ∈ outer n (xs.flatMap G) ∨ ∃ x ∈ xs, G x = [] ∧ t ∈ outer 0 (F x)) := by
  induction xs generalizing n with
  | nil => exact ⟨nofun, nofun⟩
  | cons x xs ih =>
    have hrest : ∀ y ∈ xs, F y = G y ∨ (G y = [] ∧ depth (F y) 0 = some 0) :=
      fun y hy => h y (mem_cons_of_mem _ hy)
    have hlift : (∃ y ∈ xs, G y = [] ∧ t ∈ outer 0 (F y)) → ∃ y ∈ x :: xs, G y = [] ∧ t ∈ outer 0 (F y) :=
      fun ⟨y, hy, hout⟩ => ⟨y, mem_cons_of_mem _ hy, hout⟩
    rw [flatMap_cons] at hclosed
    rw [flatMap_cons, flatMap_cons]
    rcases h x (mem_cons_self ..) with heq | ⟨hnil, hbalanced⟩
    · rw [depth_append] at hclosed
      obtain ⟨k, hk, hclosed⟩ := Option.bind_eq_some_iff.mp hclosed
      obtain ⟨hkept, hnew⟩ := ih hrest hclosed
      rw [heq, outer_append hk, outer_append hk, mem_append, mem_append, or_assoc]
      exact ⟨Or.imp_right hkept, Or.imp_right fun ht => (hnew ht).imp_right hlift⟩
    · rw [hnil, nil_append] at hclosed ⊢
      obtain ⟨hkept, hnew⟩ := ih hrest hclosed
      rw [outer_append (depth_of_balanced hbalanced n), mem_append]
      refine ⟨fun ht => .inr (hkept ht), fun ht => ?_⟩
      rcases ht with ht | ht
      · exact .inr ⟨x, mem_cons_self .., hnil, mem_outer_of_balanced hbalanced ht⟩
      · exact (hnew ht).imp_right hlift

end Substitution

/-- The tokens of the trees outside all groups. -/
def tops (us : List Tree) : List Token :=
  us.filterMap fun
    | .tok t => some t.1
    | .group _ => none

theorem Reads.outer_append (ha : Reads a us) (n : Nat) (b : List Token) :
    outer n (a.map fst ++ b) = (if n = 0 then tops us else []) ++ outer n b := by
  induction ha generalizing n b with
  | nil => simp [tops]
  | @tok t ts us ht _ ih =>
    simp only [isParen, Bool.or_eq_false_iff, decide_eq_false_iff_not] at ht
    rw [map_cons, cons_append, outer, if_neg ht.1, if_neg ht.2, ih]
    by_cases hn : n = 0 <;> simp [hn, tops]
  | group _ _ iha ihb =>
    rw [map_cons, map_append, map_cons, cons_append, outer, if_pos rfl,
      append_assoc, iha, if_neg (Nat.succ_ne_zero n), nil_append, cons_append, outer, if_neg (by simp), if_pos rfl, Nat.add_sub_cancel, ihb]
    simp [tops]

theorem Reads.outer_eq (ha : Reads a us) : outer 0 (a.map fst) = tops us := by
  have h := ha.outer_append 0 []
  rw [append_nil, if_pos rfl] at h
  rw [h, outer, append_nil]

/-! ### Reading -/

def isKeyword (w : List Char) : Token → Bool
  | .word cs => decide (cs.map Char.toUpper = w)
  | _ => false

def isAnd : Token → Bool := isKeyword ['A', 'N', 'D']

def isOr : Token → Bool := isKeyword ['O', 'R']

def isNot : Token → Bool := isKeyword ['N', 'O', 'T']

/-- A word of the trees, outside all groups. -/
def atTop (p : Token → Bool) : Tree × Bool → Bool
  | (.tok t, _) => p t.1
  | (.group _, _) => false

mutual

/-- The tokens of a tree; its parentheses have no place. -/
def Tree.flat : Tree → List Placed
  | .tok t => [t]
  | .group ts => (.symbol '(', 0) :: (flatAll ts ++ [(.symbol ')', 0)])

def flatAll : List Tree → List Placed
  | [] => []
  | t :: ts => t.flat ++ flatAll ts

end

/-- The constants: TRUE and FALSE, and the comparison of two numerals. -/
def constant : List Token → Option Bool
  | [.word cs] =>
    if cs.map Char.toUpper = ['T', 'R', 'U', 'E'] then some true
    else if cs.map Char.toUpper = ['F', 'A', 'L', 'S', 'E'] then some false
    else none
  | [.word a, .op ['='], .word b] =>
    if a.all Char.isDigit && b.all Char.isDigit then some (decide (a = b)) else none
  | _ => none

-- The truth value of an atom.
variable (v : List Placed → Bool)

def atom (ts : List Placed) : Bool := (constant (ts.map Prod.fst)).getD (v ts)

/-- An operand of AND: negations, then a group or an atom. The value of each group comes with it. -/
def operand : List (Tree × Bool) → Bool
  | [] => atom v []
  | (.tok t, b) :: rest => if isNot t.1 then !operand rest else atom v (flatAll (((.tok t, b) :: rest).map (·.1)))
  | [(.group _, b)] => b
  | (.group ts, b) :: u :: rest => atom v (flatAll (((.group ts, b) :: u :: rest).map (·.1)))

/-- A disjunction of conjunctions of operands. -/
def combine (us : List (Tree × Bool)) : Bool :=
  (us.splitOnP (atTop isOr)).any fun c => (c.splitOnP (atTop isAnd)).all (operand v)

mutual

def Tree.value : Tree → Bool
  | .tok _ => false
  | .group ts => combine v (valued ts)

def valued : List Tree → List (Tree × Bool)
  | [] => []
  | t :: ts => (t, t.value) :: valued ts

end

def readTrees (us : List Tree) : Bool := combine v (valued v us)

/-- The truth value of a condition, none when its parentheses do not match. -/
def read (ts : List Placed) : Option Bool := (parse ts [] []).map (readTrees v)

theorem valued_append (us ws : List Tree) : valued v (us ++ ws) = valued v us ++ valued v ws := by
  induction us with
  | nil => rfl
  | cons u us ih => rw [cons_append, valued, valued, ih, cons_append]

/-- Which of the tokens outside all groups are in the valued trees. -/
theorem atTop_valued {p : Token → Bool} (h : ∀ t ∈ tops us, p t = false) : ∀ x ∈ valued v us, atTop p x = false := by
  induction us with
  | nil => simp [valued]
  | cons u us ih =>
    intro x hx
    rw [valued, mem_cons] at hx
    cases u with
    | tok t =>
      have hrest := ih fun t ht => h t (by simp [tops] at ht ⊢; exact .inr ht)
      rcases hx with rfl | hx
      · exact h t.1 (by simp [tops])
      · exact hrest x hx
    | group ts =>
      have hrest := ih fun t ht => h t (by simpa [tops] using ht)
      rcases hx with rfl | hx
      · rfl
      · exact hrest x hx

theorem readTrees_group (us : List Tree) : readTrees v [.group us] = readTrees v us := by
  simp [readTrees, combine, valued, Tree.value, splitOnP_cons_eq_if_modifyHead, atTop, operand]

theorem readTrees_not (ht : isNot t.1 = true) (hand : isAnd t.1 = false) (hor : isOr t.1 = false)
    (us : List Tree) : readTrees v [.tok t, .group us] = !readTrees v us := by
  simp [readTrees, combine, valued, Tree.value, splitOnP_cons_eq_if_modifyHead, atTop, operand, ht, hand,
    hor]

theorem readTrees_or (ht : isOr t.1 = true) (us ws : List Tree) :
    readTrees v (us ++ .tok t :: ws) = (readTrees v us || readTrees v ws) := by
  have hsep : atTop isOr (Tree.tok t, Tree.value v (.tok t)) = true := ht
  rw [readTrees, valued_append, valued, combine, splitOnP_append_cons _ _ hsep, any_append]
  rfl

/-- AND binds tighter than OR: its sides are read apart when neither has an OR outside all groups. -/
theorem readTrees_and (ht : isAnd t.1 = true) (hor : isOr t.1 = false) {ws : List Tree}
    (hus : ∀ t ∈ tops us, isOr t = false) (hws : ∀ t ∈ tops ws, isOr t = false) :
    readTrees v (us ++ .tok t :: ws) = (readTrees v us && readTrees v ws) := by
  have hsep : atTop isAnd (Tree.tok t, Tree.value v (.tok t)) = true := ht
  have hleft := atTop_valued v hus
  have hright := atTop_valued v hws
  have hall : ∀ x ∈ valued v us ++ (Tree.tok t, Tree.value v (.tok t)) :: valued v ws, atTop isOr x = false := by
    intro x hx
    rcases mem_append.mp hx with hx | hx
    · exact hleft x hx
    · rcases mem_cons.mp hx with rfl | hx
      · exact hor
      · exact hright x hx
  rw [readTrees, readTrees, readTrees, valued_append, valued, combine, combine, combine,
    splitOnP_eq_singleton hall, splitOnP_eq_singleton hleft, splitOnP_eq_singleton hright]
  simp [splitOnP_append_cons _ _ hsep]

/-! ### Conditions read from their parts -/

/-- The tokens are read as a condition of the given truth value; calm tokens have no OR outside all
parentheses. -/
def ReadsAs (ts : List Placed) (value calm : Bool) : Prop :=
  ∃ us, Reads ts us ∧ readTrees v us = value ∧ (calm = true → ∀ t ∈ tops us, isOr t = false)

section ReadsAs

variable {v} {a b : List Placed} {x y c c' : Bool}

theorem ReadsAs.read_eq (h : ReadsAs v a x c) : read v a = some x := by
  obtain ⟨us, hreads, rfl, _⟩ := h
  rw [read, hreads.parse_eq, Option.map_some]

theorem ReadsAs.weaken (h : ReadsAs v a x true) : ReadsAs v a x c := by
  obtain ⟨us, hreads, hvalue, hcalm⟩ := h
  exact ⟨us, hreads, hvalue, fun _ => hcalm rfl⟩

theorem ReadsAs.group (h : ReadsAs v a x c) (m n : Nat) :
    ReadsAs v ((.symbol '(', m) :: (a ++ [(.symbol ')', n)])) x true := by
  obtain ⟨us, hreads, rfl, _⟩ := h
  refine ⟨[.group us], .group hreads .nil, readTrees_group v us, ?_⟩
  intro _ t ht
  cases ht

variable {t : Token}

theorem ReadsAs.not (h : ReadsAs v a x c) (ht : t = .word ['N', 'O', 'T']) (k m n : Nat) :
    ReadsAs v ((t, k) :: (.symbol '(', m) :: (a ++ [(.symbol ')', n)])) (!x) true := by
  subst ht
  obtain ⟨us, hreads, rfl, _⟩ := h
  refine ⟨[.tok (.word ['N', 'O', 'T'], k), .group us], .tok rfl (.group hreads .nil),
    readTrees_not v rfl rfl rfl us, ?_⟩
  intro _ t ht
  obtain rfl : t = .word ['N', 'O', 'T'] := by simpa [tops] using ht
  decide

theorem ReadsAs.and (ha : ReadsAs v a x true) (hb : ReadsAs v b y true)
    (ht : t = .word ['A', 'N', 'D']) (k : Nat) : ReadsAs v (a ++ (t, k) :: b) (x && y) true := by
  subst ht
  obtain ⟨us, hus, rfl, hcalm⟩ := ha
  obtain ⟨ws, hws, rfl, hcalm'⟩ := hb
  refine ⟨us ++ .tok (.word ['A', 'N', 'D'], k) :: ws, hus.append (.tok rfl hws),
    readTrees_and v rfl rfl (hcalm rfl) (hcalm' rfl), ?_⟩
  intro _ t ht
  simp only [tops, filterMap_append, filterMap_cons, mem_append, mem_cons] at ht
  rcases ht with ht | rfl | ht
  · exact hcalm rfl t ht
  · decide
  · exact hcalm' rfl t ht

theorem ReadsAs.or (ha : ReadsAs v a x c) (hb : ReadsAs v b y c') (ht : t = .word ['O', 'R'])
    (k : Nat) : ReadsAs v (a ++ (t, k) :: b) (x || y) false := by
  subst ht
  obtain ⟨us, hus, rfl, _⟩ := ha
  obtain ⟨ws, hws, rfl, _⟩ := hb
  exact ⟨us ++ .tok (.word ['O', 'R'], k) :: ws, hus.append (.tok rfl hws),
    readTrees_or v rfl us ws, nofun⟩

variable {ts : List Placed}

theorem reads_toks (h : ∀ t ∈ ts, isParen t.1 = false) : Reads ts (ts.map .tok) := by
  induction ts with
  | nil => exact .nil
  | cons t ts ih =>
    exact .tok (h t (mem_cons_self ..)) (ih fun u hu => h u (mem_cons_of_mem _ hu))

theorem tops_toks (ts : List Placed) : tops (ts.map .tok) = ts.map fst := by
  induction ts with
  | nil => rfl
  | cons t ts ih => exact congrArg (t.1 :: ·) ih

theorem flatAll_toks (ts : List Placed) : flatAll (ts.map .tok) = ts := by
  induction ts with
  | nil => rfl
  | cons t ts ih => exact congrArg (t :: ·) ih

theorem valued_fst (us : List Tree) : (valued v us).map fst = us := by
  induction us with
  | nil => rfl
  | cons u us ih => exact congrArg (u :: ·) ih

/-- A word that is no parenthesis and no connective. -/
def isPlain (t : Token) : Bool := !isParen t && !isOr t && !isAnd t && !isNot t

/-- Words that are no connectives are one atom. -/
theorem readsAs_atom (hne : ts ≠ []) (hplain : (ts.all fun t => isPlain t.1) = true) :
    ReadsAs v ts (atom v ts) true := by
  simp only [all_eq_true, isPlain, Bool.and_eq_true, Bool.not_eq_true'] at hplain
  have htops : ∀ p : Token → Bool, (∀ t ∈ ts, p t.1 = false) → ∀ t ∈ tops (ts.map .tok), p t = false := by
    intro p hp t ht
    rw [tops_toks] at ht
    obtain ⟨u, hu, rfl⟩ := mem_map.mp ht
    exact hp u hu
  have hor := htops isOr fun t ht => (hplain t ht).1.1.2
  have hand := htops isAnd fun t ht => (hplain t ht).1.2
  refine ⟨ts.map .tok, reads_toks fun t ht => (hplain t ht).1.1.1, ?_, fun _ => hor⟩
  rw [readTrees, combine, splitOnP_eq_singleton (atTop_valued v hor), any_cons, any_nil,
    Bool.or_false, splitOnP_eq_singleton (atTop_valued v hand), all_cons, all_nil, Bool.and_true]
  cases ts with
  | nil => exact absurd rfl hne
  | cons t ts =>
    have hnot : isNot t.1 = false := (hplain t (mem_cons_self ..)).2
    have hflat : flatAll (.tok t :: ts.map .tok) = t :: ts := flatAll_toks (t :: ts)
    rw [map_cons, valued, operand, if_neg (by simp [hnot]), map_cons, valued_fst, hflat]

/-- A constant is read as its value. -/
theorem readsAs_constant (hplain : (ts.all fun t => isPlain t.1) = true)
    (hconstant : constant (ts.map fst) = some x) : ReadsAs v ts x true := by
  have hne : ts ≠ [] := by
    rintro rfl
    cases hconstant
  have hatom := readsAs_atom (v := v) hne hplain
  rw [atom, hconstant] at hatom
  exact hatom

end ReadsAs

end SqlBoolean
