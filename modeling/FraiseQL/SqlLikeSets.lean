import FraiseQL.SqlLike
import Mathlib.Data.List.Infix

/-! LIKE without an escape character, where brackets may enclose a set of characters. A text that is written with
escapes all the same stands for itself only when it has nothing to escape: a shortest match of the pattern shows one
backslash for every escape, and no bracket for a set. -/

namespace SqlLike

open List Nat

variable (same : Char → Char → Bool) (member : List Char → Char → Bool)

/-- What a pattern is made of. -/
inductive Item where
  | any
  | one
  | char (c : Char)
  | set (content : List Char)
  deriving DecidableEq

/-- The items of a pattern, with the content read so far inside brackets. A bracket that is not closed makes no
pattern. -/
def items (brackets : Bool) : Option (List Char) → List Char → Option (List Item)
  | none, [] => some []
  | some _, [] => none
  | some content, c :: p =>
    if c = ']' then (items brackets none p).map (.set content :: ·)
    else items brackets (some (content ++ [c])) p
  | none, c :: p =>
    if c = '%' then (items brackets none p).map (.any :: ·)
    else if c = '_' then (items brackets none p).map (.one :: ·)
    else if c = '[' ∧ brackets = true then items brackets (some []) p
    else (items brackets none p).map (.char c :: ·)

def matchItems : List Item → List Char → Bool
  | [] => List.isEmpty
  | .any :: is => fun t => t.tails.any (matchItems is)
  | .one :: is => one (fun _ => true) (matchItems is)
  | .char c :: is => one (same c) (matchItems is)
  | .set content :: is => one (member content) (matchItems is)

/-- Whether a text matches a pattern without escapes. -/
def setMatch (brackets : Bool) (p t : List Char) : Bool := (items brackets none p).any (matchItems same member · t)

/-- A character of a pattern without sets. -/
def itemOf (c : Char) : Item := if c = '%' then .any else if c = '_' then .one else .char c

variable {brackets : Bool} {p : List Char}

theorem items_plain (hp : brackets = true → '[' ∉ p) : items brackets none p = some (p.map itemOf) := by
  induction p with
  | nil => rfl
  | cons c p ih =>
    have hrest := ih fun hb hmem => hp hb (mem_cons_of_mem c hmem)
    have hopen : ¬(c = '[' ∧ brackets = true) := by
      rintro ⟨rfl, hb⟩
      exact hp hb mem_cons_self
    rw [items, if_neg hopen, hrest, map_cons, itemOf]
    split_ifs <;> rfl

theorem matchItems_plain (p : List Char) : matchItems same member (p.map itemOf) = likeMatch same none p := by
  induction p with
  | nil => rfl
  | cons c p ih =>
    rw [map_cons, itemOf]
    by_cases hany : c = '%'
    · subst hany
      rw [if_pos rfl, likeMatch_any same none nofun, ← ih]
      rfl
    · rw [if_neg hany]
      by_cases hone : c = '_'
      · subst hone
        rw [if_pos rfl, matchItems, ih]
        rfl
      · rw [if_neg hone, likeMatch_plain same none nofun hany hone, ← ih]
        rfl

/-- Without sets it is LIKE without an escape character. -/
theorem setMatch_plain (hp : brackets = true → '[' ∉ p) : setMatch same member brackets p = likeMatch same none p := by
  funext t
  rw [setMatch, items_plain hp, Option.any_some, matchItems_plain]

/-! ### Shortest matches -/

/-- A match in which a wildcard for texts takes nothing and every character stands for itself. -/
inductive Picks : List Item → List Char → Prop where
  | nil : Picks [] []
  | any {is m} : Picks is m → Picks (.any :: is) m
  | one {is m} : Picks is m → Picks (.one :: is) ('_' :: m)
  | char {c is m} : Picks is m → Picks (.char c :: is) (c :: m)
  | set {content x is m} : member content x = true → Picks is m → Picks (.set content :: is) (x :: m)

variable {same member}

variable {is : List Item} {m : List Char}

theorem Picks.matchItems (hsame : ∀ c, same c c = true) (h : Picks member is m) :
    matchItems same member is m = true := by
  induction h with
  | nil => rfl
  | @any is m _ ih => exact any_eq_true.mpr ⟨m, (mem_tails m m).mpr (suffix_refl m), ih⟩
  | one _ ih => exact ih
  | @char c _ _ _ ih =>
    rw [SqlLike.matchItems, SqlLike.one, hsame, ih]
    rfl
  | set hmember _ ih =>
    rw [SqlLike.matchItems, SqlLike.one, hmember, ih]
    rfl

variable {t : List Char}

theorem exists_picks (h : matchItems same member is t = true) : ∃ m, Picks member is m ∧ m.length ≤ t.length := by
  induction is generalizing t with
  | nil => exact ⟨[], .nil, zero_le _⟩
  | cons i is ih =>
    cases i with
    | any =>
      obtain ⟨u, hu, hmatch⟩ := any_eq_true.mp h
      obtain ⟨m, hm, hlength⟩ := ih hmatch
      exact ⟨m, .any hm, le_trans hlength (List.IsSuffix.length_le ((mem_tails u t).mp hu))⟩
    | one =>
      cases t with
      | nil => cases h
      | cons x t =>
        have hrest : matchItems same member is t = true := h
        obtain ⟨m, hm, hlength⟩ := ih hrest
        exact ⟨'_' :: m, .one hm, succ_le_succ hlength⟩
    | char c =>
      cases t with
      | nil => cases h
      | cons x t =>
        obtain ⟨m, hm, hlength⟩ := ih (Bool.and_eq_true_iff.mp h).2
        exact ⟨c :: m, .char hm, succ_le_succ hlength⟩
    | set content =>
      cases t with
      | nil => cases h
      | cons x t =>
        obtain ⟨hmember, hrest⟩ := Bool.and_eq_true_iff.mp h
        obtain ⟨m, hm, hlength⟩ := ih hrest
        exact ⟨x :: m, .set hmember hm, succ_le_succ hlength⟩

/-! ### Counting characters -/

def isSet : Item → Bool
  | .set _ => true
  | _ => false

def setCount (is : List Item) : Nat := is.countP isSet

@[simp] theorem setCount_set (content : List Char) (is : List Item) :
    setCount (.set content :: is) = setCount is + 1 := countP_cons_of_pos rfl

@[simp] theorem setCount_any (is : List Item) : setCount (.any :: is) = setCount is :=
  countP_cons_of_neg Bool.false_ne_true

@[simp] theorem setCount_one (is : List Item) : setCount (.one :: is) = setCount is :=
  countP_cons_of_neg Bool.false_ne_true

@[simp] theorem setCount_char (c : Char) (is : List Item) : setCount (.char c :: is) = setCount is :=
  countP_cons_of_neg Bool.false_ne_true

theorem Picks.count_le (h : Picks member is m) (z : Char) : is.count (.char z) ≤ m.count z := by
  induction h with
  | nil => exact le_refl 0
  | any _ ih => rwa [count_cons_of_ne (by simp)]
  | one _ ih =>
    rw [count_cons_of_ne (by simp), count_cons]
    omega
  | @char c _ _ _ ih =>
    rw [count_cons, count_cons]
    simp only [beq_iff_eq, Item.char.injEq]
    omega
  | set _ _ ih =>
    rw [count_cons_of_ne (by simp), count_cons]
    omega

/-- A bracket of a shortest match is a character of the pattern or taken from a set. -/
theorem Picks.count_brackets (h : Picks member is m) :
    m.count '[' + m.count ']' ≤ is.count (.char '[') + is.count (.char ']') + setCount is := by
  induction h with
  | nil => exact le_refl 0
  | any _ ih => simpa using ih
  | one _ ih => simpa using ih
  | @char c _ _ _ ih =>
    simp only [count_cons, beq_iff_eq, Item.char.injEq, setCount_char]
    omega
  | @set content x is _ _ _ ih =>
    have hchar : ∀ c, (Item.set content :: is).count (.char c) = is.count (.char c) := fun c =>
      count_cons_of_ne (by simp)
    rw [hchar, hchar, setCount_set, count_cons, count_cons]
    have hone : (if x == '[' then 1 else 0) + (if x == ']' then 1 else 0) ≤ 1 := by
      by_cases hx : x = '['
      · subst hx
        decide
      · rw [if_neg (by simpa using hx)]
        split <;> decide
    omega

/-- Every closing bracket of a pattern is a character or closes a set, and an opening one is no character. -/
theorem items_brackets {st : Option (List Char)} (h : items true st p = some is) :
    p.count ']' = is.count (.char ']') + setCount is ∧ is.count (.char '[') = 0 := by
  induction p generalizing st is with
  | nil =>
    cases st with
    | none =>
      obtain rfl := Option.some.inj h
      exact ⟨rfl, rfl⟩
    | some content => cases h
  | cons c p ih =>
    cases st with
    | none =>
      rw [items] at h
      split_ifs at h with hany hone hopen
      · obtain ⟨is, his, rfl⟩ := Option.map_eq_some_iff.mp h
        subst hany
        simpa using ih his
      · obtain ⟨is, his, rfl⟩ := Option.map_eq_some_iff.mp h
        subst hone
        simpa using ih his
      · obtain ⟨rfl, -⟩ := hopen
        simpa using ih h
      · obtain ⟨is, his, rfl⟩ := Option.map_eq_some_iff.mp h
        obtain ⟨hclose, hnone⟩ := ih his
        have hc : c ≠ '[' := fun hc => hopen ⟨hc, rfl⟩
        constructor
        · simp only [count_cons, beq_iff_eq, Item.char.injEq, setCount_char, hclose]
          omega
        · rw [count_cons_of_ne (by simpa using hc), hnone]
    | some content =>
      rw [items] at h
      split_ifs at h with hclosed
      · obtain ⟨is, his, rfl⟩ := Option.map_eq_some_iff.mp h
        obtain ⟨hclose, hnone⟩ := ih his
        subst hclosed
        rw [count_cons_self, count_cons_of_ne (by simp), count_cons_of_ne (by simp), setCount_set,
          hclose, hnone]
        exact ⟨rfl, rfl⟩
      · rw [count_cons_of_ne hclosed]
        exact ih h

/-! ### A text between wildcards -/

/-- Two characters are the same when they have the same key. -/
def sameKey (key : Char → Char) (c x : Char) : Bool := decide (key c = key x)

/-- A text in another one, at its start or end where nothing may come before or after. -/
def StandsIn (before after : Bool) (u t : List Char) : Prop :=
  ∃ pre post, t = pre ++ (u ++ post) ∧ (before = false → pre = []) ∧ (after = false → post = [])

/-- A pattern of a text, with wildcards before and after. -/
def wildText (before after : Bool) (w : List Char) : List Char :=
  (if before then ['%'] else []) ++ (w ++ if after then ['%'] else [])

theorem afterLiteral_iff (key : Char → Char) (s t rest : List Char) :
    afterLiteral (sameKey key) s t = some rest ↔ ∃ mid, t = mid ++ rest ∧ mid.map key = s.map key := by
  induction s generalizing t with
  | nil => simp [afterLiteral, map_eq_nil_iff]
  | cons c s ih =>
    cases t with
    | nil =>
      constructor
      · rintro ⟨⟩
      · rintro ⟨mid, hmid, hkey⟩
        obtain ⟨rfl, -⟩ := append_eq_nil_iff.mp hmid.symm
        cases hkey
    | cons x t =>
      rw [afterLiteral, sameKey]
      by_cases hx : key c = key x
      · rw [if_pos (decide_eq_true hx), ih]
        constructor
        · rintro ⟨mid, rfl, hkey⟩
          exact ⟨x :: mid, rfl, by rw [map_cons, map_cons, hkey, hx]⟩
        · rintro ⟨mid, hmid, hkey⟩
          cases mid with
          | nil => cases hkey
          | cons y mid =>
            obtain ⟨rfl, rfl⟩ := cons.inj hmid
            exact ⟨mid, rfl, (cons.inj hkey).2⟩
      · rw [if_neg (by simpa using hx)]
        constructor
        · rintro ⟨⟩
        · rintro ⟨mid, hmid, hkey⟩
          cases mid with
          | nil => cases hkey
          | cons y mid =>
            obtain ⟨rfl, rfl⟩ := cons.inj hmid
            exact absurd (cons.inj hkey).1.symm hx

variable {before after : Bool} {v : List Char}

theorem standsIn_map_iff (key : Char → Char) :
    StandsIn before after (v.map key) (t.map key) ↔ ∃ pre mid post, t = pre ++ (mid ++ post) ∧
      mid.map key = v.map key ∧ (before = false → pre = []) ∧ (after = false → post = []) := by
  constructor
  · rintro ⟨pre, post, ht, hpre, hpost⟩
    obtain ⟨pre, rest, rfl, rfl, hrest⟩ := map_eq_append_iff.mp ht
    obtain ⟨mid, post, rfl, hmid, rfl⟩ := map_eq_append_iff.mp hrest
    exact ⟨pre, mid, post, rfl, hmid, fun h => map_eq_nil_iff.mp (hpre h),
      fun h => map_eq_nil_iff.mp (hpost h)⟩
  · rintro ⟨pre, mid, post, rfl, hmid, hpre, hpost⟩
    refine ⟨pre.map key, post.map key, ?_, fun h => by rw [hpre h]; rfl, fun h => by rw [hpost h]; rfl⟩
    rw [map_append, map_append, hmid]

/-- A pattern that stands for a text is matched by the texts that have it where the wildcards allow. -/
theorem likeMatch_wildText (key : Char → Char) {escape : Option Char} (hescape : escape ≠ some '%') {w : List Char}
    (hw : Literal (sameKey key) escape w v) (before after : Bool) (t : List Char) :
    likeMatch (sameKey key) escape (wildText before after w) t = true ↔
      StandsIn before after (v.map key) (t.map key) := by
  have hafter : ∀ u, likeMatch (sameKey key) escape (w ++ if after then ['%'] else []) u = true ↔
      ∃ mid post, u = mid ++ post ∧ mid.map key = v.map key ∧ (after = false → post = []) := by
    intro u
    rw [hw, Option.any_eq_true]
    have hrest : ∀ post, likeMatch (sameKey key) escape (if after then ['%'] else []) post = true ↔
        (after = false → post = []) := by
      intro post
      cases after with
      | true =>
        rw [if_pos rfl, likeMatch_any _ _ hescape]
        simp only [reduceCtorEq, false_implies, iff_true]
        exact any_eq_true.mpr ⟨[], (mem_tails _ _).mpr nil_suffix, rfl⟩
      | false =>
        rw [if_neg Bool.false_ne_true]
        exact isEmpty_iff.trans (by simp)
    constructor
    · rintro ⟨post, hpost, hmatch⟩
      obtain ⟨mid, rfl, hmid⟩ := (afterLiteral_iff key v u post).mp hpost
      exact ⟨mid, post, rfl, hmid, (hrest post).mp hmatch⟩
    · rintro ⟨mid, post, rfl, hmid, hpost⟩
      exact ⟨post, (afterLiteral_iff key v _ post).mpr ⟨mid, rfl, hmid⟩, (hrest post).mpr hpost⟩
  rw [standsIn_map_iff, wildText]
  cases before with
  | true =>
    rw [if_pos rfl, singleton_append, likeMatch_any _ _ hescape, any_eq_true]
    constructor
    · rintro ⟨u, hu, hmatch⟩
      obtain ⟨pre, rfl⟩ := (mem_tails _ _).mp hu
      obtain ⟨mid, post, rfl, hmid, hpost⟩ := (hafter u).mp hmatch
      exact ⟨pre, mid, post, rfl, hmid, nofun, hpost⟩
    · rintro ⟨pre, mid, post, rfl, hmid, -, hpost⟩
      exact ⟨mid ++ post, (mem_tails _ _).mpr (suffix_append _ _),
        (hafter _).mpr ⟨mid, post, rfl, hmid, hpost⟩⟩
  | false =>
    rw [if_neg Bool.false_ne_true, nil_append, hafter]
    constructor
    · rintro ⟨mid, post, rfl, hmid, hpost⟩
      exact ⟨[], mid, post, rfl, hmid, fun _ => rfl, hpost⟩
    · rintro ⟨pre, mid, post, rfl, hmid, hpre, hpost⟩
      obtain rfl := hpre rfl
      exact ⟨mid, post, rfl, hmid, hpost⟩

/-! ### Texts that need no escape -/

variable {z : Char}

theorem count_escaped {e : Char} (hz : z ≠ e) (v : List Char) : (escaped e v).count z = v.count z := by
  induction v with
  | nil => rfl
  | cons c v ih =>
    have hcons : escaped e (c :: v) = (if c = e ∨ c = '%' ∨ c = '_' then [e, c] else [c]) ++ escaped e v := rfl
    rw [hcons, count_append, ih]
    split
    · rw [count_cons_of_ne hz.symm, count_cons, count_cons, count_nil]
      omega
    · rw [count_cons, count_cons, count_nil]
      omega

theorem count_escape (e : Char) (v : List Char) :
    (escaped e v).count e = v.count e + v.countP fun c => decide (c = e ∨ c = '%' ∨ c = '_') := by
  induction v with
  | nil => rfl
  | cons c v ih =>
    have hcons : escaped e (c :: v) = (if c = e ∨ c = '%' ∨ c = '_' then [e, c] else [c]) ++ escaped e v := rfl
    rw [hcons, count_append, ih, count_cons, countP_cons]
    by_cases hc : c = e ∨ c = '%' ∨ c = '_'
    · rw [if_pos hc, decide_eq_true hc, if_pos rfl, count_cons_self, count_cons, count_nil]
      omega
    · rw [if_neg hc, decide_eq_false hc, if_neg Bool.false_ne_true, count_cons, count_nil]
      omega

theorem count_eq_of_map {ask : Char → Char} (hz : ∀ c, ask c = ask z → c = z)
    (hmap : m.map ask = v.map ask) : m.count z = v.count z := by
  have hcount : ∀ l : List Char, l.count z = (l.map ask).count (ask z) := by
    intro l
    induction l with
    | nil => rfl
    | cons c l ih =>
      rw [map_cons, count_cons, count_cons, ih]
      by_cases hc : c = z
      · rw [hc]
        simp
      · rw [if_neg (by simpa using hc), if_neg (by simpa using fun h => hc (hz c h))]
  rw [hcount, hcount, hmap]

/-- A text of the same length that a text stands in. -/
theorem StandsIn.eq_of_length {u : List Char} (h : StandsIn before after u t)
    (hlength : t.length ≤ u.length) : t = u := by
  obtain ⟨pre, post, rfl, -, -⟩ := h
  rw [length_append, length_append] at hlength
  obtain rfl := length_eq_zero_iff.mp (show pre.length = 0 by omega)
  obtain rfl := length_eq_zero_iff.mp (show post.length = 0 by omega)
  rw [nil_append, append_nil]

theorem StandsIn.refl (before after : Bool) (u : List Char) : StandsIn before after u u :=
  ⟨[], [], by rw [append_nil, nil_append], fun _ => rfl, fun _ => rfl⟩

theorem count_wildText (hz : z ≠ '%') (before after : Bool) (w : List Char) :
    (wildText before after w).count z = w.count z := by
  have hwild : ∀ b : Bool, (if b then ['%'] else []).count z = 0 := by
    intro b
    cases b with
    | true => exact count_eq_zero.mpr (by simpa using hz)
    | false => rfl
  rw [wildText, count_append, count_append, hwild, hwild, Nat.zero_add, Nat.add_zero]

/-- Without an escape character, a text written with escapes stands for itself only when there is nothing to escape
and no set to open. -/
theorem plain_of_exact {key ask : Char → Char} (hask : ∀ z ∈ ['\\', '[', ']'], ∀ c, ask c = ask z → c = z)
    (hexact : ∀ t, setMatch (sameKey key) member brackets (wildText before after (escaped '\\' v)) t = true ↔
      StandsIn before after (v.map ask) (t.map ask)) :
    ∀ c ∈ v, c ≠ '\\' ∧ c ≠ '%' ∧ c ≠ '_' ∧ (brackets = true → c ≠ '[') := by
  obtain ⟨is, his, hmatch⟩ := (Option.any_eq_true _ _).mp ((hexact v).mpr (.refl _ _ _))
  obtain ⟨m, hpicks, hlength⟩ := exists_picks hmatch
  have hself : setMatch (sameKey key) member brackets (wildText before after (escaped '\\' v)) m = true :=
    (Option.any_eq_true _ _).mpr ⟨is, his, hpicks.matchItems fun _ => decide_eq_true rfl⟩
  have hmap : m.map ask = v.map ask := ((hexact m).mp hself).eq_of_length (by simpa using hlength)
  have hcount : ∀ z ∈ ['\\', '[', ']'], m.count z = v.count z := fun z hz => count_eq_of_map (hask z hz) hmap
  have hopen : brackets = true → '[' ∉ v := by
    rintro rfl
    obtain ⟨hclose, hnone⟩ := items_brackets his
    have hle := hpicks.count_brackets
    rw [count_wildText (by decide), count_escaped (by decide)] at hclose
    rw [hnone, hcount '[' (by simp), hcount ']' (by simp)] at hle
    refine count_eq_zero.mp ?_
    omega
  have hplain : brackets = true → '[' ∉ wildText before after (escaped '\\' v) := by
    intro hb
    rw [← count_eq_zero, count_wildText (by decide), count_escaped (by decide), count_eq_zero]
    exact hopen hb
  have hspecial : (v.countP fun c => decide (c = '\\' ∨ c = '%' ∨ c = '_')) = 0 := by
    have hitems : is = (wildText before after (escaped '\\' v)).map itemOf :=
      Option.some.inj (his.symm.trans (items_plain hplain))
    have hle := hpicks.count_le '\\'
    rw [hcount '\\' (by simp), hitems] at hle
    have hchar : ∀ p : List Char, p.count '\\' ≤ (p.map itemOf).count (itemOf '\\') := by
      intro p
      exact count_le_count_map (x := '\\')
    have hpattern := hchar (wildText before after (escaped '\\' v))
    have hitem : itemOf '\\' = .char '\\' := rfl
    rw [hitem, count_wildText (by decide), count_escape] at hpattern
    omega
  intro c hc
  have hnot := countP_eq_zero.mp hspecial c hc
  simp only [decide_eq_true_eq, not_or] at hnot
  exact ⟨hnot.1, hnot.2.1, hnot.2.2, fun hb hopened => hopen hb (hopened ▸ hc)⟩

/-! ### Two ways to compare -/

section Keys

variable {key ask : Char → Char}

theorem map_eq_iff_of_told {v mid : List Char} (hcoarse : ∀ c x, ask c = ask x → key c = key x)
    (htold : ∀ c ∈ v, ∀ x, key c = key x → ask c = ask x) : mid.map key = v.map key ↔ mid.map ask = v.map ask := by
  induction v generalizing mid with
  | nil => rw [map_nil, map_nil, map_eq_nil_iff, map_eq_nil_iff]
  | cons c v ih =>
    obtain ⟨hc, hv⟩ := forall_mem_cons.mp htold
    cases mid with
    | nil => simp
    | cons x mid =>
      have hhead : key x = key c ↔ ask x = ask c :=
        ⟨fun h => (hc x h.symm).symm, fun h => hcoarse x c h⟩
      rw [map_cons, map_cons, map_cons, map_cons, cons.injEq, cons.injEq, hhead, ih hv]

/-- The texts a text stands in are the same for both exactly when the first way tells its characters apart as the
second one does. -/
theorem standsIn_iff_told (hcoarse : ∀ c x, ask c = ask x → key c = key x) (before after : Bool) (v : List Char) :
    (∀ t : List Char, StandsIn before after (v.map key) (t.map key) ↔ StandsIn before after (v.map ask) (t.map ask)) ↔
      ∀ c ∈ v, ∀ x, key c = key x → ask c = ask x := by
  constructor
  · intro hsame c hc x hx
    obtain ⟨front, back, rfl⟩ := append_of_mem hc
    have hkey : (front ++ x :: back).map key = (front ++ c :: back).map key := by
      rw [map_append, map_append, map_cons, map_cons, hx]
    have hstands := (hsame (front ++ x :: back)).mp (by rw [hkey]; exact .refl _ _ _)
    have hask := hstands.eq_of_length (by simp)
    rw [map_append, map_append, map_cons, map_cons] at hask
    exact (cons.inj (append_cancel_left hask)).1.symm
  · intro htold t
    rw [standsIn_map_iff, standsIn_map_iff]
    simp only [map_eq_iff_of_told hcoarse htold]

end Keys

theorem matchFrom_map {same : Char → Char → Bool} {escape : Option Char} {f : Char → Char}
    (hescape : ∀ c, escape = some (f c) ↔ escape = some c) (hany : ∀ c, f c = '%' ↔ c = '%')
    (hone : ∀ c, f c = '_' ↔ c = '_') (b : Bool) (p t : List Char) :
    matchFrom same escape b (p.map f) (t.map f) = matchFrom (fun c x => same (f c) (f x)) escape b p t := by
  induction p generalizing b t with
  | nil =>
    cases b with
    | true => rfl
    | false => cases t <;> rfl
  | cons c p ih =>
    have hcons : ∀ test test' : Char → Bool, (∀ x, test (f x) = test' x) →
        one test (matchFrom same escape false (p.map f)) (t.map f) =
          one test' (matchFrom (fun c x => same (f c) (f x)) escape false p) t := by
      intro test test' htest
      cases t with
      | nil => rfl
      | cons x t =>
        rw [map_cons, one, one, htest, ih]
    cases b with
    | true => exact hcons _ _ fun _ => rfl
    | false =>
      rw [map_cons, matchFrom, matchFrom]
      by_cases hesc : escape = some c
      · rw [if_pos ((hescape c).mpr hesc), if_pos hesc, ih]
      · rw [if_neg (fun h => hesc ((hescape c).mp h)), if_neg hesc]
        by_cases hc : c = '%'
        · rw [if_pos ((hany c).mpr hc), if_pos hc, map_tails, any_map]
          congr 1
          funext u
          exact ih false u
        · rw [if_neg (fun h => hc ((hany c).mp h)), if_neg hc]
          refine hcons _ _ fun x => ?_
          rw [decide_eq_decide.mpr (hone c)]

end SqlLike
