import FraiseQL.DebugText
import FraiseQL.QueryConditions
import Mathlib.Data.List.Sort

/-! The keys of the row cache (`cache/key.rs`), as the sequence of calls on the hasher: each `write` is one
token, which is how the hasher takes it. A token determines nothing by itself; what the sequence as a whole
determines is the subject here. -/

namespace FraiseQL.CacheKey

open DebugText PrefixCode WhereGenerator List Nat
open Json (natText_toList negText_toList)

/-- A call on the hasher. The bytes of a `write` are given by their text. -/
inductive HashToken where
  | bytes (text : String)
  | u8 (n : Nat)
  | u32 (n : Nat)
  | usize (n : Nat)
  | isize (n : Nat)
  deriving DecidableEq

/-! ### JSON values -/

/-- `keys.sort_unstable()`, with the values hashed along. -/
def sortKeys (entries : List (String × List HashToken)) : List (String × List HashToken) :=
  entries.mergeSort fun a b => decide (a.1 ≤ b.1)

mutual

def hashJsonValue : Json → List HashToken
  | .null => [.u8 0]
  | .bool b => [.u8 1, .u8 b.toNat]
  | .num n => [.u8 2, .bytes (Json.numberText n)]
  | .str s => [.u8 3, .bytes s]
  | .arr items => .u8 4 :: .usize items.length :: hashItems items
  | .obj entries =>
    .u8 5 :: .usize entries.length ::
      (sortKeys (hashEntries entries)).flatMap fun e => .bytes e.1 :: e.2

def hashItems : List Json → List HashToken
  | [] => []
  | item :: items => hashJsonValue item ++ hashItems items

def hashEntries : List (String × Json) → List (String × List HashToken)
  | [] => []
  | (key, value) :: entries => (key, hashJsonValue value) :: hashEntries entries

end

/-! ### Clauses -/

/-- `hash_where_operator`: the discriminant, and the content of an extended operator as it is printed. -/
def hashWhereOperator (pr : Printer) (op : WhereOperator) : List HashToken :=
  .isize op.ctorIdx :: match op with
    | .extended inner => [.bytes (String.ofList (debugExtended pr inner))]
    | _ => []

mutual

/-- `hash_where_clause`. A native condition takes the branch of the unknown variants. -/
def hashWhereClause (pr : Printer) : WhereClause → List HashToken
  | .field path op value =>
    .u8 'F'.toNat :: .usize path.length :: path.flatMap (fun segment => [.bytes segment, .u8 0]) ++
      hashWhereOperator pr op ++ hashJsonValue value
  | .and clauses => .u8 'A'.toNat :: .usize clauses.length :: hashClauses pr clauses
  | .or clauses => .u8 'O'.toNat :: .usize clauses.length :: hashClauses pr clauses
  | .not clause => .u8 'N'.toNat :: hashWhereClause pr clause
  | .nativeField column pgCast op value =>
    [.u8 '?'.toNat, .bytes (String.ofList (debugNativeField pr column pgCast op value))]

def hashClauses (pr : Printer) : List WhereClause → List HashToken
  | [] => []
  | clause :: clauses => hashWhereClause pr clause ++ hashClauses pr clauses

end

/-- `direction as u8`. -/
def directionByte : OrderDirection → Nat
  | .asc => 0
  | .desc => 1

/-- One sort key. -/
def hashOrderByClause (cc : WhereFilter.CharCase) (clause : OrderByClause) : List HashToken :=
  [.bytes (WhereFilter.toSnakeCase cc clause.field), .u8 (directionByte clause.direction)]

def hashOrderBy (cc : WhereFilter.CharCase) (orderBy : Option (List OrderByClause)) : List HashToken :=
  match orderBy.filter fun clauses => !clauses.isEmpty with
  | some clauses => .u8 1 :: .usize clauses.length :: clauses.flatMap (hashOrderByClause cc)
  | none => [.u8 0]

/-! ### Calls -/

/-- The arguments of a cached read: `execute_where_query` without a projection, `execute_with_projection`
with or without one. A projection is its template. -/
structure Call where
  view : String
  projection : Option String
  whereClause : Option WhereClause
  limit : Option Nat
  offset : Option Nat
  orderBy : Option (List OrderByClause)
  schemaVersion : String

def hashWhere (pr : Printer) : Option WhereClause → List HashToken
  | some clause => .u8 1 :: hashWhereClause pr clause
  | none => [.u8 0]

/-- An optional `u32`. -/
def hashNumber : Option Nat → List HashToken
  | some n => [.u8 1, .u32 n]
  | none => [.u8 0]

/-- An optional projection template. -/
def hashProjection : Option String → List HashToken
  | some template => [.u8 1, .bytes template]
  | none => [.u8 0]

/-- What both keys end with. -/
def hashRest (pr : Printer) (cc : WhereFilter.CharCase) (call : Call) : List HashToken :=
  .bytes "\x00w:" :: hashWhere pr call.whereClause ++ .bytes "\x00l:" :: hashNumber call.limit ++
    .bytes "\x00o:" :: hashNumber call.offset ++ .bytes "\x00b:" :: hashOrderBy cc call.orderBy ++
      [.bytes "\x00s:", .bytes call.schemaVersion]

def generateViewQueryKey (pr : Printer) (cc : WhereFilter.CharCase) (call : Call) : List HashToken :=
  .bytes "v:" :: .bytes call.view :: hashRest pr cc call

def generateProjectionQueryKey (pr : Printer) (cc : WhereFilter.CharCase) (call : Call) : List HashToken :=
  .bytes "p:" :: .bytes call.view :: .bytes "\x00j:" :: hashProjection call.projection ++ hashRest pr cc call

/-! ### What a JSON value's tokens determine -/

mutual

/-- A value as `serde_json` holds it: the keys of an object are in map order, and a float is printed with a
point or an exponent. -/
def Held : Json → Prop
  | .num (.float t) => '.' ∈ t.text.toList ∨ 'e' ∈ t.text.toList
  | .arr items => HeldItems items
  | .obj entries => entries.Pairwise (fun a b => a.1 < b.1) ∧ HeldEntries entries
  | _ => True

def HeldItems : List Json → Prop
  | [] => True
  | item :: items => Held item ∧ HeldItems items

def HeldEntries : List (String × Json) → Prop
  | [] => True
  | (_, value) :: entries => Held value ∧ HeldEntries entries

end

theorem toDigits_inj {m n : Nat} (h : toDigits 10 m = toDigits 10 n) : m = n := by
  have hm := ofDigitChars_ten_toDigits (n := m)
  rw [h, ofDigitChars_ten_toDigits] at hm
  exact hm.symm

theorem notMem_toDigits {c : Char} (hc : c.isDigit = false) (n : Nat) : c ∉ toDigits 10 n := by
  intro hmem
  rw [isDigit_of_mem_toDigits (by omega) (by omega) hmem] at hc
  cases hc

theorem intText_inj {m n : Int} (h : toString m = toString n) : m = n := by
  have hlist := congrArg String.toList h
  cases m with
  | ofNat m =>
    rw [natText_toList] at hlist
    cases n with
    | ofNat n =>
      rw [natText_toList] at hlist
      rw [toDigits_inj hlist]
    | negSucc n =>
      rw [negText_toList] at hlist
      exact absurd (hlist ▸ mem_cons_self) (notMem_toDigits (c := '-') (by decide) m)
  | negSucc m =>
    rw [negText_toList] at hlist
    cases n with
    | ofNat n =>
      rw [natText_toList] at hlist
      exact absurd (hlist ▸ mem_cons_self) (notMem_toDigits (c := '-') (by decide) n)
    | negSucc n =>
      rw [negText_toList] at hlist
      have hsucc := toDigits_inj (cons.inj hlist).2
      rw [succ.inj hsucc]

/-- The text of an integer has neither a point nor an exponent. -/
theorem notMem_intText {c : Char} (hdigit : c.isDigit = false) (hsign : c ≠ '-') (n : Int) :
    c ∉ (toString n).toList := by
  cases n with
  | ofNat n =>
    rw [natText_toList]
    exact notMem_toDigits hdigit n
  | negSucc n =>
    rw [negText_toList, mem_cons]
    rintro (hc | hmem)
    · exact hsign hc
    · exact notMem_toDigits hdigit _ hmem

theorem numberText_ne {n : JsonInt} {t : FloatText} (ht : Held (.num (.float t)))
    (h : toString n.value = t.text) : False := by
  rw [Held, ← h] at ht
  rcases ht with hpoint | hexp
  · exact notMem_intText (by decide) (by decide) _ hpoint
  · exact notMem_intText (by decide) (by decide) _ hexp

theorem numberText_inj {m n : JsonNumber} (hm : Held (.num m)) (hn : Held (.num n))
    (h : Json.numberText m = Json.numberText n) : m = n := by
  cases m with
  | int m =>
    cases n with
    | int n =>
      obtain ⟨m, hrange⟩ := m
      obtain ⟨n, hrange'⟩ := n
      obtain rfl := intText_inj h
      rfl
    | float t => exact (numberText_ne hn h).elim
  | float t =>
    cases n with
    | int n => exact (numberText_ne hm h.symm).elim
    | float t' =>
      obtain ⟨t, hvalid⟩ := t
      obtain ⟨t', hvalid'⟩ := t'
      obtain rfl : t = t' := h
      rfl

/-- The entries of an object in map order are hashed in that order. -/
theorem sortKeys_hashEntries {entries : List (String × Json)} (h : entries.Pairwise fun a b => a.1 < b.1) :
    sortKeys (hashEntries entries) = hashEntries entries := by
  have hkeys : (hashEntries entries).map (·.1) = entries.map (·.1) := by
    induction entries with
    | nil => rfl
    | cons e entries ih => exact congrArg (e.1 :: ·) (ih (pairwise_cons.mp h).2)
  have hsorted : (hashEntries entries).Pairwise fun a b => a.1 < b.1 := by
    rw [← pairwise_map (f := fun e : String × List HashToken => e.1), hkeys, pairwise_map]
    exact h
  refine mergeSort_of_pairwise (hsorted.imp ?_)
  intro a b hlt
  exact decide_eq_true (String.lt_asymm hlt)

mutual

theorem hashJsonValue_decodes : ∀ (v w : Json), Held v → Held w → ∀ x y,
    hashJsonValue v ++ x = hashJsonValue w ++ y → v = w ∧ x = y
  | .null, w, _, _, x, y, heq => by
    cases w <;> simp_all [hashJsonValue]
  | .bool b, w, _, _, x, y, heq => by
    cases w with
    | bool b' => cases b <;> cases b' <;> simp_all [hashJsonValue]
    | _ => simp [hashJsonValue] at heq
  | .num n, w, hv, hw, x, y, heq => by
    cases w with
    | num n' =>
      obtain ⟨htext, hxy⟩ : Json.numberText n = Json.numberText n' ∧ x = y := by
        simpa [hashJsonValue] using heq
      exact ⟨by rw [numberText_inj hv hw htext], hxy⟩
    | _ => simp [hashJsonValue] at heq
  | .str s, w, _, _, x, y, heq => by
    cases w <;> simp_all [hashJsonValue]
  | .arr items, w, hv, hw, x, y, heq => by
    cases w with
    | arr items' =>
      rw [Held] at hv hw
      obtain ⟨hlength, hitems⟩ : items.length = items'.length ∧
          hashItems items ++ x = hashItems items' ++ y := by
        simpa [hashJsonValue] using heq
      obtain ⟨rfl, hxy⟩ := hashItems_decodes items items' hv hw hlength x y hitems
      exact ⟨rfl, hxy⟩
    | _ => simp [hashJsonValue] at heq
  | .obj entries, w, hv, hw, x, y, heq => by
    cases w with
    | obj entries' =>
      rw [Held] at hv hw
      simp only [hashJsonValue, sortKeys_hashEntries hv.1, sortKeys_hashEntries hw.1] at heq
      obtain ⟨hlength, hentries⟩ : entries.length = entries'.length ∧
          (hashEntries entries).flatMap (fun e => HashToken.bytes e.1 :: e.2) ++ x =
            (hashEntries entries').flatMap (fun e => HashToken.bytes e.1 :: e.2) ++ y := by
        simpa using heq
      obtain ⟨rfl, hxy⟩ := hashEntries_decodes entries entries' hv.2 hw.2 hlength x y hentries
      exact ⟨rfl, hxy⟩
    | _ => simp [hashJsonValue] at heq

theorem hashItems_decodes : ∀ (vs ws : List Json), HeldItems vs → HeldItems ws → vs.length = ws.length →
    ∀ x y, hashItems vs ++ x = hashItems ws ++ y → vs = ws ∧ x = y
  | [], [], _, _, _, x, y, heq => ⟨rfl, heq⟩
  | v :: vs, w :: ws, hv, hw, hlength, x, y, heq => by
    rw [HeldItems] at hv hw
    rw [hashItems, hashItems, append_assoc, append_assoc] at heq
    obtain ⟨rfl, hrest⟩ := hashJsonValue_decodes v w hv.1 hw.1 _ _ heq
    obtain ⟨rfl, hxy⟩ := hashItems_decodes vs ws hv.2 hw.2 (succ.inj hlength) x y hrest
    exact ⟨rfl, hxy⟩

theorem hashEntries_decodes : ∀ (es fs : List (String × Json)), HeldEntries es → HeldEntries fs →
    es.length = fs.length → ∀ x y,
    (hashEntries es).flatMap (fun e => HashToken.bytes e.1 :: e.2) ++ x =
      (hashEntries fs).flatMap (fun e => HashToken.bytes e.1 :: e.2) ++ y → es = fs ∧ x = y
  | [], [], _, _, _, x, y, heq => ⟨rfl, heq⟩
  | (k, v) :: es, (l, w) :: fs, hv, hw, hlength, x, y, heq => by
    rw [HeldEntries] at hv hw
    simp only [hashEntries, flatMap_cons, cons_append, append_assoc, cons.injEq,
      HashToken.bytes.injEq] at heq
    obtain ⟨rfl, heq⟩ := heq
    obtain ⟨rfl, hrest⟩ := hashJsonValue_decodes v w hv.1 hw.1 _ _ heq
    obtain ⟨rfl, hxy⟩ := hashEntries_decodes es fs hv.2 hw.2 (succ.inj hlength) x y hrest
    exact ⟨rfl, hxy⟩

end

/-! ### What a clause's tokens determine -/

mutual

/-- Every value compared with a JSON field is held as `serde_json` holds it. -/
def HeldClause : WhereClause → Prop
  | .field _ _ value => Held value
  | .and clauses => HeldClauses clauses
  | .or clauses => HeldClauses clauses
  | .not clause => HeldClause clause
  | .nativeField _ _ _ _ => True

def HeldClauses : List WhereClause → Prop
  | [] => True
  | clause :: clauses => HeldClause clause ∧ HeldClauses clauses

/-- The values compared with native columns, which are hashed as they are printed. -/
def nativeValues : WhereClause → List Json
  | .field _ _ _ => []
  | .and clauses => nativeValuesAll clauses
  | .or clauses => nativeValuesAll clauses
  | .not clause => nativeValues clause
  | .nativeField _ _ _ value => [value]

def nativeValuesAll : List WhereClause → List Json
  | [] => []
  | clause :: clauses => nativeValues clause ++ nativeValuesAll clauses

end

/-- The printed text tells the values of two lists apart. -/
def ToldApart (pr : Printer) (vs ws : List Json) : Prop :=
  ∀ v ∈ vs, ∀ w ∈ ws, pr.value v = pr.value w → v = w

theorem ToldApart.left {pr : Printer} {vs vs' ws ws' : List Json} (h : ToldApart pr (vs ++ vs') (ws ++ ws')) :
    ToldApart pr vs ws :=
  fun v hv w hw => h v (mem_append_left _ hv) w (mem_append_left _ hw)

theorem ToldApart.right {pr : Printer} {vs vs' ws ws' : List Json} (h : ToldApart pr (vs ++ vs') (ws ++ ws')) :
    ToldApart pr vs' ws' :=
  fun v hv w hw => h v (mem_append_right _ hv) w (mem_append_right _ hw)

theorem ctorIdx_inj {op op' : WhereOperator} (hplain : isExtended op = false)
    (hplain' : isExtended op' = false) (h : op.ctorIdx = op'.ctorIdx) : op = op' := by
  have hget : ∀ {o : WhereOperator}, isExtended o = false → plainOperators[o.ctorIdx]? = some o := by
    intro o ho
    cases o <;> first | rfl | cases ho
  have hop := hget hplain
  rw [h, hget hplain'] at hop
  exact (Option.some.inj hop).symm

theorem hashWhereOperator_plain (pr : Printer) {op : WhereOperator} (hplain : isExtended op = false) :
    hashWhereOperator pr op = [.isize op.ctorIdx] := by
  cases op with
  | extended inner => cases hplain
  | _ => rfl

theorem ctorIdx_plain {op : WhereOperator} (hplain : isExtended op = false) : op.ctorIdx < 64 := by
  cases op <;> first | decide | cases hplain

theorem hashWhereOperator_decodes (pr : Printer) : Decodes (fun _ => True) (hashWhereOperator pr) := by
  have hcases : ∀ o : WhereOperator, isExtended o = false ∨ ∃ inner, o = .extended inner := by
    intro o
    cases o with
    | extended inner => exact .inr ⟨inner, rfl⟩
    | _ => exact .inl rfl
  intro op op' _ _ x y heq
  rcases hcases op with hop | ⟨inner, rfl⟩
  · rw [hashWhereOperator_plain pr hop] at heq
    rcases hcases op' with hop' | ⟨inner', rfl⟩
    · rw [hashWhereOperator_plain pr hop'] at heq
      obtain ⟨hidx, hxy⟩ := cons.inj heq
      exact ⟨ctorIdx_inj hop hop' (HashToken.isize.inj hidx), hxy⟩
    · have hidx : op.ctorIdx = 64 := HashToken.isize.inj (cons.inj heq).1
      have hlt := ctorIdx_plain hop
      omega
  · rcases hcases op' with hop' | ⟨inner', rfl⟩
    · rw [hashWhereOperator_plain pr hop'] at heq
      have hidx : 64 = op'.ctorIdx := HashToken.isize.inj (cons.inj heq).1
      have hlt := ctorIdx_plain hop'
      omega
    · obtain ⟨htext, hxy⟩ := cons.inj (cons.inj heq).2
      have hchars := String.ofList_inj.mp (HashToken.bytes.inj htext)
      exact ⟨by rw [(debugExtended_decodes pr).injective trivial trivial hchars], hxy⟩

theorem segment_decodes :
    Decodes (fun _ => True) (fun segment : String => [HashToken.bytes segment, .u8 0]) := by
  intro s t _ _ x y heq
  obtain ⟨hbytes, hrest⟩ := cons.inj heq
  exact ⟨HashToken.bytes.inj hbytes, (cons.inj hrest).2⟩

theorem hashField_decodes (pr : Printer) {path path' : List String} {op op' : WhereOperator}
    {value value' : Json} (hv : Held value) (hw : Held value') {x y : List HashToken}
    (heq : hashWhereClause pr (.field path op value) ++ x =
      hashWhereClause pr (.field path' op' value') ++ y) :
    WhereClause.field path op value = .field path' op' value' ∧ x = y := by
  simp only [hashWhereClause, cons_append, append_assoc, cons.injEq, true_and,
    HashToken.usize.injEq] at heq
  obtain ⟨hlength, heq⟩ := heq
  obtain ⟨rfl, hop⟩ := segment_decodes.sequence path path' hlength (fun _ _ => trivial)
    (fun _ _ => trivial) _ _ heq
  obtain ⟨rfl, hvalue⟩ := hashWhereOperator_decodes pr op op' trivial trivial _ _ hop
  obtain ⟨rfl, hxy⟩ := hashJsonValue_decodes value value' hv hw x y hvalue
  exact ⟨rfl, hxy⟩

mutual

theorem hashWhereClause_decodes (pr : Printer) : ∀ (c d : WhereClause), HeldClause c → HeldClause d →
    ToldApart pr (nativeValues c) (nativeValues d) → ∀ x y,
    hashWhereClause pr c ++ x = hashWhereClause pr d ++ y → c = d ∧ x = y
  | .field path op value, d, hc, hd, _, x, y, heq => by
    cases d with
    | field path' op' value' =>
      rw [HeldClause] at hc hd
      exact hashField_decodes pr hc hd heq
    | _ => simp [hashWhereClause] at heq
  | .and clauses, d, hc, hd, htold, x, y, heq => by
    cases d with
    | and clauses' =>
      rw [HeldClause] at hc hd
      rw [nativeValues, nativeValues] at htold
      obtain ⟨hlength, hrest⟩ : clauses.length = clauses'.length ∧
          hashClauses pr clauses ++ x = hashClauses pr clauses' ++ y := by
        simpa [hashWhereClause] using heq
      obtain ⟨rfl, hxy⟩ := hashClauses_decodes pr clauses clauses' hc hd htold hlength x y hrest
      exact ⟨rfl, hxy⟩
    | _ => simp [hashWhereClause] at heq
  | .or clauses, d, hc, hd, htold, x, y, heq => by
    cases d with
    | or clauses' =>
      rw [HeldClause] at hc hd
      rw [nativeValues, nativeValues] at htold
      obtain ⟨hlength, hrest⟩ : clauses.length = clauses'.length ∧
          hashClauses pr clauses ++ x = hashClauses pr clauses' ++ y := by
        simpa [hashWhereClause] using heq
      obtain ⟨rfl, hxy⟩ := hashClauses_decodes pr clauses clauses' hc hd htold hlength x y hrest
      exact ⟨rfl, hxy⟩
    | _ => simp [hashWhereClause] at heq
  | .not clause, d, hc, hd, htold, x, y, heq => by
    cases d with
    | not clause' =>
      rw [HeldClause] at hc hd
      rw [nativeValues, nativeValues] at htold
      have hrest : hashWhereClause pr clause ++ x = hashWhereClause pr clause' ++ y := by
        simpa [hashWhereClause] using heq
      obtain ⟨rfl, hxy⟩ := hashWhereClause_decodes pr clause clause' hc hd htold x y hrest
      exact ⟨rfl, hxy⟩
    | _ => simp [hashWhereClause] at heq
  | .nativeField column pgCast op value, d, _, _, htold, x, y, heq => by
    cases d with
    | nativeField column' pgCast' op' value' =>
      rw [nativeValues, nativeValues] at htold
      obtain ⟨htext, hxy⟩ : debugNativeField pr column pgCast op value =
          debugNativeField pr column' pgCast' op' value' ∧ x = y := by
        simpa [hashWhereClause, String.ofList_inj] using heq
      obtain ⟨rfl, rfl, rfl, rfl⟩ := debugNativeField_inj pr
        (htold value (mem_singleton_self _) value' (mem_singleton_self _)) htext
      exact ⟨rfl, hxy⟩
    | _ => simp [hashWhereClause] at heq

theorem hashClauses_decodes (pr : Printer) : ∀ (cs ds : List WhereClause), HeldClauses cs → HeldClauses ds →
    ToldApart pr (nativeValuesAll cs) (nativeValuesAll ds) → cs.length = ds.length → ∀ x y,
    hashClauses pr cs ++ x = hashClauses pr ds ++ y → cs = ds ∧ x = y
  | [], [], _, _, _, _, x, y, heq => ⟨rfl, heq⟩
  | c :: cs, d :: ds, hc, hd, htold, hlength, x, y, heq => by
    rw [HeldClauses] at hc hd
    rw [nativeValuesAll, nativeValuesAll] at htold
    rw [hashClauses, hashClauses, append_assoc, append_assoc] at heq
    obtain ⟨rfl, hrest⟩ := hashWhereClause_decodes pr c d hc.1 hd.1 htold.left _ _ heq
    obtain ⟨rfl, hxy⟩ := hashClauses_decodes pr cs ds hc.2 hd.2 htold.right (succ.inj hlength) x y hrest
    exact ⟨rfl, hxy⟩

end

end FraiseQL.CacheKey
