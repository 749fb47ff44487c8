import FraiseQL.PrefixCode
import FraiseQL.WhereGenerator

/-! The text `{:?}` prints of strings, of the extended operators and of a native condition, and that it
determines what was printed. Which characters are printed as a code point follows the Unicode tables and is a
parameter, and so is the text of a JSON value, which its own library prints. -/

namespace FraiseQL.DebugText

open PrefixCode WhereGenerator List
open SqlLex (lit)

/-- What the printer takes from outside: the characters without a printed form, and JSON values. -/
structure Printer where
  unprintable : Char → Bool
  value : Json → List Char

/-- The digits of `{:x}`. -/
def hexDigits (n : Nat) : List Char := Nat.toDigits 16 n

/-- `char::escape_debug` in a string literal. -/
def escapeDebug (pr : Printer) (c : Char) : List Char :=
  if c = '\x00' then ['\\', '0']
  else if c = '\t' then ['\\', 't']
  else if c = '\r' then ['\\', 'r']
  else if c = '\n' then ['\\', 'n']
  else if c = '\\' then ['\\', '\\']
  else if c = '"' then ['\\', '"']
  else if pr.unprintable c then ['\\', 'u', '\x7b'] ++ hexDigits c.toNat ++ ['\x7d']
  else [c]

def debugStr (pr : Printer) (s : String) : List Char :=
  '"' :: s.toList.flatMap (escapeDebug pr) ++ ['"']

/-- The items of a list of strings, to its closing bracket. -/
def debugItems (pr : Printer) : List String → List Char
  | [] => [']']
  | [s] => debugStr pr s ++ [']']
  | s :: rest => debugStr pr s ++ [',', ' '] ++ debugItems pr rest

/-- The content of an extended operator. -/
def debugPayload (pr : Printer) : String ⊕ List String → List Char
  | .inl s => debugStr pr s
  | .inr ss => '[' :: debugItems pr ss

/-- The name and the content of an extended operator. -/
def extendedForm : ExtendedOperator → String × (String ⊕ List String)
  | .emailDomainEq s => ("EmailDomainEq", .inl s)
  | .emailDomainIn ss => ("EmailDomainIn", .inr ss)
  | .emailDomainEndswith s => ("EmailDomainEndswith", .inl s)
  | .emailLocalPartStartswith s => ("EmailLocalPartStartswith", .inl s)
  | .vinWmiEq s => ("VinWmiEq", .inl s)
  | .ibanCountryEq s => ("IbanCountryEq", .inl s)
  | .other display => ("Other", .inl display)

def debugExtended (pr : Printer) (op : ExtendedOperator) : List Char :=
  (extendedForm op).1.toList ++ '(' :: debugPayload pr (extendedForm op).2 ++ [')']

def debugOperator (pr : Printer) (op : WhereOperator) : List Char :=
  (debugName op).toList ++ match op with
    | .extended inner => '(' :: debugExtended pr inner ++ [')']
    | _ => []

/-- The cast of a native column. -/
def pgCastText : PgCast → String
  | .none => "" | .uuid => "uuid" | .int4 => "int4" | .int8 => "int8" | .int2 => "int2" | .bool => "bool"
  | .numeric => "numeric" | .float8 => "float8" | .float4 => "float4" | .timestamp => "timestamp"
  | .timestamptz => "timestamptz" | .date => "date" | .time => "time"

/-- A native condition. -/
def debugNativeField (pr : Printer) (column : String) (pgCast : PgCast) (op : WhereOperator) (value : Json) :
    List Char :=
  lit "NativeField \x7b column: " ++ debugStr pr column ++ lit ", pg_cast: " ++
    debugStr pr (pgCastText pgCast) ++ lit ", operator: " ++ debugOperator pr op ++ lit ", value: " ++
      pr.value value ++ lit " \x7d"

/-! ### Strings -/

theorem digitChar_inj {m n : Nat} (hm : m < 16) (hn : n < 16) (h : m.digitChar = n.digitChar) : m = n := by
  have hall : ∀ i j : Fin 16, i.val.digitChar = j.val.digitChar → i = j := by decide
  exact congrArg Fin.val (hall ⟨m, hm⟩ ⟨n, hn⟩ h)

theorem digitChar_ne_close {n : Nat} (hn : n < 16) : n.digitChar ≠ '\x7d' := by
  have hall : ∀ i : Fin 16, i.val.digitChar ≠ '\x7d' := by decide
  exact hall ⟨n, hn⟩

theorem hexDigits_eq (n : Nat) : hexDigits n =
    if n < 16 then [n.digitChar] else hexDigits (n / 16) ++ [(n % 16).digitChar] :=
  Nat.toDigits_eq_if (by omega)

theorem hexDigits_length_pos (n : Nat) : 0 < (hexDigits n).length :=
  Nat.length_toDigits_pos

theorem close_notMem_hexDigits (n : Nat) : '\x7d' ∉ hexDigits n := by
  induction n using Nat.strongRecOn with
  | _ n ih =>
    rw [hexDigits_eq]
    split_ifs with hlt
    · rw [mem_singleton]
      exact (digitChar_ne_close hlt).symm
    · rw [mem_append, mem_singleton]
      rintro (hmem | heq)
      · exact ih (n / 16) (by omega) hmem
      · exact digitChar_ne_close (by omega) heq.symm

theorem hexDigits_inj {m n : Nat} (h : hexDigits m = hexDigits n) : m = n := by
  induction m using Nat.strongRecOn generalizing n with
  | _ m ih =>
    rw [hexDigits_eq m, hexDigits_eq n] at h
    have hm := hexDigits_length_pos (m / 16)
    have hn := hexDigits_length_pos (n / 16)
    split_ifs at h with hltm hltn hltn
    · exact digitChar_inj hltm hltn (singleton_inj.mp h)
    · have hlength := congrArg length h
      rw [length_append, length_singleton, length_singleton] at hlength
      omega
    · have hlength := congrArg length h
      rw [length_append, length_singleton, length_singleton] at hlength
      omega
    · obtain ⟨hhigh, hlow⟩ := append_inj' h rfl
      have hdiv := ih (m / 16) (by omega) hhigh
      have hmod := digitChar_inj (by omega) (by omega) (singleton_inj.mp hlow)
      omega

/-- The letters of the short escapes. -/
def debugLetters : List (Char × Char) :=
  [('\x00', '0'), ('\t', 't'), ('\r', 'r'), ('\n', 'n'), ('\\', '\\'), ('"', '"')]

def codePoint (c : Char) : List Char := '\x7b' :: hexDigits c.toNat ++ ['\x7d']

theorem codePoint_decodes : Decodes (fun _ => True) codePoint := by
  intro c d _ _ x y heq
  have hrest : hexDigits c.toNat ++ '\x7d' :: x = hexDigits d.toNat ++ '\x7d' :: y := by
    simpa [codePoint] using heq
  obtain ⟨hhex, -, hxy⟩ := run_until (· ≠ '\x7d') _ _ x y
    (fun a hmem heq => close_notMem_hexDigits _ (heq ▸ hmem))
    (fun a hmem heq => close_notMem_hexDigits _ (heq ▸ hmem)) (by simp) (by simp) hrest
  exact ⟨Char.ext (UInt32.toNat_inj.mp (hexDigits_inj hhex)), hxy⟩

variable (pr : Printer)

theorem escapeDebug_escaped (c : Char) : Escaped debugLetters (fun _ => True) codePoint c (escapeDebug pr c) := by
  unfold escapeDebug
  split_ifs with h0 ht hr hn hs hq hu
  · exact .letter _ (by simp [h0, debugLetters])
  · exact .letter _ (by simp [ht, debugLetters])
  · exact .letter _ (by simp [hr, debugLetters])
  · exact .letter _ (by simp [hn, debugLetters])
  · exact .letter _ (by simp [hs, debugLetters])
  · exact .letter _ (by simp [hq, debugLetters])
  · exact .code trivial
  · exact .plain hq hs

theorem debugStr_decodes : Decodes (fun _ => True) (debugStr pr) :=
  literal_decodes (by decide) (by decide) codePoint_decodes (escapeDebug_escaped pr)

/-! ### Operators -/

theorem debugItems_decodes : Decodes (fun _ => True) (debugItems pr) := by
  have hstr := debugStr_decodes pr
  have hcons : ∀ s rest, ∃ c cs, debugItems pr (s :: rest) = debugStr pr s ++ c :: cs := by
    intro s rest
    cases rest with
    | nil => exact ⟨_, _, rfl⟩
    | cons t rest => exact ⟨',', ' ' :: debugItems pr (t :: rest), by simp [debugItems]⟩
  intro ss ts _ _ x y heq
  induction ss generalizing ts with
  | nil =>
    cases ts with
    | nil => exact ⟨rfl, (cons.inj heq).2⟩
    | cons t ts =>
      obtain ⟨c, cs, hc⟩ := hcons t ts
      rw [hc] at heq
      exact absurd (cons.inj heq).1 (by decide)
  | cons s ss ih =>
    cases ts with
    | nil =>
      obtain ⟨c, cs, hc⟩ := hcons s ss
      rw [hc] at heq
      exact absurd (cons.inj heq).1 (by decide)
    | cons t ts =>
      cases ss with
      | nil =>
        cases ts with
        | nil =>
          simp only [debugItems, append_assoc] at heq
          obtain ⟨rfl, hrest⟩ := hstr s t trivial trivial _ _ heq
          exact ⟨rfl, (cons.inj hrest).2⟩
        | cons t' ts =>
          simp only [debugItems, append_assoc] at heq
          obtain ⟨rfl, hrest⟩ := hstr s t trivial trivial _ _ heq
          exact absurd (cons.inj hrest).1 (by decide)
      | cons s' ss =>
        cases ts with
        | nil =>
          simp only [debugItems, append_assoc] at heq
          obtain ⟨rfl, hrest⟩ := hstr s t trivial trivial _ _ heq
          exact absurd (cons.inj hrest).1 (by decide)
        | cons t' ts =>
          simp only [debugItems, append_assoc] at heq
          obtain ⟨rfl, hrest⟩ := hstr s t trivial trivial _ _ heq
          obtain ⟨htail, hxy⟩ := ih (t' :: ts) (append_cancel_left hrest)
          exact ⟨by rw [htail], hxy⟩

theorem debugPayload_decodes : Decodes (fun _ => True) (debugPayload pr) := by
  intro a b _ _ x y heq
  cases a with
  | inl s =>
    cases b with
    | inl t =>
      obtain ⟨rfl, hxy⟩ := debugStr_decodes pr s t trivial trivial x y heq
      exact ⟨rfl, hxy⟩
    | inr ts => exact absurd (cons.inj heq).1 (by decide)
  | inr ss =>
    cases b with
    | inl t => exact absurd (cons.inj heq).1 (by decide)
    | inr ts =>
      obtain ⟨rfl, hxy⟩ := debugItems_decodes pr ss ts trivial trivial x y (cons.inj heq).2
      exact ⟨rfl, hxy⟩

theorem extendedForm_inj {op op' : ExtendedOperator} (h : extendedForm op = extendedForm op') : op = op' := by
  cases op <;> cases op' <;> simp_all [extendedForm]

theorem extendedForm_alphanum (op : ExtendedOperator) : ∀ c ∈ (extendedForm op).1.toList, c.isAlphanum = true := by
  cases op <;> simp [extendedForm]

theorem debugExtended_decodes : Decodes (fun _ => True) (debugExtended pr) := by
  intro op op' _ _ x y heq
  simp only [debugExtended, append_assoc, cons_append] at heq
  obtain ⟨hname, -, hrest⟩ := run_until (·.isAlphanum = true) _ _ _ _ (extendedForm_alphanum op)
    (extendedForm_alphanum op') (by decide) (by decide) heq
  obtain ⟨hpayload, hclose⟩ := debugPayload_decodes pr _ _ trivial trivial _ _ hrest
  refine ⟨extendedForm_inj (Prod.ext (String.toList_inj.mp hname) hpayload), ?_⟩
  exact (cons.inj hclose).2

/-- The operators without content, in the order of their declaration. -/
def plainOperators : List WhereOperator :=
  [.eq, .neq, .gt, .gte, .lt, .lte, .isIn, .nin, .contains, .icontains, .startswith, .istartswith, .endswith,
    .iendswith, .like, .ilike, .nlike, .nilike, .regex, .iregex, .nregex, .niregex, .isNull, .arrayContains,
    .arrayContainedBy, .arrayOverlaps, .lenEq, .lenGt, .lenLt, .lenGte, .lenLte, .lenNeq, .cosineDistance,
    .l2Distance, .l1Distance, .hammingDistance, .innerProduct, .jaccardDistance, .matches, .plainQuery,
    .phraseQuery, .websearchQuery, .isIPv4, .isIPv6, .isPrivate, .isPublic, .isLoopback, .inSubnet,
    .containsSubnet, .containsIP, .overlaps, .strictlyContains, .ancestorOf, .descendantOf, .matchesLquery,
    .matchesLtxtquery, .matchesAnyLquery, .depthEq, .depthNeq, .depthGt, .depthGte, .depthLt, .depthLte, .lca]

theorem plainOperators_find {op : WhereOperator} (hplain : isExtended op = false) :
    plainOperators.find? (fun o => debugName o = debugName op) = some op := by
  cases op <;> first | rfl | cases hplain

theorem debugName_inj {op op' : WhereOperator} (hplain : isExtended op = false)
    (hplain' : isExtended op' = false) (h : debugName op = debugName op') : op = op' := by
  have hfind := plainOperators_find hplain
  rw [h, plainOperators_find hplain'] at hfind
  exact (Option.some.inj hfind).symm

theorem debugName_alphanum (op : WhereOperator) : ∀ c ∈ (debugName op).toList, c.isAlphanum = true := by
  cases op <;> simp [debugName]

theorem debugOperator_plain {op : WhereOperator} (hplain : isExtended op = false) :
    debugOperator pr op = (debugName op).toList := by
  cases op with
  | extended inner => cases hplain
  | _ => exact append_nil _

theorem debugOperator_extended (inner : ExtendedOperator) (x : List Char) :
    debugOperator pr (.extended inner) ++ x =
      (debugName (.extended inner)).toList ++ '(' :: (debugExtended pr inner ++ ')' :: x) := by
  simp only [debugOperator, append_assoc, cons_append, nil_append]

/-- An operator is read up to the comma that follows it. -/
theorem debugOperator_closed (op op' : WhereOperator) (x y : List Char)
    (heq : debugOperator pr op ++ ',' :: x = debugOperator pr op' ++ ',' :: y) : op = op' ∧ x = y := by
  have hcases : ∀ o : WhereOperator, isExtended o = false ∨ ∃ inner, o = .extended inner := by
    intro o
    cases o with
    | extended inner => exact .inr ⟨inner, rfl⟩
    | _ => exact .inl rfl
  have hread := run_until (fun c : Char => c.isAlphanum = true)
  rcases hcases op with hop | ⟨inner, rfl⟩
  · rw [debugOperator_plain pr hop] at heq
    rcases hcases op' with hop' | ⟨inner', rfl⟩
    · rw [debugOperator_plain pr hop'] at heq
      obtain ⟨hname, -, hxy⟩ := hread _ _ _ _ (debugName_alphanum op) (debugName_alphanum op')
        (by decide) (by decide) heq
      exact ⟨debugName_inj hop hop' (String.toList_inj.mp hname), hxy⟩
    · rw [debugOperator_extended] at heq
      obtain ⟨-, hclose, -⟩ := hread _ _ _ _ (debugName_alphanum op) (debugName_alphanum _)
        (by decide) (by decide) heq
      cases hclose
  · rw [debugOperator_extended] at heq
    rcases hcases op' with hop' | ⟨inner', rfl⟩
    · rw [debugOperator_plain pr hop'] at heq
      obtain ⟨-, hclose, -⟩ := hread _ _ _ _ (debugName_alphanum _) (debugName_alphanum op')
        (by decide) (by decide) heq
      cases hclose
    · rw [debugOperator_extended] at heq
      obtain ⟨-, -, hrest⟩ := hread _ _ _ _ (debugName_alphanum _) (debugName_alphanum _)
        (by decide) (by decide) heq
      obtain ⟨rfl, hclose⟩ := debugExtended_decodes pr inner inner' trivial trivial _ _ hrest
      exact ⟨rfl, (cons.inj (cons.inj hclose).2).2⟩

/-! ### Native conditions -/

theorem pgCastText_inj {c d : PgCast} (h : pgCastText c = pgCastText d) : c = d := by
  have hfind : ∀ e, [PgCast.none, .uuid, .int4, .int8, .int2, .bool, .numeric, .float8, .float4, .timestamp,
      .timestamptz, .date, .time].find? (fun o => pgCastText o = pgCastText e) = some e := by
    intro e
    cases e <;> rfl
  have hc := hfind c
  rw [h, hfind d] at hc
  exact (Option.some.inj hc).symm

theorem debugNativeField_inj {column column' : String} {pgCast pgCast' : PgCast}
    {op op' : WhereOperator} {value value' : Json}
    (hvalue : pr.value value = pr.value value' → value = value')
    (h : debugNativeField pr column pgCast op value = debugNativeField pr column' pgCast' op' value') :
    column = column' ∧ pgCast = pgCast' ∧ op = op' ∧ value = value' := by
  simp only [debugNativeField, append_assoc, append_cancel_left_eq] at h
  obtain ⟨hcolumn, h⟩ := debugStr_decodes pr _ _ trivial trivial _ _ h
  rw [append_cancel_left_eq] at h
  obtain ⟨hcast, h⟩ := debugStr_decodes pr _ _ trivial trivial _ _ h
  rw [append_cancel_left_eq] at h
  obtain ⟨hop, h⟩ := debugOperator_closed pr op op' _ _ h
  have hlast : pr.value value ++ lit " \x7d" = pr.value value' ++ lit " \x7d" := append_cancel_left h
  rw [append_cancel_right_eq] at hlast
  exact ⟨hcolumn, pgCastText_inj hcast, hop, hvalue hlast⟩

end FraiseQL.DebugText
