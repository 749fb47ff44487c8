import FraiseQL.CacheKey

/-! The compact text of a JSON value determines the value. A number ends where no more of its characters
follow, everything else at its own closing symbol, and the first character says what kind of value it is. -/

namespace FraiseQL.Json

open CacheKey (Held HeldItems HeldEntries numberText_inj)
open PrefixCode String

/-! ### Strings and numbers -/

def jsonLetters : List (Char × Char) :=
  [('"', '"'), ('\\', '\\'), ('\x08', 'b'), ('\x0c', 'f'), ('\n', 'n'), ('\r', 'r'), ('\t', 't')]

def controlCode (c : Char) : List Char := ['0', '0', hexDigit (c.toNat / 16), hexDigit (c.toNat % 16)]

theorem controlCode_decodes : Decodes (fun c => c.toNat < 32) controlCode := by
  intro c d hc hd x y heq
  simp only [controlCode, List.cons_append, List.cons.injEq, List.nil_append, true_and] at heq
  obtain ⟨hhigh, hlow, hxy⟩ := heq
  have hdiv := DebugText.digitChar_inj (by omega) (by omega) hhigh
  have hmod := DebugText.digitChar_inj (by omega) (by omega) hlow
  refine ⟨Char.ext (UInt32.toNat_inj.mp ?_), hxy⟩
  show c.toNat = d.toNat
  omega

theorem escapeChar_escaped (c : Char) :
    Escaped jsonLetters (fun c => c.toNat < 32) controlCode c (escapeChar c) := by
  unfold escapeChar
  split_ifs with hq hs hb hf hn hr ht hcode
  · exact .letter _ (by simp [hq, jsonLetters])
  · exact .letter _ (by simp [hs, jsonLetters])
  · exact .letter _ (by simp [hb, jsonLetters])
  · exact .letter _ (by simp [hf, jsonLetters])
  · exact .letter _ (by simp [hn, jsonLetters])
  · exact .letter _ (by simp [hr, jsonLetters])
  · exact .letter _ (by simp [ht, jsonLetters])
  · exact .code hcode
  · exact .plain hq hs

theorem quote_toList (s : String) : (quote s).toList = '"' :: s.toList.flatMap escapeChar ++ ['"'] := by
  have hbody : (String.ofList (s.toList.flatMap escapeChar)).toList = s.toList.flatMap escapeChar :=
    toList_ofList
  rw [quote, toList_append, toList_append, hbody]
  rfl

theorem quote_decodes : Decodes (fun _ => True) fun s => (quote s).toList := by
  have hquote : (fun s => (quote s).toList) = fun s : String => '"' :: s.toList.flatMap escapeChar ++ ['"'] := by
    funext s
    exact quote_toList s
  rw [hquote]
  exact literal_decodes (by decide) (by decide) controlCode_decodes escapeChar_escaped

theorem isNumberChar_numberText (n : JsonNumber) : ∀ c ∈ (numberText n).toList, isNumberChar c = true := by
  cases n with
  | float t => exact t.valid.2.1
  | int n =>
    intro c hc
    have hdigits : ∀ {m : Nat}, c ∈ Nat.toDigits 10 m → isNumberChar c = true := by
      intro m hmem
      rw [isNumberChar, Nat.isDigit_of_mem_toDigits (by decide) (by decide) hmem]
      rfl
    rw [numberText] at hc
    cases hvalue : n.value with
    | ofNat m =>
      rw [hvalue, natText_toList] at hc
      exact hdigits hc
    | negSucc m =>
      rw [hvalue, negText_toList, List.mem_cons] at hc
      obtain rfl | hmem := hc
      · decide
      · exact hdigits hmem

theorem numberText_ne_nil (n : JsonNumber) : (numberText n).toList ≠ [] := by
  cases n with
  | float t => exact t.valid.1
  | int n =>
    rw [numberText]
    cases hvalue : n.value with
    | ofNat m =>
      rw [natText_toList]
      exact Nat.toDigits_ne_nil
    | negSucc m =>
      rw [negText_toList]
      exact List.cons_ne_nil _ _

/-- What stands after a value: nothing that could belong to a number. -/
def Stops (x : List Char) : Prop := ∀ c ∈ x.head?, ¬isNumberChar c = true

/-! ### Kinds of values -/

/-- The kind of a value, by its first character. -/
def kindOfChar (c : Char) : Nat :=
  if c = 'n' then 0 else if c = 't' then 1 else if c = 'f' then 2 else if c = '"' then 3
  else if c = '[' then 4 else if c = '\x7b' then 5 else 6

def kind : Json → Nat
  | .null => 0
  | .bool b => if b then 1 else 2
  | .str _ => 3
  | .arr _ => 4
  | .obj _ => 5
  | .num _ => 6

theorem kindOfChar_number {c : Char} (h : isNumberChar c = true) : kindOfChar c = 6 := by
  have hne : ∀ {d : Char}, isNumberChar d = false → c ≠ d := by
    rintro d hd rfl
    rw [h] at hd
    cases hd
  rw [kindOfChar, if_neg (hne (by decide)), if_neg (hne (by decide)), if_neg (hne (by decide)),
    if_neg (hne (by decide)), if_neg (hne (by decide)), if_neg (hne (by decide))]

theorem joined_toList (s : String) (ss : List String) :
    (String.intercalate "," (s :: ss)).toList = s.toList ++ ss.flatMap fun s => ',' :: s.toList := by
  induction ss generalizing s with
  | nil => rw [intercalate_singleton, List.flatMap_nil, List.append_nil]
  | cons t ts ih =>
    rw [intercalate_cons_cons, toList_append, toList_append, ih, List.flatMap_cons,
      List.append_assoc]
    rfl

/-- The items after the first, with the symbol that closes them. -/
def moreItems (items : List Json) (rest : List Char) : List Char :=
  (itemTexts items).flatMap (fun s => ',' :: s.toList) ++ ']' :: rest

def moreEntries (entries : List (String × Json)) (rest : List Char) : List Char :=
  (entryTexts entries).flatMap (fun s => ',' :: s.toList) ++ '\x7d' :: rest

theorem moreItems_cons (item : Json) (items : List Json) (rest : List Char) :
    moreItems (item :: items) rest = ',' :: ((text item).toList ++ moreItems items rest) := by
  simp only [moreItems, itemTexts, List.flatMap_cons, List.cons_append, List.append_assoc]

theorem moreEntries_cons (key : String) (value : Json) (entries : List (String × Json)) (rest : List Char) :
    moreEntries ((key, value) :: entries) rest =
      ',' :: ((quote key).toList ++ ':' :: ((text value).toList ++ moreEntries entries rest)) := by
  simp only [moreEntries, entryTexts, List.flatMap_cons, List.cons_append, List.append_assoc,
    toList_append]
  rfl

theorem stops_moreItems (items : List Json) (rest : List Char) : Stops (moreItems items rest) := by
  cases items with
  | nil =>
    rintro c ⟨⟩
    decide
  | cons item items =>
    rw [moreItems_cons]
    rintro c ⟨⟩
    decide

theorem stops_moreEntries (entries : List (String × Json)) (rest : List Char) :
    Stops (moreEntries entries rest) := by
  cases entries with
  | nil =>
    rintro c ⟨⟩
    decide
  | cons e entries =>
    rw [moreEntries_cons]
    rintro c ⟨⟩
    decide

theorem text_arr_nil (rest : List Char) : (text (.arr [])).toList ++ rest = '[' :: ']' :: rest := rfl

theorem text_arr_cons (item : Json) (items : List Json) (rest : List Char) :
    (text (.arr (item :: items))).toList ++ rest = '[' :: ((text item).toList ++ moreItems items rest) := by
  rw [text, toList_append, toList_append, itemTexts, joined_toList]
  simp only [moreItems, List.append_assoc]
  rfl

theorem text_obj_nil (rest : List Char) : (text (.obj [])).toList ++ rest = '\x7b' :: '\x7d' :: rest := rfl

theorem text_obj_cons (key : String) (value : Json) (entries : List (String × Json)) (rest : List Char) :
    (text (.obj ((key, value) :: entries))).toList ++ rest =
      '\x7b' :: ((quote key).toList ++ ':' :: ((text value).toList ++ moreEntries entries rest)) := by
  rw [text, toList_append, toList_append, entryTexts, joined_toList, toList_append,
    toList_append]
  simp only [moreEntries, List.append_assoc]
  rfl

theorem text_start (v : Json) : ∃ c cs, (text v).toList = c :: cs ∧ c ≠ ']' ∧ kindOfChar c = kind v := by
  cases v with
  | null => exact ⟨_, _, rfl, by decide, rfl⟩
  | bool b => cases b <;> exact ⟨_, _, rfl, by decide, rfl⟩
  | num n =>
    obtain ⟨c, cs, hchars⟩ := List.exists_cons_of_ne_nil (numberText_ne_nil n)
    have hc := isNumberChar_numberText n c (hchars ▸ List.mem_cons_self)
    refine ⟨c, cs, by rw [text]; exact hchars, ?_, kindOfChar_number hc⟩
    rintro rfl
    cases hc
  | str s => exact ⟨_, _, by rw [text, quote_toList]; rfl, by decide, rfl⟩
  | arr items =>
    refine ⟨'[', (String.intercalate "," (itemTexts items)).toList ++ [']'], ?_, by decide, rfl⟩
    rw [text, toList_append, toList_append]
    rfl
  | obj entries =>
    refine ⟨'\x7b', (String.intercalate "," (entryTexts entries)).toList ++ ['\x7d'], ?_, by decide, rfl⟩
    rw [text, toList_append, toList_append]
    rfl

theorem kind_eq_of_text {v w : Json} {x y : List Char} (heq : (text v).toList ++ x = (text w).toList ++ y) :
    kind v = kind w := by
  obtain ⟨c, cs, hv, _, hc⟩ := text_start v
  obtain ⟨d, ds, hw, _, hd⟩ := text_start w
  rw [hv, hw] at heq
  rw [← hc, ← hd, (List.cons.inj heq).1]

theorem text_ne_close (v : Json) (x y : List Char) : (text v).toList ++ x ≠ ']' :: y := by
  obtain ⟨c, cs, hv, hc, _⟩ := text_start v
  rw [hv]
  intro heq
  exact hc (List.cons.inj heq).1

/-! ### The text determines the value -/

mutual

theorem text_decodes : ∀ (v w : Json), Held v → Held w → ∀ x y, Stops x → Stops y →
    (text v).toList ++ x = (text w).toList ++ y → v = w ∧ x = y
  | .null, w, _, _, x, y, _, _, heq => by
    have hkind := kind_eq_of_text heq
    cases w with
    | null => exact ⟨rfl, List.append_cancel_left heq⟩
    | bool b => cases b <;> cases hkind
    | _ => cases hkind
  | .bool b, w, _, _, x, y, _, _, heq => by
    have hkind := kind_eq_of_text heq
    cases w with
    | bool b' =>
      obtain rfl : b = b' := by
        cases b <;> cases b' <;> first | rfl | cases hkind
      exact ⟨rfl, List.append_cancel_left heq⟩
    | _ => cases b <;> cases hkind
  | .num n, w, hv, hw, x, y, hx, hy, heq => by
    have hkind := kind_eq_of_text heq
    cases w with
    | num n' =>
      rw [text, text] at heq
      obtain ⟨htext, hxy⟩ := run_of_stops (fun c => isNumberChar c = true) _ _ x y
        (isNumberChar_numberText n) (isNumberChar_numberText n') hx hy heq
      rw [numberText_inj hv hw (toList_inj.mp htext)]
      exact ⟨rfl, hxy⟩
    | bool b => cases b <;> cases hkind
    | _ => cases hkind
  | .str s, w, _, _, x, y, _, _, heq => by
    have hkind := kind_eq_of_text heq
    cases w with
    | str s' =>
      rw [text, text] at heq
      obtain ⟨rfl, hxy⟩ := quote_decodes s s' trivial trivial x y heq
      exact ⟨rfl, hxy⟩
    | bool b => cases b <;> cases hkind
    | _ => cases hkind
  | .arr [], w, _, _, x, y, _, _, heq => by
    have hkind := kind_eq_of_text heq
    cases w with
    | arr items =>
      cases items with
      | nil => exact ⟨rfl, List.append_cancel_left heq⟩
      | cons item items =>
        rw [text_arr_nil, text_arr_cons] at heq
        exact absurd (List.cons.inj heq).2.symm (text_ne_close _ _ _)
    | bool b => cases b <;> cases hkind
    | _ => cases hkind
  | .arr (v :: vs), w, hv, hw, x, y, _, _, heq => by
    have hkind := kind_eq_of_text heq
    cases w with
    | arr items =>
      cases items with
      | nil =>
        rw [text_arr_nil, text_arr_cons] at heq
        exact absurd (List.cons.inj heq).2 (text_ne_close _ _ _)
      | cons w ws =>
        rw [Held, HeldItems] at hv hw
        rw [text_arr_cons, text_arr_cons] at heq
        obtain ⟨rfl, hrest⟩ := text_decodes v w hv.1 hw.1 _ _ (stops_moreItems vs x) (stops_moreItems ws y)
          (List.cons.inj heq).2
        obtain ⟨rfl, hxy⟩ := moreItems_decodes vs ws hv.2 hw.2 x y hrest
        exact ⟨rfl, hxy⟩
    | bool b => cases b <;> cases hkind
    | _ => cases hkind
  | .obj [], w, _, _, x, y, _, _, heq => by
    have hkind := kind_eq_of_text heq
    cases w with
    | obj entries =>
      cases entries with
      | nil => exact ⟨rfl, List.append_cancel_left heq⟩
      | cons e entries =>
        rw [text_obj_nil, text_obj_cons, quote_toList] at heq
        exact absurd (List.cons.inj (List.cons.inj heq).2).1 (by decide)
    | bool b => cases b <;> cases hkind
    | _ => cases hkind
  | .obj ((k, v) :: es), w, hv, hw, x, y, _, _, heq => by
    have hkind := kind_eq_of_text heq
    cases w with
    | obj entries =>
      cases entries with
      | nil =>
        rw [text_obj_nil, text_obj_cons, quote_toList] at heq
        exact absurd (List.cons.inj (List.cons.inj heq).2).1 (by decide)
      | cons e fs =>
        obtain ⟨l, w⟩ := e
        rw [Held, HeldEntries] at hv hw
        rw [text_obj_cons, text_obj_cons] at heq
        obtain ⟨rfl, hvalue⟩ := quote_decodes k l trivial trivial _ _ (List.cons.inj heq).2
        obtain ⟨rfl, hrest⟩ := text_decodes v w hv.2.1 hw.2.1 _ _ (stops_moreEntries es x)
          (stops_moreEntries fs y) (List.cons.inj hvalue).2
        obtain ⟨rfl, hxy⟩ := moreEntries_decodes es fs hv.2.2 hw.2.2 x y hrest
        exact ⟨rfl, hxy⟩
    | bool b => cases b <;> cases hkind
    | _ => cases hkind

theorem moreItems_decodes : ∀ (vs ws : List Json), HeldItems vs → HeldItems ws → ∀ x y,
    moreItems vs x = moreItems ws y → vs = ws ∧ x = y
  | [], [], _, _, x, y, heq => ⟨rfl, (List.cons.inj heq).2⟩
  | [], w :: ws, _, _, x, y, heq | v :: vs, [], _, _, x, y, heq => by
    rw [moreItems_cons] at heq
    exact absurd (List.cons.inj heq).1 (by decide)
  | v :: vs, w :: ws, hv, hw, x, y, heq => by
    rw [HeldItems] at hv hw
    rw [moreItems_cons, moreItems_cons] at heq
    obtain ⟨rfl, hrest⟩ := text_decodes v w hv.1 hw.1 _ _ (stops_moreItems vs x) (stops_moreItems ws y)
      (List.cons.inj heq).2
    obtain ⟨rfl, hxy⟩ := moreItems_decodes vs ws hv.2 hw.2 x y hrest
    exact ⟨rfl, hxy⟩

theorem moreEntries_decodes : ∀ (es fs : List (String × Json)), HeldEntries es → HeldEntries fs → ∀ x y,
    moreEntries es x = moreEntries fs y → es = fs ∧ x = y
  | [], [], _, _, x, y, heq => ⟨rfl, (List.cons.inj heq).2⟩
  | [], (l, w) :: fs, _, _, x, y, heq | (k, v) :: es, [], _, _, x, y, heq => by
    rw [moreEntries_cons] at heq
    exact absurd (List.cons.inj heq).1 (by decide)
  | (k, v) :: es, (l, w) :: fs, hv, hw, x, y, heq => by
    rw [HeldEntries] at hv hw
    rw [moreEntries_cons, moreEntries_cons] at heq
    obtain ⟨rfl, hvalue⟩ := quote_decodes k l trivial trivial _ _ (List.cons.inj heq).2
    obtain ⟨rfl, hrest⟩ := text_decodes v w hv.1 hw.1 _ _ (stops_moreEntries es x) (stops_moreEntries fs y)
      (List.cons.inj hvalue).2
    obtain ⟨rfl, hxy⟩ := moreEntries_decodes es fs hv.2 hw.2 x y hrest
    exact ⟨rfl, hxy⟩

end

theorem text_injective {v w : Json} (hv : Held v) (hw : Held w) (h : text v = text w) : v = w := by
  refine (text_decodes v w hv hw [] [] ?_ ?_ (by rw [h])).1
  · exact fun _ hc => nomatch hc
  · exact fun _ hc => nomatch hc

end FraiseQL.Json
