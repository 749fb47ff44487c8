import Mathlib.Data.List.Basic

/-! Lexical structure of SQL text. A database's rules say which quotes it knows, in which of them a
backslash escapes, how a placeholder looks and what starts a comment; the lexer is a machine over the
characters that emits a token whenever one ends. A quoted token carries the text it denotes, so two texts
have the same structure when their tokens agree after `Token.erase`. Prefixed literals and dollar quotes
are not told apart from the words and symbols they are made of.

The main result is compositional: a text made of chunks is lexed chunk by chunk when each chunk is met at
the start of a token or begins with a character that ends every token. -/

namespace SqlLex

open List

/-- The characters of a string literal, as a list. The list is found by unification, so that evaluating a
closed text does not decode it. -/
def lit (s : String) {cs : List Char} (_ : s = String.ofList cs := by rfl) : List Char := cs

/-- Kinds of quotes: string literals and quoted identifiers. -/
inductive Quote where
  | single
  | double
  | backtick
  | bracket
  deriving DecidableEq

namespace Quote

def opener : Quote → Char
  | .single => '\''
  | .double => '"'
  | .backtick => '`'
  | .bracket => '['

def closer : Quote → Char
  | .bracket => ']'
  | q => q.opener

end Quote

/-- What a database's lexer decides. -/
structure Rules where
  quotes : List Quote
  /-- quotes inside which a backslash takes the next character -/
  escapes : List Quote
  sigil : Char
  /-- the word characters that continue a placeholder -/
  continues : Char → Bool
  hashComment : Bool
  /-- `--` starts a comment only before a blank -/
  dashNeedsBlank : Bool
  nestedComments : Bool

inductive Token where
  | word (cs : List Char)
  | op (cs : List Char)
  | symbol (c : Char)
  | placeholder (cs : List Char)
  | quoted (q : Quote) (content : List Char)
  | unterminated (q : Quote) (content : List Char)
  deriving DecidableEq

/-- A token up to the content of a literal or a quoted identifier. -/
def Token.erase : Token → Token
  | .quoted q _ => .quoted q []
  | .unterminated q _ => .unterminated q []
  | t => t

def Token.isPlaceholder : Token → Bool
  | .placeholder _ => true
  | _ => false

/-- Where the lexer stands. After a closing character the quote may still go on, when it is doubled. -/
inductive Mode where
  | start
  | word (cs : List Char)
  | op (cs : List Char)
  | placeholder (cs : List Char)
  | quoted (q : Quote) (content : List Char)
  | escaped (q : Quote) (content : List Char)
  | closing (q : Quote) (content : List Char)
  | dashes (cs : List Char)
  | lineComment
  | blockComment (depth : Nat) (last : Char)
  deriving DecidableEq

/-! ### Characters -/

def isBlank (c : Char) : Bool := c == ' ' || c == '\n' || c == '\t' || c == '\r'

def isWordChar (c : Char) : Bool := c.isAlphanum || c == '_' || decide (128 ≤ c.toNat)

def isOpChar (c : Char) : Bool :=
  match c with
  | '-' | '>' | '=' | '<' | '|' | '+' | '*' | '/' | '~' | '!' | '@' | '#' | '%' | '^' | '&' | '?' => true
  | _ => false

variable (r : Rules)

def quoteOf (c : Char) : Option Quote := r.quotes.find? fun q => q.opener = c

/-- Characters that end every token they follow. -/
def isSep (c : Char) : Bool :=
  !isWordChar c && c != '$' && !isOpChar c && r.quotes.all fun q => decide (q.closer ≠ c)

/-! ### The machine -/

/-- A character met at the start of a token. -/
def begin (c : Char) : Mode × List Token :=
  if isBlank c then (.start, [])
  else if isWordChar c then (.word [c], [])
  else match quoteOf r c with
    | some q => (.quoted q [], [])
    | none =>
      if c == r.sigil then (.placeholder [c], [])
      else if c == '#' && r.hashComment then (.lineComment, [])
      else if isOpChar c then (.op [c], [])
      else (.start, [.symbol c])

/-- A character that ends the tokens `ts` and begins the next one. -/
def next (ts : List Token) (c : Char) : Mode × List Token := ((begin r c).1, ts ++ (begin r c).2)

/-- The operator before a comment, if there is one. -/
def opToken : List Char → List Token
  | [] => []
  | cs => [.op cs]

def stepOp (cs : List Char) (c : Char) : Mode × List Token :=
  if isOpChar c then
    if c == '-' && cs.getLast? == some '-' then (.dashes cs.dropLast, [])
    else if c == '*' && cs.getLast? == some '/' then (.blockComment 1 ' ', opToken cs.dropLast)
    else (.op (cs ++ [c]), [])
  else next r [.op cs] c

def step : Mode → Char → Mode × List Token
  | .start, c => begin r c
  | .word cs, c => if isWordChar c || c == '$' then (.word (cs ++ [c]), []) else next r [.word cs] c
  | .op cs, c => stepOp r cs c
  | .placeholder cs, c =>
    if isWordChar c && r.continues c then (.placeholder (cs ++ [c]), [])
    else next r [.placeholder cs] c
  | .quoted q content, c =>
    if c == q.closer then (.closing q content, [])
    else if c == '\\' && decide (q ∈ r.escapes) then (.escaped q content, [])
    else (.quoted q (content ++ [c]), [])
  | .escaped q content, c => (.quoted q (content ++ [c]), [])
  | .closing q content, c =>
    if c == q.closer then (.quoted q (content ++ [c]), []) else next r [.quoted q content] c
  | .dashes cs, c =>
    if r.dashNeedsBlank && !isBlank c then stepOp r (cs ++ ['-', '-']) c
    else if c == '\n' then (.start, opToken cs)
    else (.lineComment, opToken cs)
  | .lineComment, c => if c == '\n' then (.start, []) else (.lineComment, [])
  | .blockComment depth last, c =>
    if last == '*' && c == '/' then
      if depth ≤ 1 then (.start, []) else (.blockComment (depth - 1) ' ', [])
    else if r.nestedComments && last == '/' && c == '*' then (.blockComment (depth + 1) ' ', [])
    else (.blockComment depth c, [])

def run : Mode → List Char → Mode × List Token
  | m, [] => (m, [])
  | m, c :: cs => ((run (step r m c).1 cs).1, (step r m c).2 ++ (run (step r m c).1 cs).2)

/-- The token the end of the text ends. -/
def flush : Mode → List Token
  | .word cs => [.word cs]
  | .op cs => [.op cs]
  | .placeholder cs => [.placeholder cs]
  | .quoted q content => [.unterminated q content]
  | .escaped q content => [.unterminated q content]
  | .closing q content => [.quoted q content]
  | .dashes cs => opToken cs
  | _ => []

/-- The tokens of a text. -/
def lex (cs : List Char) : List Token := (run r .start cs).2 ++ flush (run r .start cs).1

/-- The tokens up to the contents of literals and quoted identifiers. -/
def skeleton (cs : List Char) : List Token := (lex r cs).map Token.erase

/-! ### Composition -/

/-- Between two tokens, or at the end of one that the next separator ends. -/
def settled : Mode → Bool
  | .start | .word _ | .op _ | .placeholder _ => true
  | .closing q _ => decide (q ∈ r.quotes)
  | _ => false

theorem run_append (m : Mode) (a b : List Char) :
    run r m (a ++ b) = ((run r (run r m a).1 b).1, (run r m a).2 ++ (run r (run r m a).1 b).2) := by
  induction a generalizing m with
  | nil => rfl
  | cons c a ih => rw [cons_append, run, run, ih, append_assoc]

variable {r}

variable {m : Mode} {c : Char}

theorem step_sep (hm : settled r m = true) (hc : isSep r c = true) : step r m c = next r (flush m) c := by
  simp only [isSep, Bool.and_eq_true, Bool.not_eq_true', bne_iff_ne, all_eq_true,
    decide_eq_true_eq] at hc
  obtain ⟨⟨⟨hword, hdollar⟩, hop⟩, hclose⟩ := hc
  cases m with
  | start => rfl
  | word cs => simp [step, flush, hword, hdollar]
  | op cs => simp [step, stepOp, flush, hop]
  | placeholder cs => simp [step, flush, hword]
  | closing q content =>
    have hne : c ≠ q.closer := fun h => hclose q (of_decide_eq_true hm) h.symm
    simp [step, flush, hne]
  | _ => cases hm

/-- After a settled mode, a text that begins with a separator is lexed as from the start. -/
theorem run_of_sep (hm : settled r m = true) (hc : isSep r c = true) (cs : List Char) :
    run r m (c :: cs) = ((run r .start (c :: cs)).1, flush m ++ (run r .start (c :: cs)).2) := by
  rw [run, run, step_sep hm hc]
  show _ = ((run r (begin r c).1 cs).1, flush m ++ ((begin r c).2 ++ (run r (begin r c).1 cs).2))
  rw [next, append_assoc]

/-- The text settles after the given tokens; `fresh` texts end between two tokens. -/
structure Lexes (r : Rules) (cs : List Char) (ts : List Token) (fresh : Bool) : Prop where
  settles : settled r (run r .start cs).1 = true
  tokens : lex r cs = ts
  fresh : fresh = true → (run r .start cs).1 = .start

variable {ts : List Token} {f : Bool}

theorem Lexes.unfresh {cs : List Char} (h : Lexes r cs ts f) : Lexes r cs ts false :=
  ⟨h.settles, h.tokens, nofun⟩

/-- Whether a text begins with a separator. -/
def opens (r : Rules) : List Char → Bool
  | [] => false
  | c :: _ => isSep r c

variable {a : List Char}

/-- A text that ends between two tokens is lexed apart from what follows. -/
theorem Lexes.lex_append (ha : Lexes r a ts true) (b : List Char) : lex r (a ++ b) = ts ++ lex r b := by
  have hmode := ha.fresh rfl
  have hflush : flush .start = [] := rfl
  have htokens := ha.tokens
  rw [lex, hmode, hflush, append_nil] at htokens
  rw [lex, run_append, hmode, htokens, lex, append_assoc]

theorem Lexes.append {b : List Char} {us : List Token} {g : Bool} (ha : Lexes r a ts f)
    (hb : Lexes r b us g) (hlink : f = true ∨ opens r b = true) : Lexes r (a ++ b) (ts ++ us) g := by
  have hrun : run r .start (a ++ b) =
      ((run r .start b).1, (run r .start a).2 ++ (flush (run r .start a).1 ++ (run r .start b).2)) := by
    rw [run_append]
    rcases hlink with hf | hopen
    · rw [ha.fresh hf]
      simp [flush]
    · cases b with
      | nil => cases hopen
      | cons c b => rw [run_of_sep ha.settles hopen]
  refine ⟨?_, ?_, ?_⟩
  · rw [hrun]
    exact hb.settles
  · rw [lex, hrun, ← ha.tokens, ← hb.tokens, lex, lex]
    simp only [append_assoc]
  · intro hg
    rw [hrun]
    exact hb.fresh hg

/-- A closed text, checked by evaluation. -/
def settlesText (r : Rules) (cs : List Char) : Bool := settled r (run r .start cs).1

/-- Whether a text ends between two tokens. -/
def endsFresh (r : Rules) (cs : List Char) : Bool := decide ((run r .start cs).1 = .start)

theorem lexes_text {cs : List Char} (h : settlesText r cs = true) :
    Lexes r cs (lex r cs) (endsFresh r cs) :=
  ⟨h, rfl, fun hf => of_decide_eq_true hf⟩

/-- A part of a text with its tokens, whether it begins with a separator and whether it ends between two
tokens. -/
structure Chunk where
  chars : List Char
  tokens : List Token
  opens : Bool
  fresh : Bool

def Chunk.Valid (r : Rules) (c : Chunk) : Prop :=
  Lexes r c.chars c.tokens c.fresh ∧ (c.opens = true → SqlLex.opens r c.chars = true)

/-- Each chunk is met between two tokens or begins with a separator. -/
def linked : Bool → List Chunk → Bool
  | _, [] => true
  | fresh, c :: cs => (fresh || c.opens) && linked c.fresh cs

/-- Whether the chunks end between two tokens. -/
def freshAfter : Bool → List Chunk → Bool
  | fresh, [] => fresh
  | _, c :: cs => freshAfter c.fresh cs

theorem linked_append (f : Bool) (a b : List Chunk) :
    linked f (a ++ b) = (linked f a && linked (freshAfter f a) b) := by
  induction a generalizing f with
  | nil => rfl
  | cons c a ih => rw [cons_append, linked, linked, freshAfter, ih, Bool.and_assoc]

theorem freshAfter_append (f : Bool) (a b : List Chunk) :
    freshAfter f (a ++ b) = freshAfter (freshAfter f a) b := by
  induction a generalizing f with
  | nil => rfl
  | cons c a ih => exact ih c.fresh

variable {cs : List Chunk}

theorem Lexes.chunks (ha : Lexes r a ts f) (hvalid : ∀ c ∈ cs, c.Valid r) (hlinked : linked f cs = true) :
    Lexes r (a ++ cs.flatMap Chunk.chars) (ts ++ cs.flatMap Chunk.tokens) (freshAfter f cs) := by
  induction cs generalizing a ts f with
  | nil => simpa [freshAfter] using ha
  | cons c cs ih =>
    obtain ⟨hc, hopens⟩ := hvalid c (mem_cons_self ..)
    rw [linked, Bool.and_eq_true, Bool.or_eq_true] at hlinked
    have hac := ha.append hc (hlinked.1.imp_right hopens)
    have hrest := ih hac (fun c hmem => hvalid c (mem_cons_of_mem _ hmem)) hlinked.2
    simpa [freshAfter] using hrest

/-- A text made of linked chunks has the tokens of its chunks. -/
theorem lexes_linked (hvalid : ∀ c ∈ cs, c.Valid r) (hlinked : linked true cs = true) :
    Lexes r (cs.flatMap Chunk.chars) (cs.flatMap Chunk.tokens) (freshAfter true cs) := by
  have hnil : Lexes r [] [] true := ⟨rfl, rfl, fun _ => rfl⟩
  exact hnil.chunks hvalid hlinked

/-- A closed text as a chunk. -/
def Chunk.ofText (r : Rules) (cs : List Char) : Chunk := ⟨cs, lex r cs, SqlLex.opens r cs, endsFresh r cs⟩

theorem Chunk.ofText_valid {cs : List Char} (h : settlesText r cs = true) : (Chunk.ofText r cs).Valid r :=
  ⟨lexes_text h, fun hopen => hopen⟩

/-! ### Texts made of parts -/

section Parts

variable {π τ : Type}

/-- Parts with a separator between them. -/
def joined (sep : π) : List (List π) → List π
  | [] => []
  | [part] => part
  | part :: parts => part ++ sep :: joined sep parts

theorem joined_cons_cons (sep : π) (part next : List π) (parts : List (List π)) :
    joined sep (part :: next :: parts) = part ++ sep :: joined sep (next :: parts) := rfl

theorem joined_map (f : π → τ) (sep : π) (parts : List (List π)) :
    (joined sep parts).map f = joined (f sep) (parts.map (List.map f)) := by
  induction parts with
  | nil => rfl
  | cons part parts ih =>
    cases parts with
    | nil => rfl
    | cons next parts =>
      rw [joined_cons_cons, map_append, map_cons, ih]
      rfl

theorem joined_flatMap {f : π → List τ} {sep : π} {t : τ} (hsep : f sep = [t]) (parts : List (List π)) :
    (joined sep parts).flatMap f = joined t (parts.map (List.flatMap f)) := by
  induction parts with
  | nil => rfl
  | cons part parts ih =>
    cases parts with
    | nil => rfl
    | cons next parts =>
      rw [joined_cons_cons, flatMap_append, flatMap_cons, hsep, ih]
      rfl

theorem mem_joined {sep x : π} {parts : List (List π)} (h : ∃ part ∈ parts, x ∈ part) :
    x ∈ joined sep parts := by
  induction parts with
  | nil =>
    obtain ⟨_, hmem, _⟩ := h
    cases hmem
  | cons part parts ih =>
    obtain ⟨part', hmem, hx⟩ := h
    cases parts with
    | nil =>
      obtain rfl := mem_singleton.mp hmem
      exact hx
    | cons next parts =>
      rw [joined_cons_cons]
      rcases mem_cons.mp hmem with rfl | hmem
      · exact mem_append_left _ hx
      · exact mem_append_right _ (mem_cons_of_mem _ (ih ⟨part', hmem, hx⟩))

/-- A reading that goes through appends sees the joined parts through the parts. -/
theorem joined_congr {F : List π → List τ} (happend : ∀ a b, F (a ++ b) = F a ++ F b) {sep : π}
    {parts parts' : List (List π)} (h : parts.map F = parts'.map F) :
    F (joined sep parts) = F (joined sep parts') := by
  induction parts generalizing parts' with
  | nil =>
    obtain rfl := map_eq_nil_iff.mp h.symm
    rfl
  | cons part parts ih =>
    cases parts' with
    | nil => cases h
    | cons part' parts' =>
      obtain ⟨hpart, hparts⟩ := List.cons.inj h
      have hrest := ih hparts
      cases parts with
      | nil =>
        obtain rfl := map_eq_nil_iff.mp hparts.symm
        exact hpart
      | cons next parts =>
        cases parts' with
        | nil => cases hparts
        | cons next' parts' =>
          have hsep : ∀ rest, F (sep :: rest) = F [sep] ++ F rest := happend [sep]
          rw [joined_cons_cons, joined_cons_cons, happend, happend, hpart, hsep (joined sep (next :: parts)),
            hsep (joined sep (next' :: parts')), hrest]

/-- The first part a check holds of. -/
theorem first_of_mem {q : π → Bool} {parts : List π} (h : ∃ x ∈ parts, q x = true) :
    ∃ before x after, parts = before ++ x :: after ∧ q x = true ∧ ∀ y ∈ before, q y = false := by
  obtain ⟨x, hx⟩ := Option.isSome_iff_exists.mp (find?_isSome.mpr h)
  obtain ⟨hq, before, after, hparts, hbefore⟩ := find?_eq_some_iff_append.mp hx
  exact ⟨before, x, after, hparts, hq, fun y hy => by simpa using hbefore y hy⟩

end Parts

/-- Text that ends every token before it and itself ends between two tokens. -/
def separates (r : Rules) (cs : List Char) : Bool := settlesText r cs && SqlLex.opens r cs && endsFresh r cs

/-- Chunks that are lexed one by one from the start. -/
structure Laid (r : Rules) (cs : List Chunk) : Prop where
  valid : ∀ c ∈ cs, c.Valid r
  linked : linked true cs = true

theorem Laid.lexes (h : Laid r cs) : Lexes r (cs.flatMap Chunk.chars) (cs.flatMap Chunk.tokens) (freshAfter true cs) :=
  lexes_linked h.valid h.linked

theorem Laid.text {cs : List Char} (h : settlesText r cs = true) : Laid r [Chunk.ofText r cs] := by
  refine ⟨?_, rfl⟩
  intro c hc
  obtain rfl := mem_singleton.mp hc
  exact Chunk.ofText_valid h

/-- Chunks between two texts. -/
theorem Laid.wrap {start stop : List Char}
    (hstart : (settlesText r start && endsFresh r start) = true) (hstop : separates r stop = true)
    (h : Laid r cs) : Laid r (Chunk.ofText r start :: cs ++ [Chunk.ofText r stop]) := by
  simp only [separates, Bool.and_eq_true] at hstart hstop
  constructor
  · intro c hc
    simp only [cons_append, mem_cons, mem_append, not_mem_nil, or_false] at hc
    rcases hc with rfl | hc | rfl
    · exact Chunk.ofText_valid hstart.1
    · exact h.valid c hc
    · exact Chunk.ofText_valid hstop.1.1
  · have hlast : ∀ f, SqlLex.linked f [Chunk.ofText r stop] = true := by
      intro f
      show ((f || SqlLex.opens r stop) && true) = true
      rw [hstop.1.2, Bool.or_true]
      rfl
    rw [cons_append, SqlLex.linked, linked_append]
    show (true && (SqlLex.linked (endsFresh r start) cs && _)) = true
    rw [hstart.2, h.linked]
    exact hlast _

theorem Laid.join {sep : List Char} (hsep : separates r sep = true) {parts : List (List Chunk)}
    (h : ∀ part ∈ parts, Laid r part) : Laid r (joined (Chunk.ofText r sep) parts) := by
  simp only [separates, Bool.and_eq_true] at hsep
  induction parts with
  | nil => exact ⟨nofun, rfl⟩
  | cons part parts ih =>
    have hpart := h part (mem_cons_self ..)
    cases parts with
    | nil => exact hpart
    | cons next parts =>
      have hrest := ih fun part hmem => h part (mem_cons_of_mem _ hmem)
      rw [joined_cons_cons]
      constructor
      · intro c hc
        rcases mem_append.mp hc with hc | hc
        · exact hpart.valid c hc
        · rcases mem_cons.mp hc with rfl | hc
          · exact Chunk.ofText_valid hsep.1.1
          · exact hrest.valid c hc
      · rw [linked_append, hpart.linked, SqlLex.linked]
        show (true && ((_ || SqlLex.opens r sep) && SqlLex.linked (endsFresh r sep) _)) = true
        rw [hsep.1.2, hsep.2, hrest.linked, Bool.or_true]
        rfl

/-- What stands before a chunk that begins with no separator ends between two tokens. -/
theorem Laid.before {before after : List Chunk} {c : Chunk} (h : Laid r (before ++ c :: after))
    (hopens : c.opens = false) :
    Lexes r (before.flatMap Chunk.chars) (before.flatMap Chunk.tokens) true := by
  have hlinked := h.linked
  rw [linked_append, SqlLex.linked, hopens, Bool.or_false, Bool.and_eq_true, Bool.and_eq_true] at hlinked
  have hlexes := lexes_linked (fun c hc => h.valid c (mem_append_left _ hc)) hlinked.1
  rwa [hlinked.2.1] at hlexes

/-! ### Quoted text -/

/-- The content of a quote with its closing character doubled. -/
def doubled (q : Quote) (content : List Char) : List Char :=
  content.flatMap fun c => if c = q.closer then [c, c] else [c]

variable {q : Quote}

theorem doubled_cons_closer (hc : c = q.closer) (content : List Char) :
    doubled q (c :: content) = c :: c :: doubled q content := by
  rw [doubled, flatMap_cons, if_pos hc]
  rfl

theorem doubled_cons_of_ne (hc : c ≠ q.closer) (content : List Char) :
    doubled q (c :: content) = c :: doubled q content := by
  rw [doubled, flatMap_cons, if_neg hc]
  rfl

/-- Inside a quote, doubled content is read back as it was. -/
theorem run_doubled (content acc : List Char) (hplain : q ∈ r.escapes → '\\' ∉ content) :
    run r (.quoted q acc) (doubled q content) = (.quoted q (acc ++ content), []) := by
  induction content generalizing acc with
  | nil => simp [doubled, run]
  | cons c content ih =>
    have hrest := ih (acc ++ [c]) fun hq hmem => hplain hq (mem_cons_of_mem _ hmem)
    have happend : acc ++ [c] ++ content = acc ++ c :: content := by simp
    rw [happend] at hrest
    by_cases hc : c = q.closer
    · have hopen : step r (.quoted q acc) c = (.closing q acc, []) := by simp [step, hc]
      have hdouble : step r (.closing q acc) c = (.quoted q (acc ++ [c]), []) := by simp [step, hc]
      rw [doubled_cons_closer hc, run, hopen, run, hdouble, hrest]
      rfl
    · have hback : ¬(c = '\\' ∧ q ∈ r.escapes) := by
        rintro ⟨rfl, hq⟩
        exact hplain hq (mem_cons_self ..)
      have hkeep : step r (.quoted q acc) c = (.quoted q (acc ++ [c]), []) := by simp [step, hc, hback]
      rw [doubled_cons_of_ne hc, run, hkeep, hrest]
      rfl

/-- A quoted token. -/
def quote (q : Quote) (content : List Char) : List Char := q.opener :: doubled q content ++ [q.closer]

theorem run_quote (content : List Char)
    (hplain : q ∈ r.escapes → '\\' ∉ content) (hopen : step r m q.opener = (.quoted q [], ts)) :
    run r m (quote q content) = (.closing q content, ts) := by
  rw [quote, cons_append, run, hopen, run_append, run_doubled content [] hplain]
  simp [run, step]

end SqlLex
