import Mathlib.Data.List.Infix
import FraiseQL.Json

/-! The tamper-evident audit chain (`audit/chain.rs`). HMAC-SHA256 is a free constructor: a key is a secret of its own,
or the MAC of a message under a key. The hex text of a key is a parameter. A link's MAC is the key of the next link,
and the log shows it, so whoever reads a log can write on from every entry of it. -/

namespace FraiseQL.AuditChain

open List Json

/-! ### The chain -/

/-- A 32-byte value. -/
inductive Key where
  | secret (n : Nat)
  | hmac (key : Key) (message : String)

def computeChainHash (prevHash : Key) (entryJson : String) : Key := .hmac prevHash entryJson

structure ChainHasher where
  current : Key

def remove (name : String) (entries : List (String × Json)) : List (String × Json) :=
  entries.filter fun e => e.1 ≠ name

inductive ChainVerifyError where
  | brokenLink (entryIndex : Nat) (expectedHash storedHash : String)
  | missingChainHash (entryIndex : Nat)
  | invalidEntry (entryIndex : Nat)

section Chain

variable (encodeChainHash : Key → String)

def ChainHasher.advance (hasher : ChainHasher) (entryJson : String) : ChainHasher × String :=
  let current := computeChainHash hasher.current entryJson
  (⟨current⟩, encodeChainHash current)

/-- The loop of `verify_chain`. -/
def verifyFrom (hasher : ChainHasher) (idx count : Nat) : List Json → Except ChainVerifyError Nat
  | [] => .ok count
  | entry :: rest =>
    match (entry.get? "chain_hash").bind Json.asStr? with
    | none => .error (.missingChainHash idx)
    | some storedHash =>
      match entry with
      | .obj entries =>
        let entryJson := (Json.obj (remove "chain_hash" entries)).text
        let (hasher, expectedHash) := hasher.advance encodeChainHash entryJson
        if expectedHash ≠ storedHash then .error (.brokenLink idx expectedHash storedHash)
        else verifyFrom hasher (idx + 1) (count + 1) rest
      | _ => .error (.invalidEntry idx)

def verifyChain (entries : List Json) (seed : Key) : Except ChainVerifyError Nat :=
  verifyFrom encodeChainHash ⟨seed⟩ 0 0 entries

/-- JSON objects whose `chain_hash` values the hasher produced, one after the other. -/
def Chained (hasher : ChainHasher) : List Json → Prop
  | [] => True
  | entry :: rest => ∃ entries, entry = .obj entries ∧
      Json.lookup "chain_hash" entries =
        some (.str (hasher.advance encodeChainHash (Json.obj (remove "chain_hash" entries)).text).2) ∧
      Chained (hasher.advance encodeChainHash (Json.obj (remove "chain_hash" entries)).text).1 rest

/-! ### The reader of the log -/

/-- The keys of a party that has some secrets and reads the log. -/
inductive Knows (own : Nat → Prop) (log : List Json) : Key → Prop where
  | own {n : Nat} : own n → Knows own log (.secret n)
  | logged {entry : Json} {key : Key} : entry ∈ log → entry.get? "chain_hash" = some (.str (encodeChainHash key)) →
      Knows own log key
  | hmac {key : Key} (message : String) : Knows own log key → Knows own log (.hmac key message)

/-- An entry of the party's own making: where its `chain_hash` is the text of a key, the party knows the key. What else
the entry holds is up to the party. -/
def Constructible (own : Nat → Prop) (log : List Json) (entry : Json) : Prop :=
  ∀ key, entry.get? "chain_hash" = some (.str (encodeChainHash key)) → Knows encodeChainHash own log key

end Chain

/-! ### What verification accepts -/

section Verify

variable {encodeChainHash : Key → String} {hasher : ChainHasher}

theorem verifyFrom_ok (hasher : ChainHasher) (idx count : Nat) (entries : List Json) :
    (∃ n, verifyFrom encodeChainHash hasher idx count entries = .ok n) ↔ Chained encodeChainHash hasher entries := by
  induction entries generalizing hasher idx count with
  | nil => exact ⟨fun _ => trivial, fun _ => ⟨count, rfl⟩⟩
  | cons entry rest ih =>
    cases entry with
    | obj entries =>
      rw [verifyFrom, Chained, get?]
      constructor
      · rintro ⟨n, hn⟩
        cases hstored : Json.lookup "chain_hash" entries with
        | none =>
          rw [hstored] at hn
          cases hn
        | some stored =>
          rw [hstored] at hn
          cases stored with
          | str storedHash =>
            simp only [Option.bind_some, asStr?] at hn
            split_ifs at hn with hbroken
            refine ⟨entries, rfl, ?_, (ih _ _ _).mp ⟨n, hn⟩⟩
            rw [hstored, not_not.mp hbroken]
          | _ => cases hn
      · rintro ⟨_, ⟨⟩, hstored, hrest⟩
        obtain ⟨n, hn⟩ := (ih _ (idx + 1) (count + 1)).mpr hrest
        refine ⟨n, ?_⟩
        rw [hstored, Option.bind_some, asStr?]
        simpa using hn
    | _ =>
      constructor
      · rintro ⟨n, hn⟩
        cases hn
      · rintro ⟨_, hentry, -⟩
        cases hentry

/-- The chain of a log goes on from the hash of its last entry. -/
theorem Chained.goes_on {log : List Json} (hlog : Chained encodeChainHash hasher log) (hne : log ≠ []) :
    ∃ entry ∈ log, ∃ key, entry.get? "chain_hash" = some (.str (encodeChainHash key)) ∧
      ∀ tail, Chained encodeChainHash ⟨key⟩ tail → Chained encodeChainHash hasher (log ++ tail) := by
  induction log generalizing hasher with
  | nil => exact absurd rfl hne
  | cons entry rest ih =>
    obtain ⟨entries, rfl, hstored, hrest⟩ := hlog
    by_cases hlast : rest = []
    · subst hlast
      refine ⟨_, mem_singleton.mpr rfl, _, hstored, ?_⟩
      intro tail htail
      exact ⟨entries, rfl, hstored, htail⟩
    · obtain ⟨last, hmem, key, hkey, hgoes⟩ := ih hrest hlast
      refine ⟨last, mem_cons_of_mem _ hmem, key, hkey, ?_⟩
      intro tail htail
      exact ⟨entries, rfl, hstored, hgoes tail htail⟩

/-- An entry that says nothing, chained to a key. -/
def addition (encodeChainHash : Key → String) (key : Key) : Json :=
  .obj [("chain_hash", .str (encodeChainHash (.hmac key (Json.obj []).text)))]

theorem addition_chained (key : Key) : Chained encodeChainHash ⟨key⟩ [addition encodeChainHash key] :=
  ⟨_, rfl, rfl, trivial⟩

variable {own : Nat → Prop} {log : List Json} {seed : Key}

/-- Without a log, a MAC is known only under a key that is. -/
theorem Knows.of_hmac {key : Key} {message : String} (h : Knows encodeChainHash own [] (.hmac key message)) :
    Knows encodeChainHash own [] key := by
  cases h with
  | logged hentry _ => cases hentry
  | hmac _ hkey => exact hkey

/-- A reader of the log that does not know the seed can make up no accepted list but the prefixes of the log, if and
only if the log is empty. -/
theorem tamper_evident_iff (hencode : Function.Injective encodeChainHash)
    (hlog : Chained encodeChainHash ⟨seed⟩ log) (hseed : ¬Knows encodeChainHash own log seed) :
    (∀ entries, (∀ entry ∈ entries, Constructible encodeChainHash own log entry) →
      (∃ count, verifyChain encodeChainHash entries seed = .ok count) → entries <+: log) ↔ log = [] := by
  constructor
  · intro hevident
    by_contra hne
    obtain ⟨last, hmem, key, hkey, hgoes⟩ := hlog.goes_on hne
    have hknown : Knows encodeChainHash own log key := .logged hmem hkey
    have hstarts := hevident (log ++ [addition encodeChainHash key]) ?_
      ((verifyFrom_ok ⟨seed⟩ 0 0 _).mpr (hgoes _ (addition_chained key)))
    · have hlength := hstarts.length_le
      rw [length_append, length_singleton] at hlength
      omega
    · intro entry hentry other hother
      rcases mem_append.mp hentry with hold | hnew
      · exact .logged hold hother
      · obtain rfl := mem_singleton.mp hnew
        have htext : encodeChainHash (.hmac key (obj []).text) = encodeChainHash other :=
          str.inj (Option.some.inj hother)
        rw [← hencode htext]
        exact .hmac _ hknown
  · rintro rfl entries hentries hok
    have hchained := (verifyFrom_ok ⟨seed⟩ 0 0 entries).mp hok
    cases entries with
    | nil => exact nil_prefix
    | cons entry rest =>
      obtain ⟨fields, rfl, hstored, -⟩ := hchained
      have hknown := hentries _ mem_cons_self _ hstored
      exact absurd hknown.of_hmac hseed

end Verify

section Examples

/-- A text for every key, as hex has for 32 bytes: the length of a message stands before it. -/
def spelling : Key → List Char
  | .secret n => 's' :: List.replicate n '1'
  | .hmac key message => 'h' :: (List.replicate message.toList.length '1' ++ '-' :: (message.toList ++ spelling key))

def spell (key : Key) : String := String.ofList (spelling key)

theorem spelling_inj {key key' : Key} (h : spelling key = spelling key') : key = key' := by
  induction key generalizing key' with
  | secret n =>
    cases key' with
    | secret m =>
      have hlength := congrArg length (cons.inj h).2
      rw [length_replicate, length_replicate] at hlength
      rw [hlength]
    | hmac key' message' => cases (cons.inj h).1
  | hmac key message ih =>
    cases key' with
    | secret m => cases (cons.inj h).1
    | hmac key' message' =>
      have hbody := (cons.inj h).2
      have hcount : ∀ (n : Nat) (rest : List Char),
          ((replicate n '1' ++ '-' :: rest).takeWhile (· = '1')).length = n := by
        intro n rest
        rw [takeWhile_append_of_pos]
        · simp
        · intro c hc
          rw [eq_of_mem_replicate hc]
          rfl
      have hlength : message.toList.length = message'.toList.length := by
        rw [← hcount message.toList.length (message.toList ++ spelling key), hbody, hcount]
      rw [hlength] at hbody
      obtain ⟨hmessage, hkey⟩ := append_inj (cons.inj (append_cancel_left hbody)).2 hlength
      rw [String.toList_inj.mp hmessage, ih hkey]

theorem spell_injective : Function.Injective spell := fun _ _ h => spelling_inj (String.ofList_injective h)

/-- An entry with an action, chained to a key. -/
def action (key : Key) (name : String) : Json :=
  .obj [("action", .str name), ("chain_hash", .str (spell (.hmac key (Json.obj [("action", .str name)]).text)))]

theorem action_chained (key : Key) (name : String) {rest : List Json}
    (hrest : Chained spell ⟨.hmac key (obj [("action", .str name)]).text⟩ rest) :
    Chained spell ⟨key⟩ (action key name :: rest) := ⟨_, rfl, rfl, hrest⟩

/-- The party knows every secret but the seed. -/
def party (n : Nat) : Prop := n ≠ 0

/-- Nothing can be made up for an empty log. -/
theorem tamper_evident_empty :
    (∀ entries, (∀ entry ∈ entries, Constructible spell party [] entry) →
      (∃ count, verifyChain spell entries (.secret 0) = .ok count) → entries <+: []) ↔ ([] : List Json) = [] := by
  have hempty : Chained spell ⟨.secret 0⟩ [] := trivial
  apply tamper_evident_iff spell_injective hempty
  intro hseed
  cases hseed with
  | own hown => exact hown rfl
  | logged hentry _ => cases hentry

/-- The hash of the login is the key that a second entry is chained to: who reads it chains another one to it. -/
theorem second_entry_replaced : ¬∀ (encodeChainHash : Key → String) (own : Nat → Prop) (seed : Key) (log : List Json),
    Function.Injective encodeChainHash → Chained encodeChainHash ⟨seed⟩ log → ¬Knows encodeChainHash own log seed →
    ∀ entries, (∀ entry ∈ entries, Constructible encodeChainHash own log entry) →
      (∃ count, verifyChain encodeChainHash entries seed = .ok count) → entries <+: log := by
  intro hclaim
  let first : Key := .hmac (.secret 0) (obj [("action", .str "login")]).text
  have hlog : Chained spell ⟨.secret 0⟩ [action (.secret 0) "login", action first "delete"] :=
    action_chained _ _ (action_chained _ _ trivial)
  have hforged : Chained spell ⟨.secret 0⟩ [action (.secret 0) "login", action first "view"] :=
    action_chained _ _ (action_chained _ _ trivial)
  have hstored : ∀ key name other, (action key name).get? "chain_hash" = some (.str (spell other)) →
      other = .hmac key (obj [("action", .str name)]).text := by
    intro key name other hother
    exact spell_injective (str.inj (Option.some.inj hother)).symm
  have hseed : ¬Knows spell party [action (.secret 0) "login", action first "delete"] (.secret 0) := by
    intro hseed
    cases hseed with
    | own hown => exact hown rfl
    | logged hentry hkey =>
      rcases mem_pair.mp hentry with rfl | rfl
      · cases hstored _ _ _ hkey
      · cases hstored _ _ _ hkey
  have hknown : Knows spell party [action (.secret 0) "login", action first "delete"] first :=
    .logged mem_cons_self rfl
  have hstarts := hclaim spell party (.secret 0) _ spell_injective hlog hseed
    [action (.secret 0) "login", action first "view"] ?_ ((verifyFrom_ok ⟨.secret 0⟩ 0 0 _).mpr hforged)
  · have hsecond := (cons_prefix_cons.mp (cons_prefix_cons.mp hstarts).2).1
    have hnames := str.inj (Prod.mk.inj (cons.inj (obj.inj hsecond)).1).2
    revert hnames
    decide
  · intro entry hentry other hother
    rcases mem_pair.mp hentry with rfl | rfl
    · rw [hstored _ _ _ hother]
      exact hknown
    · rw [hstored _ _ _ hother]
      exact .hmac _ hknown

end Examples

end FraiseQL.AuditChain
