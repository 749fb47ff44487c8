import Mathlib.Data.List.Induction
import FraiseQL.Outcome
import FraiseQL.WireFraming
import FraiseQL.WireLayout

/-!
`decode_message` against the layout of the messages. Each decoder of a body succeeds exactly on the bodies
laid out as some message and then returns that message, so a frame of a message within the limits is read
back as it, whatever follows, and what is no frame with such a body is refused.
-/

namespace FraiseQL.Wire

open Outcome List Except

/-! ### The parts of a body -/

variable {data rest : Bytes} {count : Nat}

theorem decodeFieldCount_ok {message : String} : decodeFieldCount message data = .ok (count, rest) ↔
      count ≤ maxFieldCount ∧ data = i16Bytes count ++ rest := by
  constructor
  · intro h
    match data, h with
    | a :: b :: tail, h =>
      simp only [decodeFieldCount] at h
      split at h
      · cases h
      · next hneg =>
          split at h
          · cases h
          · next hmax =>
              cases h
              have hcount : (((i16FromBeBytes a b).toNat : Nat) : Int) = i16FromBeBytes a b := by omega
              refine ⟨by omega, ?_⟩
              rw [hcount, i16Bytes_fromBeBytes]
              rfl
  · rintro ⟨hmax, rfl⟩
    have hrange : IsI16 (count : Int) := by
      simp only [IsI16, maxFieldCount] at hmax ⊢
      omega
    obtain ⟨a, b, hbytes, hvalue⟩ := i16Bytes_eq hrange
    simp only [hbytes, cons_append, nil_append, decodeFieldCount, hvalue]
    rw [if_neg (by omega), if_neg (by omega)]
    simp

/-- The loop over the mechanisms stops where the layout of the list does. -/
theorem saslMechanisms_layout (fuel : Nat) (seen : List String) (rest : Bytes)
    (hfuel : rest.length < fuel) (hseen : seen.length ≤ maxSaslMechanisms) :
    ∃ (names : List Bytes) (extra : Bytes),
      rest = (names.flatMap fun name => name ++ [0]) ++ extra ∧ (∀ name ∈ names, name ≠ [] ∧ 0 ∉ name) ∧
      saslMechanisms fuel seen rest = seen ++ names.map fromUtf8Lossy ∧
      seen.length + names.length ≤ maxSaslMechanisms ∧
      (seen.length + names.length = maxSaslMechanisms ∨ 0 ∉ extra ∨ extra.head? = some 0) := by
  induction fuel generalizing seen rest with
  | zero => omega
  | succ fuel ih =>
    unfold saslMechanisms
    cases hsplit : splitNul rest with
    | none =>
      refine ⟨[], rest, rfl, by simp, by simp, by simpa using hseen, ?_⟩
      exact .inr (.inl (splitNul_eq_none.mp hsplit))
    | some cut =>
      obtain ⟨name, later⟩ := cut
      obtain ⟨rfl, hname⟩ := splitNul_eq_some.mp hsplit
      simp only [fromUtf8Lossy_eq_empty]
      by_cases hempty : name = []
      · refine ⟨[], name ++ 0 :: later, rfl, by simp, by simp [hempty], by simpa using hseen, ?_⟩
        exact .inr (.inr (by simp [hempty]))
      · rw [if_neg hempty]
        by_cases hfull : maxSaslMechanisms ≤ seen.length
        · refine ⟨[], name ++ 0 :: later, rfl, by simp, by simp [hfull], by simpa using hseen, ?_⟩
          exact .inl (by simp; omega)
        · rw [if_neg hfull]
          have hshorter : later.length < fuel := by
            simp only [length_append, length_cons] at hfuel
            omega
          obtain ⟨names, extra, hlater, hnames, hresult, hcount, hstop⟩ :=
            ih (seen ++ [fromUtf8Lossy name]) later hshorter (by simp; omega)
          simp only [length_append, length_cons, length_nil] at hcount hstop
          refine ⟨name :: names, extra, ?_, ?_, ?_, ?_, ?_⟩
          · simp [hlater]
          · intro other hother
            rcases mem_cons.mp hother with rfl | hother
            · exact ⟨hempty, hname⟩
            · exact hnames other hother
          · simp [hresult]
          · simp only [length_cons]
            omega
          · rcases hstop with hstop | hstop
            · exact .inl (by simp only [length_cons]; omega)
            · exact .inr hstop

theorem saslMechanisms_of_layout (names : List Bytes) (extra : Bytes) (fuel : Nat) (seen : List String)
    (hfuel : ((names.flatMap fun name => name ++ [0]) ++ extra).length < fuel)
    (hnames : ∀ name ∈ names, name ≠ [] ∧ 0 ∉ name)
    (hcount : seen.length + names.length ≤ maxSaslMechanisms)
    (hstop : seen.length + names.length = maxSaslMechanisms ∨ 0 ∉ extra ∨ extra.head? = some 0) :
    saslMechanisms fuel seen ((names.flatMap fun name => name ++ [0]) ++ extra) =
      seen ++ names.map fromUtf8Lossy := by
  induction names generalizing fuel seen with
  | nil =>
    obtain ⟨fuel, rfl⟩ : ∃ n, fuel = n + 1 := ⟨fuel - 1, by omega⟩
    simp only [flatMap_nil, nil_append, map_nil, append_nil, saslMechanisms]
    cases hsplit : splitNul extra with
    | none => rfl
    | some cut =>
      obtain ⟨name, later⟩ := cut
      obtain ⟨rfl, hname⟩ := splitNul_eq_some.mp hsplit
      simp only [fromUtf8Lossy_eq_empty]
      rcases hstop with hfull | hnone | hhead
      · simp only [length_nil, Nat.add_zero] at hfull
        simp [hfull]
      · exact absurd (mem_append_right _ mem_cons_self) hnone
      · cases name with
        | nil => simp
        | cons b name =>
          simp only [cons_append, head?_cons, Option.some.injEq] at hhead
          exact absurd (hhead ▸ mem_cons_self) hname
  | cons name names ih =>
    obtain ⟨fuel, rfl⟩ : ∃ n, fuel = n + 1 := ⟨fuel - 1, by omega⟩
    obtain ⟨hne, hzero⟩ := hnames name mem_cons_self
    simp only [length_cons] at hcount hstop
    have hlist : ((name :: names).flatMap fun name => name ++ [0]) ++ extra =
        name ++ 0 :: ((names.flatMap fun name => name ++ [0]) ++ extra) := by
      simp
    rw [hlist, length_append, length_cons] at hfuel
    rw [hlist, saslMechanisms, splitNul_append _ hzero]
    simp only [fromUtf8Lossy_eq_empty]
    have hmore := ih fuel (seen ++ [fromUtf8Lossy name]) (by omega)
      (fun other hother => hnames other (mem_cons_of_mem _ hother))
      (by simp only [length_append, length_cons, length_nil]; omega)
      (by
        rcases hstop with hfull | hstop
        · exact .inl (by simp only [length_append, length_cons, length_nil]; omega)
        · exact .inr hstop)
    rw [if_neg hne, if_neg (by omega), hmore]
    simp

variable {body : Bytes} {msg : BackendMessage}

theorem decodeAuthentication_ok :
    decodeAuthentication body = .ok msg ↔ ∃ auth, msg = .authentication auth ∧ auth.Layout body := by
  constructor
  · intro h
    match body, h with
    | a :: b :: c :: d :: rest, h =>
      have hhead : a :: b :: c :: d :: rest = i32Bytes (i32FromBeBytes a b c d) ++ rest := by
        rw [i32Bytes_fromBeBytes]
        rfl
      simp only [decodeAuthentication] at h
      rw [hhead]
      split at h
      · next hvalue =>
          cases h
          exact ⟨_, rfl, rest, by rw [hvalue]⟩
      · next hvalue =>
          cases h
          exact ⟨_, rfl, rest, by rw [hvalue]⟩
      · next hvalue =>
          split at h
          · cases h
          · next hlen =>
              cases h
              simp only [length_cons] at hlen
              refine ⟨_, rfl, by simp only [length_take]; omega, rest.drop 4, ?_⟩
              rw [append_assoc, take_append_drop, hvalue]
      · next hvalue =>
          cases h
          obtain ⟨names, extra, hrest, hnames, hresult, hcount, hstop⟩ :=
            saslMechanisms_layout (rest.length + 1) [] rest (by omega) (by simp)
          refine ⟨_, rfl, names, extra, ?_, hnames, hresult, by simpa using hcount, by simpa using hstop⟩
          rw [append_assoc, ← hrest, hvalue]
      · next hvalue =>
          cases h
          refine ⟨_, rfl, ?_⟩
          rw [hvalue]
          rfl
      · next hvalue =>
          cases h
          refine ⟨_, rfl, ?_⟩
          rw [hvalue]
          rfl
      · cases h
  · rintro ⟨auth, rfl, hlayout⟩
    cases auth with
    | ok =>
      obtain ⟨extra, rfl⟩ := hlayout
      obtain ⟨a, b, c, d, hbytes, hvalue⟩ := i32Bytes_append (i := 0) (by decide) extra
      rw [hbytes]
      simp only [decodeAuthentication, hvalue]
    | cleartextPassword =>
      obtain ⟨extra, rfl⟩ := hlayout
      obtain ⟨a, b, c, d, hbytes, hvalue⟩ := i32Bytes_append (i := 3) (by decide) extra
      rw [hbytes]
      simp only [decodeAuthentication, hvalue]
    | md5Password salt =>
      obtain ⟨hsalt, extra, rfl⟩ := hlayout
      obtain ⟨a, b, c, d, hbytes, hvalue⟩ := i32Bytes_append (i := 5) (by decide) (salt ++ extra)
      rw [append_assoc, hbytes]
      simp only [decodeAuthentication, hvalue, length_cons, length_append, hsalt]
      rw [if_neg (by omega), take_left' hsalt]
    | sasl mechanisms =>
      obtain ⟨names, extra, rfl, hnames, rfl, hcount, hstop⟩ := hlayout
      obtain ⟨a, b, c, d, hbytes, hvalue⟩ := i32Bytes_append (i := 10) (by decide)
        ((names.flatMap fun name => name ++ [0]) ++ extra)
      rw [append_assoc, hbytes]
      simp only [decodeAuthentication, hvalue]
      rw [saslMechanisms_of_layout names extra _ [] (by omega) hnames (by simpa using hcount)
        (by simpa using hstop)]
      rfl
    | saslContinue data =>
      obtain ⟨a, b, c, d, hbytes, hvalue⟩ := i32Bytes_append (i := 11) (by decide) data
      rw [show body = _ from hlayout, hbytes]
      simp only [decodeAuthentication, hvalue]
    | saslFinal data =>
      obtain ⟨a, b, c, d, hbytes, hvalue⟩ := i32Bytes_append (i := 12) (by decide) data
      rw [show body = _ from hlayout, hbytes]
      simp only [decodeAuthentication, hvalue]

/-- The columns of a row, each with a length the four bytes can give. -/
theorem dataRowFields_ok {fields : List (Option Bytes)} : dataRowFields count rest = .ok fields ↔
      fields.length = count ∧ (∀ value, some value ∈ fields → value.length < 2 ^ 31) ∧
        ∃ extra, rest = fields.flatMap dataRowField ++ extra := by
  induction count generalizing rest fields with
  | zero =>
    simp only [dataRowFields, ok.injEq]
    constructor
    · rintro rfl
      exact ⟨rfl, by simp, rest, rfl⟩
    · rintro ⟨hlen, -, -⟩
      exact (length_eq_zero_iff.mp hlen).symm
  | succ count ih =>
    constructor
    · intro h
      match rest, h with
      | a :: b :: c :: d :: more, h =>
        have hhead : a :: b :: c :: d :: more = i32Bytes (i32FromBeBytes a b c d) ++ more := by
          rw [i32Bytes_fromBeBytes]
          rfl
        have hrange := i32FromBeBytes_isI32 a b c d
        simp only [dataRowFields] at h
        split at h
        · next hnull =>
            obtain ⟨later, hlater, rfl⟩ := map_eq_ok.mp h
            obtain ⟨hlen, hsizes, extra, rfl⟩ := ih.mp hlater
            refine ⟨by simp [hlen], by simpa using hsizes, extra, ?_⟩
            rw [hhead, hnull, flatMap_cons, dataRowField, append_assoc]
        · split at h
          · cases h
          · split at h
            · cases h
            · next hnonneg hfit =>
                obtain ⟨later, hlater, rfl⟩ := map_eq_ok.mp h
                obtain ⟨hlen, hsizes, extra, hmore⟩ := ih.mp hlater
                have htake : (more.take (i32FromBeBytes a b c d).toNat).length =
                    (i32FromBeBytes a b c d).toNat := by
                  rw [length_take]
                  omega
                refine ⟨by simp [hlen], ?_, extra, ?_⟩
                · intro value hvalue
                  rcases mem_cons.mp hvalue with hvalue | hvalue
                  · cases hvalue
                    rw [htake]
                    have := hrange.2
                    omega
                  · exact hsizes value hvalue
                · have hsize : (((i32FromBeBytes a b c d).toNat : Nat) : Int) =
                      i32FromBeBytes a b c d := by omega
                  rw [hhead, flatMap_cons, dataRowField, htake, hsize, append_assoc,
                    append_assoc, ← hmore, take_append_drop]
    · rintro ⟨hlen, hsizes, extra, rfl⟩
      cases fields with
      | nil => cases hlen
      | cons field fields =>
        have hlater : dataRowFields count (fields.flatMap dataRowField ++ extra) = .ok fields :=
          ih.mpr ⟨by simpa using hlen, fun value hvalue => hsizes value (mem_cons_of_mem _ hvalue),
            extra, rfl⟩
        rw [flatMap_cons, append_assoc]
        cases field with
        | none =>
          obtain ⟨a, b, c, d, hbytes, hvalue⟩ := i32Bytes_append (i := -1) (by decide)
            (fields.flatMap dataRowField ++ extra)
          rw [dataRowField, hbytes, dataRowFields, hvalue, if_pos rfl, hlater]
          rfl
        | some value =>
          have hsize := hsizes value mem_cons_self
          obtain ⟨a, b, c, d, hbytes, hvalue⟩ := i32Bytes_append (i := value.length)
            ⟨by omega, by omega⟩ (value ++ (fields.flatMap dataRowField ++ extra))
          rw [dataRowField, append_assoc, hbytes, dataRowFields, hvalue, if_neg (by omega),
            if_neg (by omega), Int.toNat_natCast, if_neg (by simp), drop_left, take_left,
            hlater]
          rfl

theorem decodeDataRow_ok :
    decodeDataRow body = .ok msg ↔ ∃ fields, msg = .dataRow fields ∧ (BackendMessage.dataRow fields).Layout body := by
  simp only [decodeDataRow, bind_eq_ok, map_eq_ok, Prod.exists, decodeFieldCount_ok, dataRowFields_ok]
  constructor
  · rintro ⟨count, rest, ⟨hmax, rfl⟩, fields, ⟨rfl, hsizes, extra, rfl⟩, rfl⟩
    exact ⟨fields, rfl, hmax, hsizes, extra, (append_assoc ..).symm⟩
  · rintro ⟨fields, rfl, hmax, hsizes, extra, rfl⟩
    exact ⟨_, _, ⟨hmax, append_assoc ..⟩, fields, ⟨rfl, hsizes, extra, rfl⟩, rfl⟩

/-! ### Errors and notices -/

theorem letter_eq {b : UInt8} {c : Char} (h : Char.ofNat b.toNat = c) : b = UInt8.ofNat c.toNat := by
  have hlt := b.toNat_lt
  have hvalue : (Char.ofNat b.toNat).toNat = b.toNat := val_ofNat (.inl (by omega))
  rw [← h, hvalue, UInt8.ofNat_toNat]

theorem letter_of_byte {c : Char} (h : c.toNat < 256) : Char.ofNat (UInt8.ofNat c.toNat).toNat = c := by
  rw [toNat_byte h, Char.ofNat_toNat]

/-- One field of an error, as it changes the fields read before it. -/
theorem setErrorField_eq (fields : ErrorFields) (fieldType : UInt8) (value : String) :
    setErrorField fields fieldType value =
      { severity := if fieldType = UInt8.ofNat 'S'.toNat then some value else fields.severity
        code := if fieldType = UInt8.ofNat 'C'.toNat then some value else fields.code
        message := if fieldType = UInt8.ofNat 'M'.toNat then some value else fields.message
        detail := if fieldType = UInt8.ofNat 'D'.toNat then some value else fields.detail
        hint := if fieldType = UInt8.ofNat 'H'.toNat then some value else fields.hint
        position := if fieldType = UInt8.ofNat 'P'.toNat then some value else fields.position } := by
  unfold setErrorField
  split
  · next h => simp [letter_eq h]
  · next h => simp [letter_eq h]
  · next h => simp [letter_eq h]
  · next h => simp [letter_eq h]
  · next h => simp [letter_eq h]
  · next h => simp [letter_eq h]
  · next hS hC hM hD hH hP =>
      have hne : ∀ {c : Char}, c.toNat < 256 → Char.ofNat fieldType.toNat ≠ c →
          fieldType ≠ UInt8.ofNat c.toNat := by
        rintro c hc hother rfl
        exact hother (letter_of_byte hc)
      rw [if_neg (hne (by decide) hS), if_neg (hne (by decide) hC), if_neg (hne (by decide) hM),
        if_neg (hne (by decide) hD), if_neg (hne (by decide) hH), if_neg (hne (by decide) hP)]

theorem lastText_append (fieldType : Char) (entries : List (UInt8 × Bytes)) (entry : UInt8 × Bytes) :
    lastText fieldType (entries ++ [entry]) =
      if entry.1 = UInt8.ofNat fieldType.toNat then some (fromUtf8Lossy entry.2)
      else lastText fieldType entries := by
  by_cases h : entry.1 = UInt8.ofNat fieldType.toNat
  · simp [lastText, h]
  · simp [lastText, h]

def readEntry (fields : ErrorFields) (entry : UInt8 × Bytes) : ErrorFields :=
  setErrorField fields entry.1 (fromUtf8Lossy entry.2)

/-- Read one after the other, the fields leave the last text of each type. -/
theorem readEntries_eq (entries : List (UInt8 × Bytes)) :
    entries.foldl readEntry {} =
      { severity := lastText 'S' entries, code := lastText 'C' entries, message := lastText 'M' entries
        detail := lastText 'D' entries, hint := lastText 'H' entries, position := lastText 'P' entries } := by
  induction entries using List.reverseRecOn with
  | nil => rfl
  | append_singleton entries entry ih =>
    rw [foldl_append, ih, foldl_cons, foldl_nil, readEntry, setErrorField_eq]
    simp only [lastText_append]

variable {fields : ErrorFields}

theorem errorFields_ok {fuel : Nat} {result : ErrorFields} (hfuel : data.length < fuel) :
    errorFields fuel fields data = .ok result ↔
      ∃ (entries : List (UInt8 × Bytes)) (extra : Bytes),
        data = (entries.flatMap fun entry => entry.1 :: entry.2 ++ [0]) ++ extra ∧
        (extra = [] ∨ extra.head? = some 0) ∧
        (∀ entry ∈ entries, entry.1 ≠ 0 ∧ 0 ∉ entry.2 ∧ entry.2.length ≤ maxErrorFieldBytes) ∧
        result = entries.foldl readEntry fields := by
  induction fuel generalizing fields data with
  | zero => omega
  | succ fuel ih =>
    constructor
    · intro h
      cases data with
      | nil =>
        rw [errorFields, ok.injEq] at h
        exact ⟨[], [], rfl, .inl rfl, by simp, h.symm⟩
      | cons fieldType rest =>
        rw [errorFields] at h
        split at h
        · next hend =>
            cases h
            exact ⟨[], _, rfl, .inr (by rw [hend]; rfl), by simp, rfl⟩
        · next hfield =>
            split at h
            · cases h
            · next value more hsplit =>
                obtain ⟨rfl, hvalue⟩ := splitNul_eq_some.mp hsplit
                split at h
                · cases h
                · next hmax =>
                    simp only [length_cons, length_append] at hfuel
                    obtain ⟨entries, extra, rfl, hend, hentries, hresult⟩ := (ih (by omega)).mp h
                    refine ⟨(fieldType, value) :: entries, extra, by simp, hend, ?_, hresult⟩
                    intro entry hentry
                    rcases mem_cons.mp hentry with rfl | hentry
                    · exact ⟨hfield, hvalue, Nat.le_of_not_lt hmax⟩
                    · exact hentries entry hentry
    · rintro ⟨entries, extra, rfl, hend, hentries, rfl⟩
      cases entries with
      | nil =>
        rcases hend with rfl | hhead
        · rfl
        · cases extra with
          | nil => rfl
          | cons b extra =>
            simp only [head?_cons, Option.some.injEq] at hhead
            simp only [flatMap_nil, nil_append, foldl_nil, errorFields]
            rw [if_pos hhead]
      | cons entry entries =>
        obtain ⟨hfield, hvalue, hmax⟩ := hentries entry mem_cons_self
        have hdata : ((entry :: entries).flatMap fun entry => entry.1 :: entry.2 ++ [0]) ++ extra =
            entry.1 :: (entry.2 ++ 0 :: ((entries.flatMap fun entry => entry.1 :: entry.2 ++ [0]) ++
              extra)) := by
          simp
        rw [hdata, length_cons, length_append, length_cons] at hfuel
        rw [hdata, errorFields, if_neg hfield, splitNul_append _ hvalue]
        simp only
        rw [if_neg (by omega), foldl_cons]
        exact (ih (by omega)).mpr ⟨entries, extra, rfl, hend,
          fun entry hentry => hentries entry (mem_cons_of_mem _ hentry), rfl⟩

theorem decodeErrorFields_ok : decodeErrorFields body = .ok fields ↔ fields.Layout body := by
  rw [decodeErrorFields, errorFields_ok (Nat.lt_succ_self _)]
  simp only [readEntries_eq]
  rfl

/-! ### The other messages -/

theorem decodeBackendKeyData_ok : decodeBackendKeyData body = .ok msg ↔
      ∃ processId secretKey, msg = .backendKeyData processId secretKey ∧ msg.Layout body := by
  constructor
  · intro h
    match body, h with
    | a :: b :: c :: d :: e :: f :: g :: i :: rest, h =>
      cases h
      refine ⟨_, _, rfl, i32FromBeBytes_isI32 .., i32FromBeBytes_isI32 .., rest, ?_⟩
      rw [i32Bytes_fromBeBytes, i32Bytes_fromBeBytes]
      rfl
  · rintro ⟨processId, secretKey, rfl, hprocess, hsecret, extra, rfl⟩
    obtain ⟨a, b, c, d, hfirst, hvalue⟩ := i32Bytes_eq hprocess
    obtain ⟨e, f, g, i, hsecond, hvalue'⟩ := i32Bytes_eq hsecret
    simp only [hfirst, hsecond, cons_append, nil_append, decodeBackendKeyData, hvalue, hvalue']

theorem decodeCommandComplete_ok :
    decodeCommandComplete body = .ok msg ↔ ∃ tag, msg = .commandComplete tag ∧ msg.Layout body := by
  constructor
  · intro h
    rw [decodeCommandComplete] at h
    split at h
    · cases h
    · next raw rest hsplit =>
        cases h
        obtain ⟨rfl, hraw⟩ := splitNul_eq_some.mp hsplit
        exact ⟨_, rfl, raw, rest, rfl, hraw, rfl⟩
  · rintro ⟨tag, rfl, raw, rest, rfl, hraw, rfl⟩
    rw [decodeCommandComplete, splitNul_append _ hraw]

theorem decodeParameterStatus_ok : decodeParameterStatus body = .ok msg ↔
      ∃ name value, msg = .parameterStatus name value ∧ msg.Layout body := by
  constructor
  · intro h
    rw [decodeParameterStatus] at h
    split at h
    · cases h
    · next rawName rest hname =>
        obtain ⟨rfl, hnameZero⟩ := splitNul_eq_some.mp hname
        split at h
        · cases h
        · next hnameMax =>
            split at h
            · cases h
            · split at h
              · cases h
              · next rawValue extra hvalue =>
                  obtain ⟨rfl, hvalueZero⟩ := splitNul_eq_some.mp hvalue
                  split at h
                  · cases h
                  · next hvalueMax =>
                      cases h
                      exact ⟨_, _, rfl, rawName, rawValue, extra, by simp, ⟨hnameZero, rfl⟩, by omega,
                        ⟨hvalueZero, rfl⟩, by omega⟩
  · rintro ⟨name, value, rfl, rawName, rawValue, extra, rfl, ⟨hnameZero, rfl⟩, hnameMax,
      ⟨hvalueZero, rfl⟩, hvalueMax⟩
    have hbody : rawName ++ 0 :: rawValue ++ 0 :: extra = rawName ++ 0 :: (rawValue ++ 0 :: extra) := by
      simp
    rw [hbody, decodeParameterStatus, splitNul_append _ hnameZero]
    simp only
    rw [if_neg (by omega), if_neg (by simp), splitNul_append _ hvalueZero]
    simp only
    rw [if_neg (by omega)]

theorem decodeReadyForQuery_ok :
    decodeReadyForQuery body = .ok msg ↔ ∃ status, msg = .readyForQuery status ∧ msg.Layout body := by
  constructor
  · intro h
    cases body with
    | nil => cases h
    | cons status extra =>
      cases h
      exact ⟨status, rfl, extra, rfl⟩
  · rintro ⟨status, rfl, extra, rfl⟩
    rfl

/-- The bytes after a field's name, as the description of it. -/
theorem decodeFieldDescriptor_ok {name : String} {field : FieldDescription} :
    decodeFieldDescriptor name data = .ok (field, rest) ↔
      field.name = name ∧ field.InRange ∧ data = fieldDescriptor field ++ rest := by
  constructor
  · intro h
    match data, h with
    | t0 :: t1 :: t2 :: t3 :: c0 :: c1 :: o0 :: o1 :: o2 :: o3 :: s0 :: s1 :: m0 :: m1 :: m2 :: m3 ::
        f0 :: f1 :: tail, h =>
        simp only [decodeFieldDescriptor, ok.injEq, Prod.mk.injEq] at h
        obtain ⟨rfl, rfl⟩ := h
        have hoid := i32FromBeBytes_isI32 o0 o1 o2 o3
        have hbytes : i32Bytes (((i32FromBeBytes o0 o1 o2 o3 % 2 ^ 32).toNat : Nat) : Int) =
            [o0, o1, o2, o3] := by
          rw [← i32Bytes_fromBeBytes]
          simp only [i32Bytes]
          rw [Int.toNat_of_nonneg (by omega), Int.emod_emod]
        refine ⟨rfl, ⟨i32FromBeBytes_isI32 .., i16FromBeBytes_isI16 .., by simp only; omega,
          i16FromBeBytes_isI16 .., i32FromBeBytes_isI32 .., i16FromBeBytes_isI16 ..⟩, ?_⟩
        simp only [fieldDescriptor, hbytes, i32Bytes_fromBeBytes, i16Bytes_fromBeBytes, cons_append,
          nil_append]
  · rintro ⟨rfl, ⟨htable, hcolumn, htype, hsize, hmodifier, hformat⟩, rfl⟩
    obtain ⟨t0, t1, t2, t3, htableBytes, htableValue⟩ := i32Bytes_eq htable
    obtain ⟨c0, c1, hcolumnBytes, hcolumnValue⟩ := i16Bytes_eq hcolumn
    obtain ⟨s0, s1, hsizeBytes, hsizeValue⟩ := i16Bytes_eq hsize
    obtain ⟨m0, m1, m2, m3, hmodifierBytes, hmodifierValue⟩ := i32Bytes_eq hmodifier
    obtain ⟨f0, f1, hformatBytes, hformatValue⟩ := i16Bytes_eq hformat
    obtain ⟨o0, o1, o2, o3, htypeBytes, htypeValue⟩ :
        ∃ o0 o1 o2 o3, i32Bytes field.typeOid = [o0, o1, o2, o3] ∧
          (i32FromBeBytes o0 o1 o2 o3 % 2 ^ 32).toNat = field.typeOid := by
      refine ⟨_, _, _, _, rfl, ?_⟩
      simp only [i32FromBeBytes, UInt8.toNat_ofNat']
      split <;> omega
    simp only [fieldDescriptor, htableBytes, hcolumnBytes, htypeBytes, hsizeBytes, hmodifierBytes,
      hformatBytes, cons_append, nil_append, decodeFieldDescriptor, htableValue, hcolumnValue,
      htypeValue, hsizeValue, hmodifierValue, hformatValue]

theorem rowDescriptionFields_ok {fields : List FieldDescription} : rowDescriptionFields count data = .ok fields ↔
      ∃ (entries : List (Bytes × FieldDescription)) (extra : Bytes),
        entries.length = count ∧ fields = entries.map Prod.snd ∧
        (∀ entry ∈ entries, Spells entry.1 entry.2.name ∧ entry.2.InRange) ∧
        data = (entries.flatMap fun entry => entry.1 ++ 0 :: fieldDescriptor entry.2) ++ extra := by
  induction count generalizing data fields with
  | zero =>
    rw [rowDescriptionFields, ok.injEq]
    constructor
    · rintro rfl
      exact ⟨[], data, rfl, rfl, by simp, rfl⟩
    · rintro ⟨entries, extra, hlen, rfl, -, -⟩
      rw [length_eq_zero_iff.mp hlen]
      rfl
  | succ count ih =>
    constructor
    · intro h
      rw [rowDescriptionFields] at h
      split at h
      · cases h
      · next raw rest hsplit =>
          obtain ⟨rfl, hraw⟩ := splitNul_eq_some.mp hsplit
          obtain ⟨⟨field, more⟩, hfield, hmore⟩ := bind_eq_ok.mp h
          obtain ⟨later, hlater, rfl⟩ := map_eq_ok.mp hmore
          obtain ⟨hname, hrange, rfl⟩ := decodeFieldDescriptor_ok.mp hfield
          obtain ⟨entries, extra, hlen, rfl, hentries, rfl⟩ := ih.mp hlater
          refine ⟨(raw, field) :: entries, extra, by simp [hlen], rfl, ?_, by simp⟩
          intro entry hentry
          rcases mem_cons.mp hentry with rfl | hentry
          · exact ⟨⟨hraw, hname.symm⟩, hrange⟩
          · exact hentries entry hentry
    · rintro ⟨entries, extra, hlen, rfl, hentries, rfl⟩
      cases entries with
      | nil => cases hlen
      | cons entry entries =>
        obtain ⟨⟨hraw, hname⟩, hrange⟩ := hentries entry mem_cons_self
        have hdata : ((entry :: entries).flatMap fun entry => entry.1 ++ 0 :: fieldDescriptor entry.2) ++
            extra = entry.1 ++ 0 :: (fieldDescriptor entry.2 ++
              ((entries.flatMap fun entry => entry.1 ++ 0 :: fieldDescriptor entry.2) ++ extra)) := by
          simp
        have hlater := ih.mpr ⟨entries, extra, by simpa using hlen, rfl,
          fun other hother => hentries other (mem_cons_of_mem _ hother), rfl⟩
        rw [hdata, rowDescriptionFields, splitNul_append _ hraw]
        simp only
        rw [decodeFieldDescriptor_ok.mpr ⟨hname.symm, hrange, rfl⟩, ok_bind]
        simp only [hlater]
        rfl

theorem decodeRowDescription_ok :
    decodeRowDescription body = .ok msg ↔ ∃ fields, msg = .rowDescription fields ∧ msg.Layout body := by
  simp only [decodeRowDescription, bind_eq_ok, map_eq_ok, Prod.exists, decodeFieldCount_ok,
    rowDescriptionFields_ok]
  constructor
  · rintro ⟨count, rest, ⟨hmax, rfl⟩, fields, ⟨entries, extra, rfl, rfl, hentries, rfl⟩, rfl⟩
    exact ⟨_, rfl, entries, extra, hmax, rfl, hentries, (append_assoc ..).symm⟩
  · rintro ⟨fields, rfl, entries, extra, hmax, rfl, hentries, rfl⟩
    exact ⟨_, _, ⟨hmax, append_assoc ..⟩, _, ⟨entries, extra, rfl, rfl, hentries, rfl⟩, rfl⟩

/-! ### Messages -/

/-- A body decodes under a tag exactly when it is laid out as a message of that tag. -/
theorem decodeBody_ok {tag : UInt8} :
    decodeBody tag body = .ok msg ↔ tag = UInt8.ofNat msg.letter.toNat ∧ msg.Layout body := by
  constructor
  · intro h
    unfold decodeBody at h
    split at h
    · next htag =>
        obtain ⟨auth, rfl, hlayout⟩ := decodeAuthentication_ok.mp h
        exact ⟨letter_eq htag, hlayout⟩
    · next htag =>
        obtain ⟨_, _, rfl, hlayout⟩ := decodeBackendKeyData_ok.mp h
        exact ⟨letter_eq htag, hlayout⟩
    · next htag =>
        obtain ⟨_, rfl, hlayout⟩ := decodeCommandComplete_ok.mp h
        exact ⟨letter_eq htag, hlayout⟩
    · next htag =>
        obtain ⟨_, rfl, hlayout⟩ := decodeDataRow_ok.mp h
        exact ⟨letter_eq htag, hlayout⟩
    · next htag =>
        obtain ⟨fields, hfields, rfl⟩ := map_eq_ok.mp h
        exact ⟨letter_eq htag, decodeErrorFields_ok.mp hfields⟩
    · next htag =>
        obtain ⟨fields, hfields, rfl⟩ := map_eq_ok.mp h
        exact ⟨letter_eq htag, decodeErrorFields_ok.mp hfields⟩
    · next htag =>
        obtain ⟨_, _, rfl, hlayout⟩ := decodeParameterStatus_ok.mp h
        exact ⟨letter_eq htag, hlayout⟩
    · next htag =>
        obtain ⟨_, rfl, hlayout⟩ := decodeReadyForQuery_ok.mp h
        exact ⟨letter_eq htag, hlayout⟩
    · next htag =>
        obtain ⟨_, rfl, hlayout⟩ := decodeRowDescription_ok.mp h
        exact ⟨letter_eq htag, hlayout⟩
    · cases h
  · rintro ⟨rfl, hlayout⟩
    cases msg with
    | authentication auth => exact decodeAuthentication_ok.mpr ⟨auth, rfl, hlayout⟩
    | backendKeyData processId secretKey => exact decodeBackendKeyData_ok.mpr ⟨_, _, rfl, hlayout⟩
    | commandComplete tag => exact decodeCommandComplete_ok.mpr ⟨tag, rfl, hlayout⟩
    | dataRow fields => exact decodeDataRow_ok.mpr ⟨fields, rfl, hlayout⟩
    | errorResponse fields
    | noticeResponse fields => exact map_eq_ok.mpr ⟨fields, decodeErrorFields_ok.mpr hlayout, rfl⟩
    | parameterStatus name value => exact decodeParameterStatus_ok.mpr ⟨_, _, rfl, hlayout⟩
    | readyForQuery status => exact decodeReadyForQuery_ok.mpr ⟨status, rfl, hlayout⟩
    | rowDescription fields => exact decodeRowDescription_ok.mpr ⟨fields, rfl, hlayout⟩

/-- The buffer starts with a frame whose body stands for the message. -/
def StartsWith (msg : BackendMessage) (data : Bytes) (consumed : Nat) : Prop :=
  ∃ body rest, data = frame msg.letter body ++ rest ∧ body.length + 4 < 2 ^ 31 ∧ msg.Layout body ∧
    consumed = (frame msg.letter body).length

theorem frame_length (letter : Char) (body : Bytes) : (frame letter body).length = body.length + 5 := by
  simp only [frame, length_cons, length_append, i32Bytes_length]
  omega

theorem decodeMessage_iff {consumed : Nat} :
    decodeMessage data = .ok (msg, consumed) ↔ StartsWith msg data consumed := by
  constructor
  · intro h
    match data, h with
    | tag :: a :: b :: c :: d :: rest, h =>
      have hrange := i32FromBeBytes_isI32 a b c d
      simp only [decodeMessage] at h
      split at h
      · cases h
      · next hsmall =>
          split at h
          · cases h
          · next hfit =>
              obtain ⟨msg, hbody, heq⟩ := map_eq_ok.mp h
              cases heq
              obtain ⟨rfl, hlayout⟩ := decodeBody_ok.mp hbody
              simp only [length_cons] at hfit
              have hlen : (rest.take ((i32FromBeBytes a b c d).toNat - 4)).length + 4 =
                  (i32FromBeBytes a b c d).toNat := by
                rw [length_take]
                omega
              have hint : ((rest.take ((i32FromBeBytes a b c d).toNat - 4)).length : Int) + 4 =
                  i32FromBeBytes a b c d := by omega
              refine ⟨_, rest.drop ((i32FromBeBytes a b c d).toNat - 4), ?_, ?_, hlayout, ?_⟩
              · rw [frame, hint, i32Bytes_fromBeBytes]
                simp
              · rw [hlen]
                have := hrange.2
                omega
              · rw [frame_length]
                omega
  · rintro ⟨body, rest, rfl, hlen, hlayout, rfl⟩
    obtain ⟨a, b, c, d, hbytes, hvalue⟩ := i32Bytes_append (i := (body.length : Int) + 4)
      ⟨by omega, by omega⟩ (body ++ rest)
    have hdata : frame msg.letter body ++ rest =
        UInt8.ofNat msg.letter.toNat :: a :: b :: c :: d :: (body ++ rest) := by
      rw [← hbytes]
      simp [frame]
    have htake : (body ++ rest).take (((body.length : Int) + 4).toNat - 4) = body := by
      rw [take_left' (by omega)]
    rw [hdata]
    simp only [decodeMessage, hvalue, htake]
    rw [if_neg (by omega), if_neg (by simp only [length_cons, length_append]; omega),
      decodeBody_ok.mpr ⟨rfl, hlayout⟩, frame_length]
    simp only [Except.map, Except.ok.injEq, Prod.mk.injEq, true_and]
    omega

/-! ### Encodings -/

theorem spells_bytesOf {text : String} (h : NulFree text) : Spells (bytesOf text) text :=
  ⟨h.zero_notMem, fromUtf8Lossy_bytesOf text⟩

/-- The fields of an error with the bytes of their types, in the order a server writes them. -/
def ErrorFields.entries (fields : ErrorFields) : List (UInt8 × Bytes) :=
  [('S', fields.severity), ('C', fields.code), ('M', fields.message), ('D', fields.detail),
    ('H', fields.hint), ('P', fields.position)].filterMap fun field =>
      field.2.map fun text => (UInt8.ofNat field.1.toNat, bytesOf text)

theorem ErrorFields.layout_body (h : fields.WithinLimits) : fields.Layout fields.body := by
  refine ⟨fields.entries, [0], ?_, .inr rfl, ?_, ?_⟩
  · obtain ⟨severity, code, message, detail, hint, position⟩ := fields
    cases severity <;> cases code <;> cases message <;> cases detail <;> cases hint <;> cases position <;>
      simp [ErrorFields.body, ErrorFields.entries, errorField, cString]
  · intro entry hentry
    obtain ⟨⟨letter, text⟩, hfield, hsome⟩ := mem_filterMap.mp hentry
    obtain ⟨text, rfl, rfl⟩ := Option.map_eq_some_iff.mp hsome
    have htext : text ∈ fields.texts := by
      refine mem_filterMap.mpr ⟨some text, ?_, rfl⟩
      exact mem_map_of_mem (f := Prod.snd) hfield
    obtain ⟨hnul, hmax⟩ := h text htext
    refine ⟨?_, hnul.zero_notMem, hmax⟩
    simp only [mem_cons, Prod.mk.injEq, not_mem_nil, or_false] at hfield
    rcases hfield with ⟨rfl, -⟩ | ⟨rfl, -⟩ | ⟨rfl, -⟩ | ⟨rfl, -⟩ | ⟨rfl, -⟩ | ⟨rfl, -⟩ <;> simp only <;> decide
  · rw [← readEntries_eq]
    obtain ⟨severity, code, message, detail, hint, position⟩ := fields
    cases severity <;> cases code <;> cases message <;> cases detail <;> cases hint <;> cases position <;>
      simp [ErrorFields.entries, readEntry, setErrorField_eq, fromUtf8Lossy_bytesOf]

/-- What a server writes for a message within the limits is laid out as it. -/
theorem BackendMessage.layout_body (h : msg.WithinLimits) : msg.Layout msg.body := by
  obtain ⟨hparts, hlen⟩ := h
  cases msg with
  | authentication auth =>
    cases auth with
    | ok => exact ⟨[], (append_nil _).symm⟩
    | cleartextPassword => exact ⟨[], (append_nil _).symm⟩
    | md5Password salt => exact ⟨hparts, [], (append_nil _).symm⟩
    | sasl mechanisms =>
      obtain ⟨hcount, hnames⟩ := hparts
      refine ⟨mechanisms.map bytesOf, [0], ?_, ?_, ?_, by simpa using hcount, .inr (.inr rfl)⟩
      · simp only [BackendMessage.body, AuthenticationMessage.body, flatMap_map]
        rfl
      · intro name hname
        obtain ⟨text, htext, rfl⟩ := mem_map.mp hname
        obtain ⟨hne, hnul⟩ := hnames text htext
        exact ⟨fun hnil => hne (bytesOf_eq_nil.mp hnil), hnul.zero_notMem⟩
      · rw [map_map]
        conv_lhs => rw [← map_id mechanisms]
        congr 1
        funext text
        exact (fromUtf8Lossy_bytesOf text).symm
    | saslContinue data => exact rfl
    | saslFinal data => exact rfl
  | backendKeyData processId secretKey => exact ⟨hparts.1, hparts.2, [], (append_nil _).symm⟩
  | commandComplete tag => exact ⟨bytesOf tag, [], rfl, spells_bytesOf hparts⟩
  | dataRow fields =>
    refine ⟨hparts, ?_, [], (append_nil _).symm⟩
    intro value hvalue
    have hle : (dataRowField (some value)).length ≤ (fields.flatMap dataRowField).length :=
      (sublist_flatten_of_mem (mem_map_of_mem hvalue)).length_le
    simp only [BackendMessage.body, length_append, i16Bytes_length] at hlen
    simp only [dataRowField, length_append, i32Bytes_length] at hle
    omega
  | errorResponse fields => exact ErrorFields.layout_body hparts
  | noticeResponse fields => exact ErrorFields.layout_body hparts
  | parameterStatus name value =>
    obtain ⟨hname, hnameMax, hvalue, hvalueMax⟩ := hparts
    refine ⟨bytesOf name, bytesOf value, [], ?_, spells_bytesOf hname, hnameMax, spells_bytesOf hvalue,
      hvalueMax⟩
    simp [BackendMessage.body, cString]
  | readyForQuery status => exact ⟨[], rfl⟩
  | rowDescription fields =>
    obtain ⟨hcount, hfields⟩ := hparts
    refine ⟨fields.map fun field => (bytesOf field.name, field), [], by simpa using hcount, ?_, ?_, ?_⟩
    · rw [map_map]
      exact (map_id fields).symm
    · intro entry hentry
      obtain ⟨field, hfield, rfl⟩ := mem_map.mp hentry
      exact ⟨spells_bytesOf (hfields field hfield).1, (hfields field hfield).2⟩
    · simp [BackendMessage.body, cString, flatMap_map]

/-- `decode_message` inverts the layout. The encoding of a message within the limits, whatever follows it,
is decoded as the message and as many bytes as it has. A buffer is decoded exactly when it starts with a
frame whose body is laid out as the message, and is refused otherwise. What follows a complete frame makes
no difference to either. -/
theorem decodeMessage_inverts :
    (∀ (msg : BackendMessage) (rest : Bytes), msg.WithinLimits →
      decodeMessage (msg.encoding ++ rest) = .ok (msg, msg.encoding.length)) ∧
    (∀ (data : Bytes) (msg : BackendMessage) (consumed : Nat),
      decodeMessage data = .ok (msg, consumed) ↔ StartsWith msg data consumed) ∧
    (∀ data : Bytes, (∀ msg consumed, ¬ StartsWith msg data consumed) →
      ∃ e, decodeMessage data = .error e) ∧
    ∀ data more : Bytes, headComplete data = true → decodeMessage (data ++ more) = decodeMessage data := by
  refine ⟨?_, fun _ _ _ => decodeMessage_iff, ?_, fun _ more h => (decodeMessage_append more h).2⟩
  · intro msg rest hlimits
    exact decodeMessage_iff.mpr ⟨msg.body, rest, rfl, hlimits.2, msg.layout_body hlimits, rfl⟩
  · intro data hnone
    cases hdec : decodeMessage data with
    | error e => exact ⟨e, rfl⟩
    | ok pair => exact absurd (decodeMessage_iff.mp hdec) (hnone _ _)

/-- `ReadyForQuery` with a byte of the next message behind it. -/
theorem decodeMessage_inverts_ready :
    decodeMessage ((BackendMessage.readyForQuery 73).encoding ++ [90]) =
      .ok (.readyForQuery 73, (BackendMessage.readyForQuery 73).encoding.length) :=
  decodeMessage_inverts.1 (.readyForQuery 73) [90] ⟨trivial, by decide⟩

/-- A SASL request with one mechanism more than the client keeps. -/
def longMechanismList : Bytes :=
  frame 'R' (i32Bytes 10 ++ (List.replicate 33 [65, 0]).flatten ++ [0])

/-- The request encodes no message within the limits, yet it is decoded, with the last name left out. -/
theorem decodeMessage_long_mechanism_list :
    (∀ (msg : BackendMessage) (rest : Bytes), msg.WithinLimits → longMechanismList ≠ msg.encoding ++ rest) ∧
    decodeMessage longMechanismList =
      .ok (.authentication (.sasl (List.replicate 32 "A")), longMechanismList.length) := by
  have hdecoded : decodeMessage longMechanismList =
      .ok (.authentication (.sasl (List.replicate 32 "A")), longMechanismList.length) := by
    decide +kernel
  refine ⟨?_, hdecoded⟩
  intro msg rest hlimits heq
  have hmsg : decodeMessage (msg.encoding ++ rest) = .ok (msg, msg.encoding.length) :=
    decodeMessage_iff.mpr ⟨msg.body, rest, rfl, hlimits.2, msg.layout_body hlimits, rfl⟩
  rw [← heq, hdecoded, ok.injEq, Prod.mk.injEq] at hmsg
  obtain ⟨rfl, hlen⟩ := hmsg
  revert hlen
  decide +kernel

end FraiseQL.Wire
