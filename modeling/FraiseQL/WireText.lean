import Mathlib.Data.List.Basic
import FraiseQL.WireScram

/-!
The text of the wire messages as bytes. A string is sent as its UTF-8 bytes, and both readings of bytes as
text, the strict one and the lossy one, give the string back. The lossy reading makes the empty string of no
bytes but none.
-/

namespace FraiseQL.Wire

open List

/-! ### One character -/

variable {n : Nat}

theorem toNat_byte (h : n < 256) : (UInt8.ofNat n).toNat = n :=
  UInt8.toNat_ofNat_of_lt' h

theorem isContinuation_iff (b : UInt8) : isContinuation b = true ↔ 0x80 ≤ b.toNat ∧ b.toNat ≤ 0xBF := by
  simp [isContinuation, UInt8.le_iff_toNat_le]

theorem utf8CharWidth_eq (b : UInt8) : utf8CharWidth b =
    if b.toNat ≤ 0x7F then 1
    else if 0xC2 ≤ b.toNat ∧ b.toNat ≤ 0xDF then 2
    else if 0xE0 ≤ b.toNat ∧ b.toNat ≤ 0xEF then 3
    else if 0xF0 ≤ b.toNat ∧ b.toNat ≤ 0xF4 then 4
    else 0 := by
  simp [utf8CharWidth, UInt8.le_iff_toNat_le]

theorem secondByte_iff (first second : UInt8) : secondByte first second = true ↔
    0x80 ≤ second.toNat ∧ second.toNat ≤ 0xBF ∧ (first.toNat = 0xE0 → 0xA0 ≤ second.toNat) ∧
      (first.toNat = 0xED → second.toNat ≤ 0x9F) ∧ (first.toNat = 0xF0 → 0x90 ≤ second.toNat) ∧
      (first.toNat = 0xF4 → second.toNat ≤ 0x8F) := by
  unfold secondByte
  split
  · simp [UInt8.le_iff_toNat_le]
    omega
  · simp [UInt8.le_iff_toNat_le]
    omega
  · simp [UInt8.le_iff_toNat_le]
    omega
  · simp [UInt8.le_iff_toNat_le]
    omega
  · next h0 h1 h2 h3 =>
      have hne : ∀ {n : Nat} (hn : n < 256), first ≠ UInt8.ofNat n → first.toNat ≠ n := by
        intro n hn hfirst heq
        apply hfirst
        rw [← UInt8.toNat_inj, toNat_byte hn, heq]
      have h0 := hne (n := 0xE0) (by omega) h0
      have h1 := hne (n := 0xED) (by omega) h1
      have h2 := hne (n := 0xF0) (by omega) h2
      have h3 := hne (n := 0xF4) (by omega) h3
      rw [isContinuation_iff]
      omega

/-- The surrogates are no characters. -/
theorem char_toNat_valid (c : Char) : c.toNat < 0xD800 ∨ 0xDFFF < c.toNat ∧ c.toNat < 0x110000 :=
  c.valid

theorem headPiece_encode (c : Char) (more : Bytes) :
    ∃ first rest, String.utf8EncodeChar c = first :: rest ∧
      headPiece first (rest ++ more) = (some c, rest.length) := by
  have hvalid := char_toNat_valid c
  have hval : c.val.toNat = c.toNat := rfl
  unfold String.utf8EncodeChar
  simp only [hval]
  split
  · next h1 =>
      refine ⟨_, [], rfl, ?_⟩
      have hfirst : (UInt8.ofNat c.toNat).toNat = c.toNat := toNat_byte (by omega)
      have hwidth : utf8CharWidth (UInt8.ofNat c.toNat) = 1 := by
        rw [utf8CharWidth_eq, hfirst, if_pos (by omega)]
      simp only [headPiece, hwidth, hfirst, Char.ofNat_toNat, length_nil]
  · next h1 =>
      split
      · next h2 =>
          refine ⟨_, _, rfl, ?_⟩
          have hfirst : (UInt8.ofNat (c.toNat / 64 % 0x20 + 0xc0)).toNat = c.toNat / 64 + 0xc0 := by
            rw [toNat_byte (by omega)]
            omega
          have hsecond : (UInt8.ofNat (c.toNat % 0x40 + 0x80)).toNat = c.toNat % 0x40 + 0x80 :=
            toNat_byte (by omega)
          have hwidth : utf8CharWidth (UInt8.ofNat (c.toNat / 64 % 0x20 + 0xc0)) = 2 := by
            rw [utf8CharWidth_eq, hfirst, if_neg (by omega), if_pos (by omega)]
          have hcont : isContinuation (UInt8.ofNat (c.toNat % 0x40 + 0x80)) = true := by
            rw [isContinuation_iff, hsecond]
            omega
          have hchar : (c.toNat / 64 + 0xc0) % 32 * 64 + (c.toNat % 0x40 + 0x80) % 64 = c.toNat := by
            omega
          simp only [cons_append, nil_append, headPiece, hwidth, hcont, if_true, hfirst, payload,
            hsecond, hchar, Char.ofNat_toNat, length_cons, length_nil]
      · next h2 =>
          have hlast : (UInt8.ofNat (c.toNat % 0x40 + 0x80)).toNat = c.toNat % 0x40 + 0x80 :=
            toNat_byte (by omega)
          have hmiddle : (UInt8.ofNat (c.toNat / 64 % 0x40 + 0x80)).toNat = c.toNat / 64 % 0x40 + 0x80 :=
            toNat_byte (by omega)
          have hlastCont : isContinuation (UInt8.ofNat (c.toNat % 0x40 + 0x80)) = true := by
            rw [isContinuation_iff, hlast]
            omega
          split
          · next h3 =>
              refine ⟨_, _, rfl, ?_⟩
              have hfirst : (UInt8.ofNat (c.toNat / 4096 % 0x10 + 0xe0)).toNat = c.toNat / 4096 + 0xe0 := by
                rw [toNat_byte (by omega)]
                omega
              have hwidth : utf8CharWidth (UInt8.ofNat (c.toNat / 4096 % 0x10 + 0xe0)) = 3 := by
                rw [utf8CharWidth_eq, hfirst, if_neg (by omega), if_neg (by omega), if_pos (by omega)]
              have hsecond : secondByte (UInt8.ofNat (c.toNat / 4096 % 0x10 + 0xe0))
                  (UInt8.ofNat (c.toNat / 64 % 0x40 + 0x80)) = true := by
                rw [secondByte_iff, hfirst, hmiddle]
                omega
              have hchar : ((c.toNat / 4096 + 0xe0) % 16 * 64 + (c.toNat / 64 % 0x40 + 0x80) % 64) * 64 +
                  (c.toNat % 0x40 + 0x80) % 64 = c.toNat := by
                omega
              simp only [cons_append, nil_append, headPiece, hwidth, hsecond, hlastCont, if_true,
                hfirst, payload, hmiddle, hlast, hchar, Char.ofNat_toNat, length_cons, length_nil]
          · next h3 =>
              refine ⟨_, _, rfl, ?_⟩
              have hfirst : (UInt8.ofNat (c.toNat / 262144 % 0x08 + 0xf0)).toNat =
                  c.toNat / 262144 + 0xf0 := by
                rw [toNat_byte (by omega)]
                omega
              have hupper : (UInt8.ofNat (c.toNat / 4096 % 0x40 + 0x80)).toNat =
                  c.toNat / 4096 % 0x40 + 0x80 := toNat_byte (by omega)
              have hwidth : utf8CharWidth (UInt8.ofNat (c.toNat / 262144 % 0x08 + 0xf0)) = 4 := by
                rw [utf8CharWidth_eq, hfirst, if_neg (by omega), if_neg (by omega), if_neg (by omega),
                  if_pos (by omega)]
              have hsecond : secondByte (UInt8.ofNat (c.toNat / 262144 % 0x08 + 0xf0))
                  (UInt8.ofNat (c.toNat / 4096 % 0x40 + 0x80)) = true := by
                rw [secondByte_iff, hfirst, hupper]
                omega
              have hmiddleCont : isContinuation (UInt8.ofNat (c.toNat / 64 % 0x40 + 0x80)) = true := by
                rw [isContinuation_iff, hmiddle]
                omega
              have hchar : (((c.toNat / 262144 + 0xf0) % 8 * 64 + (c.toNat / 4096 % 0x40 + 0x80) % 64) * 64 +
                  (c.toNat / 64 % 0x40 + 0x80) % 64) * 64 + (c.toNat % 0x40 + 0x80) % 64 = c.toNat := by
                omega
              simp only [cons_append, nil_append, headPiece, hwidth, hsecond, hmiddleCont,
                hlastCont, if_true, hfirst, payload, hupper, hmiddle, hlast, hchar, Char.ofNat_toNat,
                length_cons, length_nil]

variable {b : UInt8}

theorem byte_eq (h : n % 256 = b.toNat) : UInt8.ofNat n = b := by
  rw [← UInt8.toNat_inj, UInt8.toNat_ofNat']
  exact h

theorem val_ofNat (h : n < 0xD800 ∨ 0xDFFF < n ∧ n < 0x110000) : (Char.ofNat n).val.toNat = n := by
  have hvalid : n.isValidChar := h
  rw [Char.ofNat, dif_pos hvalid]
  rfl

theorem utf8CharWidth_one (h : utf8CharWidth b = 1) : b.toNat ≤ 0x7F := by
  rw [utf8CharWidth_eq] at h
  split_ifs at h <;> omega

theorem utf8CharWidth_two (h : utf8CharWidth b = 2) : 0xC2 ≤ b.toNat ∧ b.toNat ≤ 0xDF := by
  rw [utf8CharWidth_eq] at h
  split_ifs at h <;> omega

theorem utf8CharWidth_three (h : utf8CharWidth b = 3) : 0xE0 ≤ b.toNat ∧ b.toNat ≤ 0xEF := by
  rw [utf8CharWidth_eq] at h
  split_ifs at h <;> omega

theorem utf8CharWidth_four (h : utf8CharWidth b = 4) : 0xF0 ≤ b.toNat ∧ b.toNat ≤ 0xF4 := by
  rw [utf8CharWidth_eq] at h
  split_ifs at h <;> omega

/-- A character read at the head is encoded by the bytes it was read from. -/
theorem headPiece_some {first : UInt8} {rest : Bytes} {c : Char} {taken : Nat}
    (h : headPiece first rest = (some c, taken)) :
    String.utf8EncodeChar c ++ rest.drop taken = first :: rest := by
  unfold headPiece at h
  split at h
  · next hwidth =>
      have hfirst := utf8CharWidth_one hwidth
      cases h
      have hval := val_ofNat (n := first.toNat) (by omega)
      simp only [String.utf8EncodeChar, hval]
      rw [if_pos (by omega), byte_eq (b := first) (by omega)]
      rfl
  · next b tail hwidth =>
      have hfirst := utf8CharWidth_two hwidth
      split at h
      · next hb =>
          rw [isContinuation_iff] at hb
          cases h
          have hval := val_ofNat (n := first.toNat % 32 * 64 + payload b) (by simp only [payload]; omega)
          simp only [payload] at hval
          simp only [String.utf8EncodeChar, payload, hval]
          rw [if_neg (by omega), if_pos (by omega), byte_eq (b := first) (by omega),
            byte_eq (b := b) (by omega)]
          rfl
      · cases h
  · next b more hwidth =>
      have hfirst := utf8CharWidth_three hwidth
      split at h
      · next hb =>
          rw [secondByte_iff] at hb
          split at h
          · next c' tail =>
              split at h
              · next hc =>
                  rw [isContinuation_iff] at hc
                  cases h
                  have hval := val_ofNat
                    (n := (first.toNat % 16 * 64 + payload b) * 64 + payload c')
                    (by simp only [payload]; omega)
                  simp only [payload] at hval
                  simp only [String.utf8EncodeChar, payload, hval]
                  rw [if_neg (by omega), if_neg (by omega), if_pos (by omega),
                    byte_eq (b := first) (by omega), byte_eq (b := b) (by omega),
                    byte_eq (b := c') (by omega)]
                  rfl
              · cases h
          · cases h
      · cases h
  · next b more hwidth =>
      have hfirst := utf8CharWidth_four hwidth
      split at h
      · next hb =>
          rw [secondByte_iff] at hb
          split at h
          · next c' more' =>
              split at h
              · next hc =>
                  rw [isContinuation_iff] at hc
                  split at h
                  · next d tail =>
                      split at h
                      · next hd =>
                          rw [isContinuation_iff] at hd
                          cases h
                          have hval := val_ofNat
                            (n := ((first.toNat % 8 * 64 + payload b) * 64 + payload c') * 64 + payload d)
                            (by simp only [payload]; omega)
                          simp only [payload] at hval
                          simp only [String.utf8EncodeChar, payload, hval]
                          rw [if_neg (by omega), if_neg (by omega), if_neg (by omega),
                            byte_eq (b := first) (by omega), byte_eq (b := b) (by omega),
                            byte_eq (b := c') (by omega), byte_eq (b := d) (by omega)]
                          rfl
                      · cases h
                  · cases h
              · cases h
          · cases h
      · cases h
  · cases h

/-! ### Strings -/

/-- The loop of `ByteArray.toList` puts the bytes from `i` on after those it has. -/
theorem byteArray_toList_loop (data : ByteArray) (left : Nat) :
    ∀ (i : Nat) (taken : Bytes), data.size = i + left →
      ByteArray.toList.loop data i taken = taken.reverse ++ data.data.toList.drop i := by
  induction left with
  | zero =>
    intro i taken hsize
    have hdone : data.data.toList.drop i = [] := by
      apply drop_eq_nil_of_le
      show data.size ≤ i
      omega
    rw [ByteArray.toList.loop, if_neg (by omega), hdone, append_nil]
  | succ left ih =>
    intro i taken hsize
    have hlt : i < data.data.toList.length := by
      show i < data.size
      omega
    have hget : data.get! i = data.data.toList[i] := by
      show data.data[i]! = _
      rw [getElem!_pos data.data i hlt, Array.getElem_toList]
    rw [ByteArray.toList.loop, if_pos (by omega), ih _ _ (by omega), hget,
      drop_eq_getElem_cons hlt, reverse_cons, append_assoc, singleton_append]

theorem bytesOf_eq (s : String) : bytesOf s = s.toList.flatMap String.utf8EncodeChar := by
  have hbytes : s.toUTF8 = (s.toList.flatMap String.utf8EncodeChar).toByteArray :=
    String.utf8Encode_toList.symm
  calc bytesOf s = s.toUTF8.data.toList := byteArray_toList_loop _ s.toUTF8.size 0 [] (by omega)
    _ = s.toList.flatMap String.utf8EncodeChar := by rw [hbytes, toList_data_toByteArray]

theorem bytesOf_append (s t : String) : bytesOf (s ++ t) = bytesOf s ++ bytesOf t := by
  simp only [bytesOf_eq, String.toList_append, flatMap_append]

theorem utf8Pieces_encode (chars : List Char) {fuel : Nat}
    (hfuel : (chars.flatMap String.utf8EncodeChar).length ≤ fuel) :
    utf8Pieces fuel (chars.flatMap String.utf8EncodeChar) = chars.map some := by
  induction chars generalizing fuel with
  | nil => cases fuel <;> rfl
  | cons c chars ih =>
    obtain ⟨first, rest, henc, hhead⟩ := headPiece_encode c (chars.flatMap String.utf8EncodeChar)
    rw [flatMap_cons, henc, cons_append, length_cons, length_append] at hfuel
    rw [flatMap_cons, henc, cons_append]
    obtain ⟨fuel, rfl⟩ : ∃ n, fuel = n + 1 := ⟨fuel - 1, by omega⟩
    rw [utf8Pieces, hhead, drop_left, ih (by omega), map_cons]

theorem utf8Pieces_bytesOf (s : String) : utf8Pieces (bytesOf s).length (bytesOf s) = s.toList.map some := by
  rw [bytesOf_eq]
  exact utf8Pieces_encode _ (Nat.le_refl _)

/-- The lossy reading loses nothing of a string. -/
theorem fromUtf8Lossy_bytesOf (s : String) : fromUtf8Lossy (bytesOf s) = s := by
  rw [fromUtf8Lossy, utf8Pieces_bytesOf, map_map]
  have hid : ((fun piece : Option Char => piece.getD (Char.ofNat 0xFFFD)) ∘ some) = id := by
    funext c
    rfl
  rw [hid, map_id, String.ofList_toList]

theorem fromUtf8_bytesOf (s : String) : fromUtf8 (bytesOf s) = some s := by
  have hall : ∀ chars : List Char, (chars.map some).mapM id = some chars := by
    intro chars
    induction chars with
    | nil => rfl
    | cons c chars ih => simp [ih]
  rw [fromUtf8, utf8Pieces_bytesOf, hall, Option.map_some, String.ofList_toList]

variable {data : Bytes}

theorem utf8Pieces_some {fuel : Nat} {chars : List Char} (hfuel : data.length ≤ fuel)
    (h : (utf8Pieces fuel data).mapM id = some chars) : chars.flatMap String.utf8EncodeChar = data := by
  induction fuel generalizing data chars with
  | zero =>
    have hnil : data = [] := length_eq_zero_iff.mp (by omega)
    simp only [utf8Pieces, mapM_nil, Option.pure_def, Option.some.injEq] at h
    rw [← h, hnil]
    rfl
  | succ fuel ih =>
    cases data with
    | nil =>
      simp only [utf8Pieces, mapM_nil, Option.pure_def, Option.some.injEq] at h
      rw [← h]
      rfl
    | cons first rest =>
      simp only [utf8Pieces, mapM_cons, id, Option.pure_def, Option.bind_eq_bind,
        Option.bind_eq_some_iff, Option.some.injEq] at h
      obtain ⟨c, hhead, later, hlater, rfl⟩ := h
      have hpiece : headPiece first rest = (some c, (headPiece first rest).2) := by
        rw [← hhead]
      have hrest := ih (by simp only [length_drop, length_cons] at hfuel ⊢; omega) hlater
      rw [flatMap_cons, hrest, headPiece_some hpiece]

variable {s : String}

/-- The strict reading succeeds on the bytes of a string and on nothing else. -/
theorem fromUtf8_eq_some : fromUtf8 data = some s ↔ data = bytesOf s := by
  constructor
  · intro h
    obtain ⟨chars, hchars, rfl⟩ := Option.map_eq_some_iff.mp h
    rw [bytesOf_eq, String.toList_ofList, utf8Pieces_some (Nat.le_refl _) hchars]
  · rintro rfl
    exact fromUtf8_bytesOf s

theorem bytesOf_injective {t : String} (h : bytesOf s = bytesOf t) : s = t := by
  calc s = fromUtf8Lossy (bytesOf s) := (fromUtf8Lossy_bytesOf s).symm
    _ = fromUtf8Lossy (bytesOf t) := by rw [h]
    _ = t := fromUtf8Lossy_bytesOf t

theorem bytesOf_empty : bytesOf "" = [] := by
  rw [bytesOf_eq]
  rfl

theorem bytesOf_eq_nil : bytesOf s = [] ↔ s = "" := by
  constructor
  · intro h
    exact bytesOf_injective (h.trans bytesOf_empty.symm)
  · rintro rfl
    exact bytesOf_empty

/-- A name of at least one byte reads as at least one character. -/
theorem fromUtf8Lossy_eq_empty : fromUtf8Lossy data = "" ↔ data = [] := by
  constructor
  · intro h
    cases data with
    | nil => rfl
    | cons first rest =>
      have hlist := congrArg String.toList h
      simp [fromUtf8Lossy, utf8Pieces] at hlist
  · rintro rfl
    rfl

/-! ### The zero byte -/

theorem utf8EncodeChar_zero_mem {c : Char} (h : (0 : UInt8) ∈ String.utf8EncodeChar c) : c.toNat = 0 := by
  have hval : c.val.toNat = c.toNat := rfl
  have hzero : ∀ {n : Nat}, n < 256 → (0 : UInt8) = UInt8.ofNat n → n = 0 := by
    intro n hn heq
    rw [← toNat_byte hn, ← heq]
    rfl
  unfold String.utf8EncodeChar at h
  simp only [hval] at h
  have hvalid := char_toNat_valid c
  split at h
  · rw [mem_singleton] at h
    exact hzero (by omega) h
  · split at h
    · simp only [mem_cons, not_mem_nil, or_false] at h
      rcases h with h | h <;> have := hzero (by omega) h <;> omega
    · split at h
      · simp only [mem_cons, not_mem_nil, or_false] at h
        rcases h with h | h | h <;> have := hzero (by omega) h <;> omega
      · simp only [mem_cons, not_mem_nil, or_false] at h
        rcases h with h | h | h | h <;> have := hzero (by omega) h <;> omega

/-- A string has no zero byte exactly when it has no NUL character. -/
theorem zero_mem_bytesOf (s : String) : (0 : UInt8) ∈ bytesOf s ↔ Char.ofNat 0 ∈ s.toList := by
  rw [bytesOf_eq, mem_flatMap]
  constructor
  · rintro ⟨c, hmem, hzero⟩
    have hc : c = Char.ofNat 0 := by
      rw [← Char.ofNat_toNat c, utf8EncodeChar_zero_mem hzero]
    exact hc ▸ hmem
  · intro h
    exact ⟨_, h, by decide⟩

end FraiseQL.Wire
