import Mathlib.Data.List.Basic

/-! Base64 with the standard alphabet and padding: three bytes as four symbols, a rest of one or two bytes
padded. Decoding takes only what encoding writes: the padding has to be there and the unused bits are zero. -/

namespace Base64Codec

open Option

def alphabet : List Char := "ABCDEFGHIJKLMNOPQRSTUVWXYZabcdefghijklmnopqrstuvwxyz0123456789+/".toList

def symbol (n : Nat) : Char := alphabet.getD n '='

def value (c : Char) : Option Nat := alphabet.idxOf? c

def encodeBytes : List UInt8 → List Char
  | [] => []
  | [a] => [symbol (a.toNat / 4), symbol (a.toNat % 4 * 16), '=', '=']
  | [a, b] => [symbol (a.toNat / 4), symbol (a.toNat % 4 * 16 + b.toNat / 16), symbol (b.toNat % 16 * 4), '=']
  | a :: b :: c :: bytes =>
    symbol (a.toNat / 4) :: symbol (a.toNat % 4 * 16 + b.toNat / 16) ::
      symbol (b.toNat % 16 * 4 + c.toNat / 64) :: symbol (c.toNat % 64) :: encodeBytes bytes

/-- The first byte of a group. -/
def firstByte (w x : Nat) : UInt8 := UInt8.ofNat (w * 4 + x / 16)

def secondByte (x y : Nat) : UInt8 := UInt8.ofNat (x % 16 * 16 + y / 4)

def thirdByte (y z : Nat) : UInt8 := UInt8.ofNat (y % 4 * 64 + z)

def decodeBytes : List Char → Option (List UInt8)
  | [] => some []
  | p :: q :: r :: t :: cs =>
    (value p).bind fun w => (value q).bind fun x =>
      if r = '=' then
        if t = '=' ∧ cs = [] ∧ x % 16 = 0 then some [firstByte w x] else none
      else (value r).bind fun y =>
        if t = '=' then
          if cs = [] ∧ y % 4 = 0 then some [firstByte w x, secondByte x y] else none
        else (value t).bind fun z =>
          (decodeBytes cs).map fun bytes => firstByte w x :: secondByte x y :: thirdByte y z :: bytes
  | _ => none

theorem value_symbol : ∀ {n : Nat}, n < 64 → value (symbol n) = some n := by
  have hall : ∀ n : Fin 64, value (symbol n) = some n.val := by decide +kernel
  intro n hn
  exact hall ⟨n, hn⟩

theorem symbol_ne_pad : ∀ {n : Nat}, n < 64 → symbol n ≠ '=' := by
  have hall : ∀ n : Fin 64, symbol n ≠ '=' := by decide +kernel
  intro n hn
  exact hall ⟨n, hn⟩

theorem firstByte_eq (a : UInt8) (low : Nat) (h : low < 16) :
    firstByte (a.toNat / 4) (a.toNat % 4 * 16 + low) = a := by
  have hvalue : a.toNat / 4 * 4 + (a.toNat % 4 * 16 + low) / 16 = a.toNat := by omega
  rw [firstByte, hvalue, UInt8.ofNat_toNat]

theorem secondByte_eq (high : Nat) (b : UInt8) (low : Nat) (h : low < 4) :
    secondByte (high * 16 + b.toNat / 16) (b.toNat % 16 * 4 + low) = b := by
  have hb := b.toNat_lt
  have hvalue : (high * 16 + b.toNat / 16) % 16 * 16 + (b.toNat % 16 * 4 + low) / 4 = b.toNat := by omega
  rw [secondByte, hvalue, UInt8.ofNat_toNat]

theorem thirdByte_eq (high : Nat) (c : UInt8) : thirdByte (high * 4 + c.toNat / 64) (c.toNat % 64) = c := by
  have hc := c.toNat_lt
  have hvalue : (high * 4 + c.toNat / 64) % 4 * 64 + c.toNat % 64 = c.toNat := by omega
  rw [thirdByte, hvalue, UInt8.ofNat_toNat]

theorem decodeBytes_encodeBytes (bytes : List UInt8) : decodeBytes (encodeBytes bytes) = some bytes := by
  induction bytes using encodeBytes.induct with
  | case1 => rfl
  | case2 a =>
    have ha := a.toNat_lt
    have hfirst := firstByte_eq a 0 (by decide)
    rw [encodeBytes, decodeBytes, value_symbol (by omega), value_symbol (by omega), bind_some,
      bind_some, if_pos rfl, if_pos ⟨rfl, rfl, by omega⟩]
    exact congrArg (fun byte => some [byte]) hfirst
  | case3 a b =>
    have ha := a.toNat_lt
    have hb := b.toNat_lt
    have hsecond := secondByte_eq (a.toNat % 4) b 0 (by decide)
    rw [encodeBytes, decodeBytes, value_symbol (by omega), value_symbol (by omega), value_symbol (by omega),
      bind_some, bind_some, if_neg (symbol_ne_pad (by omega)), bind_some, if_pos rfl,
      if_pos ⟨rfl, by omega⟩, firstByte_eq a _ (by omega)]
    exact congrArg (fun byte => some [a, byte]) hsecond
  | case4 a b c bytes ih =>
    have ha := a.toNat_lt
    have hb := b.toNat_lt
    have hc := c.toNat_lt
    rw [encodeBytes, decodeBytes, value_symbol (by omega), value_symbol (by omega), value_symbol (by omega),
      value_symbol (by omega), bind_some, bind_some, if_neg (symbol_ne_pad (by omega)),
      bind_some, if_neg (symbol_ne_pad (by omega)), bind_some, ih, map_some,
      firstByte_eq a _ (by omega), secondByte_eq _ b _ (by omega), thirdByte_eq]

/-! ### Texts -/

def encode (text : String) : String := String.ofList (encodeBytes text.toByteArray.data.toList)

/-- Decoding, with the check for UTF-8. -/
def decode (code : String) : Option String :=
  (decodeBytes code.toList).bind fun bytes => String.fromUTF8? ⟨bytes.toArray⟩

theorem decode_encode (text : String) : decode (encode text) = some text := by
  rw [decode, encode, String.toList_ofList, decodeBytes_encodeBytes, bind_some, Array.toArray_toList]
  exact dif_pos text.isValidUTF8

end Base64Codec
