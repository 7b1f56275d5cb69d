import Mathlib.Data.Nat.Notation
import Mathlib.Data.Option.Basic

/-! The standard alphabet with padding. The decoder takes groups of four characters; only the last
may be padded, and the bits that a padded group does not use have to be zero. -/

namespace Base64

def alphabet : List Char :=
  "ABCDEFGHIJKLMNOPQRSTUVWXYZabcdefghijklmnopqrstuvwxyz0123456789+/".toList

def digit (n : ℕ) : Char := alphabet.getD n '='

def value? (c : Char) : Option ℕ := alphabet.idxOf? c

def encodeChars : List UInt8 → List Char
  | [] => []
  | [a] => [digit (a.toNat / 4), digit (a.toNat % 4 * 16), '=', '=']
  | [a, b] =>
      [digit (a.toNat / 4), digit (a.toNat % 4 * 16 + b.toNat / 16), digit (b.toNat % 16 * 4), '=']
  | a :: b :: c :: rest =>
      digit (a.toNat / 4) :: digit (a.toNat % 4 * 16 + b.toNat / 16) ::
        digit (b.toNat % 16 * 4 + c.toNat / 64) :: digit (c.toNat % 64) :: encodeChars rest

def encode (bytes : List UInt8) : String := String.ofList (encodeChars bytes)

def decodeLast (w x y : Char) : Option (List UInt8) := do
  let p ← value? w
  let q ← value? x
  if y = '=' then
    if q % 16 = 0 then some [UInt8.ofNat (p * 4 + q / 16)] else none
  else
    let r ← value? y
    if r % 4 = 0 then
      some [UInt8.ofNat (p * 4 + q / 16), UInt8.ofNat (q % 16 * 16 + r / 4)]
    else none

def decodeChars : List Char → Option (List UInt8)
  | [] => some []
  | w :: x :: y :: z :: rest =>
      if z = '=' then
        if rest = [] then decodeLast w x y else none
      else do
        let p ← value? w
        let q ← value? x
        let r ← value? y
        let s ← value? z
        let bytes ← decodeChars rest
        some (UInt8.ofNat (p * 4 + q / 16) :: UInt8.ofNat (q % 16 * 16 + r / 4) ::
          UInt8.ofNat (r % 4 * 64 + s) :: bytes)
  | _ => none

def decode (text : String) : Option (List UInt8) := decodeChars text.toList

theorem value?_digit {n : ℕ} (small : n < 64) : value? (digit n) = some n := by
  have all : ∀ n < 64, value? (digit n) = some n := by
    decide +kernel
  exact all n small

theorem digit_ne_pad {n : ℕ} (small : n < 64) : digit n ≠ '=' := by
  have all : ∀ n < 64, digit n ≠ '=' := by
    decide +kernel
  exact all n small

theorem ofNat_eq {b : UInt8} {n : ℕ} (same : n = b.toNat) : UInt8.ofNat n = b := by
  rw [same, UInt8.ofNat_toNat]

theorem decodeChars_encodeChars (bytes : List UInt8) :
    decodeChars (encodeChars bytes) = some bytes := by
  fun_induction encodeChars bytes with
  | case1 => rfl
  | case2 a =>
      have bound := a.toNat_lt
      rw [decodeChars, if_pos rfl, if_pos rfl, decodeLast, value?_digit (by omega),
        value?_digit (by omega)]
      dsimp only [Option.bind_eq_bind, Option.bind_some]
      rw [if_pos rfl, if_pos (by omega), ofNat_eq (b := a) (by omega)]
  | case3 a b =>
      have first := a.toNat_lt
      have second := b.toNat_lt
      rw [decodeChars, if_pos rfl, if_pos rfl, decodeLast, value?_digit (by omega),
        value?_digit (by omega), value?_digit (by omega)]
      dsimp only [Option.bind_eq_bind, Option.bind_some]
      rw [if_neg (digit_ne_pad (by omega)), if_pos (by omega), ofNat_eq (b := a) (by omega),
        ofNat_eq (b := b) (by omega)]
  | case4 a b c rest ih =>
      have first := a.toNat_lt
      have second := b.toNat_lt
      have third := c.toNat_lt
      rw [decodeChars, if_neg (digit_ne_pad (by omega)), value?_digit (by omega),
        value?_digit (by omega), value?_digit (by omega), value?_digit (by omega), ih]
      dsimp only [Option.bind_eq_bind, Option.bind_some]
      rw [ofNat_eq (b := a) (by omega), ofNat_eq (b := b) (by omega), ofNat_eq (b := c) (by omega)]

theorem decode_encode (bytes : List UInt8) : decode (encode bytes) = some bytes := by
  rw [decode, encode, String.toList_ofList, decodeChars_encodeChars]

end Base64
