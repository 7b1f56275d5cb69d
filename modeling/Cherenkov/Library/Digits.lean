import Mathlib.Data.Nat.Notation
import Mathlib.Data.Option.Basic

/-! Digits as `char::to_digit` reads them, from a code point, and unsigned numbers as
`from_str_radix` does: a leading `+` is allowed when something follows it, a number that reaches the
limit of its type is none. -/

namespace Digits

def alphanumeric? (code : ℕ) : Option ℕ :=
  if 48 ≤ code ∧ code ≤ 57 then some (code - 48)
  else if 65 ≤ code ∧ code ≤ 90 then some (code - 55)
  else if 97 ≤ code ∧ code ≤ 122 then some (code - 87)
  else none

def digit? (radix code : ℕ) : Option ℕ :=
  (alphanumeric? code).filter fun value => value < radix

def accumulate (radix limit : ℕ) : ℕ → List UInt8 → Option ℕ
  | n, [] => some n
  | n, b :: rest =>
      match digit? radix b.toNat with
      | none => none
      | some d =>
          if n * radix + d < limit then accumulate radix limit (n * radix + d) rest else none

def fromStrRadix (radix limit : ℕ) : List UInt8 → Option ℕ
  | [] => none
  | 43 :: b :: rest => accumulate radix limit 0 (b :: rest)
  | bytes => accumulate radix limit 0 bytes

theorem digit?_lt {radix code d : ℕ} (read : digit? radix code = some d) : d < radix := by
  have small := (Option.filter_eq_some_iff.mp read).2
  exact of_decide_eq_true small

theorem alphanumeric?_ascii {code : ℕ} (named : (alphanumeric? code).isSome) :
    code < 128 ∧ code ≠ 43 ∧ code ≠ 37 := by
  unfold alphanumeric? at named
  split at named
  · omega
  · split at named
    · omega
    · split at named
      · omega
      · cases named

theorem digit?_ascii {radix code d : ℕ} (read : digit? radix code = some d) : code < 128 := by
  have value := (Option.filter_eq_some_iff.mp read).1
  exact (alphanumeric?_ascii (Option.isSome_of_eq_some value)).1

theorem fromStrRadix_pair (a b : UInt8) :
    fromStrRadix 16 256 [a, b] =
      if a = 43 then digit? 16 b.toNat
      else
        match digit? 16 a.toNat, digit? 16 b.toNat with
        | some hi, some lo => some (hi * 16 + lo)
        | _, _ => none := by
  by_cases sign : a = 43
  · subst sign
    rw [if_pos rfl, fromStrRadix, accumulate]
    cases read : digit? 16 b.toNat with
    | none => rfl
    | some lo =>
        have bound := digit?_lt read
        dsimp only
        rw [if_pos (by omega), accumulate, Nat.zero_mul, Nat.zero_add]
  · rw [if_neg sign, fromStrRadix, accumulate]
    · cases high : digit? 16 a.toNat with
      | none => rfl
      | some hi =>
          have above := digit?_lt high
          dsimp only
          rw [if_pos (by omega), accumulate]
          cases low : digit? 16 b.toNat with
          | none => rfl
          | some lo =>
              have below := digit?_lt low
              dsimp only
              rw [if_pos (by omega), accumulate, Nat.zero_mul, Nat.zero_add]
    · intro empty
      cases empty
    · intro first rest same
      cases same
      exact sign rfl

end Digits
