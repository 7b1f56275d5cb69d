import Mathlib.Algebra.Ring.Nat
import Mathlib.Tactic.Common

/-! A message is a sequence of fields, each a key (tag and wire type) followed by its value. A
decoder is a function that merges one field into the message read so far; what it does not know it
skips. Readers take the bytes left and return the bytes after the value. The limits are those of a
decoder for 64-bit values: a varint has at most ten bytes, a key fits 32 bits, groups nest at most a
hundred deep. -/

namespace Wire

inductive WireType where
  | varint
  | sixtyFourBit
  | lengthDelimited
  | startGroup
  | endGroup
  | thirtyTwoBit
  deriving DecidableEq, Repr

def WireType.code : WireType → Nat
  | .varint => 0
  | .sixtyFourBit => 1
  | .lengthDelimited => 2
  | .startGroup => 3
  | .endGroup => 4
  | .thirtyTwoBit => 5

def WireType.ofCode : Nat → Option WireType
  | 0 => some .varint
  | 1 => some .sixtyFourBit
  | 2 => some .lengthDelimited
  | 3 => some .startGroup
  | 4 => some .endGroup
  | 5 => some .thirtyTwoBit
  | _ => none

theorem WireType.ofCode_code (w : WireType) : ofCode w.code = some w := by
  cases w <;> rfl

theorem WireType.code_lt (w : WireType) : w.code < 8 := by
  cases w <;> decide

/-- Seven bits a byte, lowest first; all bytes but the last have their high bit set. -/
def varintAux : Nat → Nat → List UInt8
  | 0, n => [UInt8.ofNat n]
  | fuel + 1, n =>
      if n < 128 then [UInt8.ofNat n]
      else UInt8.ofNat (n % 128 + 128) :: varintAux fuel (n / 128)

def varint (n : Nat) : List UInt8 := varintAux n n

/-- Read a varint of at most `k` bytes, of which the last may only hold the top bit. -/
def readVarintAux : Nat → List UInt8 → Option (Nat × List UInt8)
  | 0, _ => none
  | _ + 1, [] => none
  | k + 1, b :: bs =>
      if b.toNat < 128 then
        if k = 0 ∧ 2 ≤ b.toNat then none else some (b.toNat, bs)
      else (readVarintAux k bs).map fun (n, rest) => (b.toNat % 128 + 128 * n, rest)

def readVarint (bs : List UInt8) : Option (Nat × List UInt8) := readVarintAux 10 bs

theorem varintAux_fuel {f g n : Nat} (enough : n ≤ f) (enough' : n ≤ g) :
    varintAux f n = varintAux g n := by
  induction f generalizing g n with
  | zero =>
      cases Nat.le_zero.mp enough
      cases g <;> rfl
  | succ f ih =>
      cases g with
      | zero =>
          cases Nat.le_zero.mp enough'
          rfl
      | succ g =>
          simp only [varintAux]
          split
          · rfl
          · rw [ih (g := g) (by omega) (by omega)]

theorem varint_of_lt {n : Nat} (small : n < 128) : varint n = [UInt8.ofNat n] := by
  cases n with
  | zero => rfl
  | succ n => simp only [varint, varintAux, if_pos small]

theorem varint_of_le {n : Nat} (large : 128 ≤ n) :
    varint n = UInt8.ofNat (n % 128 + 128) :: varint (n / 128) := by
  cases n with
  | zero => cases large
  | succ n =>
      simp only [varint, varintAux, if_neg (Nat.not_lt.mpr large)]
      rw [varintAux_fuel (by omega) (Nat.le_refl _)]

/-- Reading back a varint succeeds exactly if it fits the width that is read. -/
theorem readVarintAux_varint (k n : Nat) (rest : List UInt8) :
    readVarintAux (k + 1) (varint n ++ rest) =
      if n < 2 * 128 ^ k then some (n, rest) else none := by
  induction k generalizing n with
  | zero =>
      by_cases small : n < 128
      · have byte : (UInt8.ofNat n).toNat = n := by
          rw [UInt8.toNat_ofNat']
          omega
        simp only [varint_of_lt small, List.cons_append, List.nil_append, readVarintAux, byte,
          if_pos small, true_and, Nat.pow_zero, Nat.mul_one]
        by_cases bit : n < 2
        · rw [if_neg (Nat.not_le.mpr bit), if_pos bit]
        · rw [if_pos (Nat.not_lt.mp bit), if_neg bit]
      · have large := Nat.not_lt.mp small
        have byte : ¬ (UInt8.ofNat (n % 128 + 128)).toNat < 128 := by
          rw [UInt8.toNat_ofNat']
          omega
        simp only [varint_of_le large, List.cons_append, readVarintAux, if_neg byte, Option.map_none,
          Nat.pow_zero, Nat.mul_one]
        rw [if_neg (by omega)]
  | succ k ih =>
      have positive : 0 < 128 ^ k := Nat.pow_pos (by decide)
      by_cases small : n < 128
      · have byte : (UInt8.ofNat n).toNat = n := by
          rw [UInt8.toNat_ofNat']
          omega
        have bound : n < 2 * 128 ^ (k + 1) := by
          rw [Nat.pow_succ]
          omega
        simp [varint_of_lt small, readVarintAux, byte, small, bound]
      · have large := Nat.not_lt.mp small
        have byte : (UInt8.ofNat (n % 128 + 128)).toNat = n % 128 + 128 := by
          rw [UInt8.toNat_ofNat']
          omega
        have high : ¬ n % 128 + 128 < 128 := by omega
        simp only [varint_of_le large, List.cons_append]
        rw [readVarintAux, byte, if_neg high, ih]
        have fits : n / 128 < 2 * 128 ^ k ↔ n < 2 * 128 ^ (k + 1) := by
          rw [Nat.div_lt_iff_lt_mul (by decide), Nat.pow_succ, Nat.mul_assoc]
        by_cases inside : n / 128 < 2 * 128 ^ k
        · have whole : (n % 128 + 128) % 128 + 128 * (n / 128) = n := by omega
          rw [if_pos inside, if_pos (fits.mp inside)]
          simp only [Option.map_some, whole]
        · rw [if_neg inside, if_neg fun h => inside (fits.mpr h), Option.map_none]

theorem readVarint_varint (n : Nat) (rest : List UInt8) :
    readVarint (varint n ++ rest) = if n < 2 ^ 64 then some (n, rest) else none :=
  readVarintAux_varint 9 n rest

theorem readVarintAux_length {k n : Nat} {bs rest : List UInt8}
    (h : readVarintAux k bs = some (n, rest)) : rest.length < bs.length := by
  induction k generalizing n bs with
  | zero => cases h
  | succ k ih =>
      cases bs with
      | nil => cases h
      | cons b bs =>
          simp only [readVarintAux] at h
          split at h
          · split at h
            · cases h
            · cases h
              exact Nat.lt_succ_self _
          · obtain ⟨⟨m, rest'⟩, read, same⟩ := Option.map_eq_some_iff.mp h
            cases same
            exact Nat.lt_succ_of_lt (ih read)

def key (tag : Nat) (type : WireType) : List UInt8 := varint (tag * 8 + type.code)

def readKey (bs : List UInt8) : Option (Nat × WireType × List UInt8) := do
  let (k, rest) ← readVarint bs
  if 2 ^ 32 ≤ k then none
  else
    let type ← WireType.ofCode (k % 8)
    if k / 8 = 0 then none else some (k / 8, type, rest)

theorem readKey_key {tag : Nat} (positive : 0 < tag) (small : tag < 2 ^ 29) (type : WireType)
    (rest : List UInt8) : readKey (key tag type ++ rest) = some (tag, type, rest) := by
  have code := type.code_lt
  have low : (tag * 8 + type.code) % 8 = type.code := by omega
  have high : (tag * 8 + type.code) / 8 = tag := by omega
  have fits : tag * 8 + type.code < 2 ^ 64 := by omega
  have narrow : ¬ 2 ^ 32 ≤ tag * 8 + type.code := by omega
  simp only [readKey, key, readVarint_varint, if_pos fits, Option.bind_eq_bind, Option.bind_some,
    if_neg narrow, low, high, WireType.ofCode_code, if_neg (Nat.ne_of_gt positive)]

theorem readKey_length {tag : Nat} {type : WireType} {bs rest : List UInt8}
    (h : readKey bs = some (tag, type, rest)) : rest.length < bs.length := by
  simp only [readKey, Option.bind_eq_bind] at h
  obtain ⟨⟨k, body⟩, read, h⟩ := Option.bind_eq_some_iff.mp h
  dsimp only at h
  split at h
  · cases h
  · obtain ⟨t, _, h⟩ := Option.bind_eq_some_iff.mp h
    split at h
    · cases h
    · cases h
      exact readVarintAux_length read

def lengthDelimited (value : List UInt8) : List UInt8 := varint value.length ++ value

def readBytes (bs : List UInt8) : Option (List UInt8 × List UInt8) := do
  let (length, rest) ← readVarint bs
  if length ≤ rest.length then some (rest.take length, rest.drop length) else none

theorem readBytes_lengthDelimited (value rest : List UInt8) :
    readBytes (lengthDelimited value ++ rest) =
      if value.length < 2 ^ 64 then some (value, rest) else none := by
  simp only [readBytes, lengthDelimited, List.append_assoc, readVarint_varint, Option.bind_eq_bind]
  split
  · simp
  · rfl

theorem readBytes_length {bs value rest : List UInt8} (h : readBytes bs = some (value, rest)) :
    rest.length < bs.length := by
  simp only [readBytes, Option.bind_eq_bind] at h
  obtain ⟨⟨k, body⟩, read, h⟩ := Option.bind_eq_some_iff.mp h
  dsimp only at h
  split at h
  · cases h
    have shorter := readVarintAux_length read
    rw [List.length_drop]
    omega
  · cases h

def skipBytes (n : Nat) (bs : List UInt8) : Option (List UInt8) :=
  if n ≤ bs.length then some (bs.drop n) else none

def skipValue : WireType → List UInt8 → Option (List UInt8)
  | .varint, bs => (readVarint bs).map Prod.snd
  | .sixtyFourBit, bs => skipBytes 8 bs
  | .lengthDelimited, bs => (readBytes bs).map Prod.snd
  | .thirtyTwoBit, bs => skipBytes 4 bs
  | .startGroup, _ | .endGroup, _ => none

/-- Skip to the end of the groups that are open, the innermost first. -/
def skipGroups : Nat → List Nat → List UInt8 → Option (List UInt8)
  | _, [], bs => some bs
  | 0, _ :: _, _ => none
  | fuel + 1, inner :: outer, bs => do
      let (tag, type, rest) ← readKey bs
      match type with
      | .endGroup => if tag = inner then skipGroups fuel outer rest else none
      | .startGroup =>
          if outer.length + 1 < 100 then skipGroups fuel (tag :: inner :: outer) rest else none
      | type =>
          if outer.length + 1 < 100 then do
            let rest ← skipValue type rest
            skipGroups fuel (inner :: outer) rest
          else none

def skipField (tag : Nat) (type : WireType) (bs : List UInt8) : Option (List UInt8) :=
  match type with
  | .startGroup => skipGroups bs.length [tag] bs
  | type => skipValue type bs

theorem skipBytes_length {n : Nat} {bs rest : List UInt8} (h : skipBytes n bs = some rest) :
    rest.length ≤ bs.length := by
  unfold skipBytes at h
  split at h
  · cases h
    rw [List.length_drop]
    exact Nat.sub_le _ _
  · cases h

theorem skipValue_length {type : WireType} {bs rest : List UInt8}
    (h : skipValue type bs = some rest) : rest.length ≤ bs.length := by
  cases type with
  | varint =>
      obtain ⟨⟨n, rest'⟩, read, rfl⟩ := Option.map_eq_some_iff.mp h
      exact Nat.le_of_lt (readVarintAux_length read)
  | lengthDelimited =>
      obtain ⟨⟨value, rest'⟩, read, rfl⟩ := Option.map_eq_some_iff.mp h
      exact Nat.le_of_lt (readBytes_length read)
  | sixtyFourBit => exact skipBytes_length h
  | thirtyTwoBit => exact skipBytes_length h
  | startGroup => cases h
  | endGroup => cases h

theorem skipGroups_length {fuel : Nat} {groups : List Nat} {bs rest : List UInt8}
    (h : skipGroups fuel groups bs = some rest) : rest.length ≤ bs.length := by
  induction fuel generalizing groups bs with
  | zero =>
      cases groups with
      | nil =>
          cases h
          exact Nat.le_refl _
      | cons inner outer => cases h
  | succ fuel ih =>
      cases groups with
      | nil =>
          cases h
          exact Nat.le_refl _
      | cons inner outer =>
          simp only [skipGroups, Option.bind_eq_bind] at h
          obtain ⟨⟨tag, type, body⟩, read, h⟩ := Option.bind_eq_some_iff.mp h
          have shorter := readKey_length read
          cases type with
          | endGroup =>
              simp only at h
              split at h
              · exact Nat.le_trans (ih h) (Nat.le_of_lt shorter)
              · cases h
          | startGroup =>
              simp only at h
              split at h
              · exact Nat.le_trans (ih h) (Nat.le_of_lt shorter)
              · cases h
          | _ =>
              simp only at h
              split at h
              · obtain ⟨after, skipped, h⟩ := Option.bind_eq_some_iff.mp h
                exact Nat.le_trans (ih h)
                  (Nat.le_trans (skipValue_length skipped) (Nat.le_of_lt shorter))
              · cases h

theorem skipField_length {tag : Nat} {type : WireType} {bs rest : List UInt8}
    (h : skipField tag type bs = some rest) : rest.length ≤ bs.length := by
  cases type <;> simp only [skipField] at h <;>
    first | exact skipGroups_length h | exact skipValue_length h

section Message

variable {σ : Type}

/-- Merges a field with the given tag and type into the message, at the bytes of its value. -/
abbrev Merge (σ : Type) := σ → Nat → WireType → List UInt8 → Option (σ × List UInt8)

def decodeFields (merge : Merge σ) : Nat → σ → List UInt8 → Option σ
  | _, message, [] => some message
  | 0, _, _ :: _ => none
  | fuel + 1, message, b :: bs => do
      let (tag, type, body) ← readKey (b :: bs)
      let (message, rest) ← merge message tag type body
      decodeFields merge fuel message rest

def decode (merge : Merge σ) (message : σ) (bs : List UInt8) : Option σ :=
  decodeFields merge bs.length message bs

/-- A merge only ever consumes bytes. -/
def Consumes (merge : Merge σ) : Prop :=
  ∀ message tag type body message' rest, merge message tag type body = some (message', rest) →
    rest.length ≤ body.length

variable {merge : Merge σ}

theorem decodeFields_fuel (consumes : Consumes merge) {f g : Nat} {message : σ} {bs : List UInt8}
    (enough : bs.length ≤ f) (enough' : bs.length ≤ g) :
    decodeFields merge f message bs = decodeFields merge g message bs := by
  induction f generalizing g message bs with
  | zero =>
      cases List.length_eq_zero_iff.mp (Nat.le_zero.mp enough)
      cases g <;> rfl
  | succ f ih =>
      cases bs with
      | nil => cases g <;> rfl
      | cons b bs =>
          cases g with
          | zero => cases enough'
          | succ g =>
              simp only [decodeFields]
              cases read : readKey (b :: bs) with
              | none => rfl
              | some field =>
                  obtain ⟨tag, type, body⟩ := field
                  have shorter := readKey_length read
                  simp only [Option.bind_eq_bind, Option.bind_some]
                  cases merged : merge message tag type body with
                  | none => rfl
                  | some out =>
                      have consumed := consumes _ _ _ _ _ _ merged
                      simp only [List.length_cons] at shorter enough enough'
                      exact ih (by omega) (by omega)

theorem decode_field (consumes : Consumes merge) {tag : Nat} {type : WireType}
    {message : σ} {bs body : List UInt8} (read : readKey bs = some (tag, type, body)) :
    decode merge message bs =
      (merge message tag type body).bind fun out => decode merge out.1 out.2 := by
  have shorter := readKey_length read
  cases bs with
  | nil => cases read
  | cons b bs =>
      simp only [decode, List.length_cons, decodeFields, read, Option.bind_eq_bind,
        Option.bind_some]
      cases merged : merge message tag type body with
      | none => rfl
      | some out =>
          have consumed := consumes _ _ _ _ _ _ merged
          simp only [List.length_cons] at shorter
          exact decodeFields_fuel consumes (by omega) (Nat.le_refl _)

end Message

end Wire
