import Cherenkov.Library.Wire

/-! A scalar is a codec for the values of one field type. A message type is a list of fields, each a
scalar with a tag and a place in the message. A field with its default value is not written; a field
that is read replaces what the message had. Whether a message is read back, and as what, is one
equation for every list of fields with distinct tags. -/

namespace Wire

/-- What is read back from a written value, if it fits, is `norm` of the value. -/
structure Scalar (α : Type) where
  type : WireType
  default : α
  write : α → List UInt8
  read : List UInt8 → Option (α × List UInt8)
  fits : α → Bool
  norm : α → α
  fits_default : fits default = true
  norm_default : norm default = default
  read_write : ∀ v rest, read (write v ++ rest) = if fits v then some (norm v, rest) else none
  read_length : ∀ {bs v rest}, read bs = some (v, rest) → rest.length ≤ bs.length

def uint64 : Scalar Nat where
  type := .varint
  default := 0
  write := varint
  read := readVarint
  fits v := decide (v < 2 ^ 64)
  norm v := v
  fits_default := by decide
  norm_default := rfl
  read_write v rest := by simp only [readVarint_varint, decide_eq_true_eq]
  read_length read := Nat.le_of_lt (readVarintAux_length read)

/-- A `uint32` is read as a varint and truncated. -/
def uint32 : Scalar Nat where
  type := .varint
  default := 0
  write := varint
  read bs := (readVarint bs).map fun (v, rest) => (v % 2 ^ 32, rest)
  fits v := decide (v < 2 ^ 64)
  norm v := v % 2 ^ 32
  fits_default := by decide
  norm_default := rfl
  read_write v rest := by
    simp only [readVarint_varint, decide_eq_true_eq]
    split <;> rfl
  read_length read := by
    obtain ⟨⟨v, rest⟩, found, same⟩ := Option.map_eq_some_iff.mp read
    cases same
    exact Nat.le_of_lt (readVarintAux_length found)

def bytes : Scalar (List UInt8) where
  type := .lengthDelimited
  default := []
  write := lengthDelimited
  read := readBytes
  fits v := decide (v.length < 2 ^ 64)
  norm v := v
  fits_default := by decide
  norm_default := rfl
  read_write v rest := by simp only [readBytes_lengthDelimited, decide_eq_true_eq]
  read_length read := Nat.le_of_lt (readBytes_length read)

def utf8 (text : String) : List UInt8 := text.toUTF8.data.toList

def fromUtf8 (bytes : List UInt8) : Option String := String.fromUTF8? ⟨⟨bytes⟩⟩

theorem fromUtf8_utf8 (text : String) : fromUtf8 (utf8 text) = some text := by
  unfold fromUtf8 utf8 String.fromUTF8?
  split
  · rfl
  · next invalid => exact absurd text.isValidUTF8 invalid

theorem utf8_length (text : String) : (utf8 text).length = text.utf8ByteSize := by
  rw [← String.size_toByteArray]
  rfl

def string : Scalar String where
  type := .lengthDelimited
  default := ""
  write v := lengthDelimited (utf8 v)
  read bs := (readBytes bs).bind fun (value, rest) => (fromUtf8 value).map fun text => (text, rest)
  fits v := decide ((utf8 v).length < 2 ^ 64)
  norm v := v
  fits_default := by decide
  norm_default := rfl
  read_write v rest := by
    simp only [readBytes_lengthDelimited, decide_eq_true_eq]
    split
    · simp [fromUtf8_utf8]
    · rfl
  read_length read := by
    obtain ⟨⟨value, rest⟩, found, same⟩ := Option.bind_eq_some_iff.mp read
    obtain ⟨text, -, same⟩ := Option.map_eq_some_iff.mp same
    cases same
    exact Nat.le_of_lt (readBytes_length found)

def ValidTag (tag : Nat) : Prop := 0 < tag ∧ tag < 2 ^ 29

instance (tag : Nat) : Decidable (ValidTag tag) := inferInstanceAs (Decidable (_ ∧ _))

/-- A field of messages `σ`. `copy m` gives a message the field's value in `m`, as it is read
back. -/
structure Field (σ : Type) where
  tag : Nat
  type : WireType
  omitted : σ → Bool
  write : σ → List UInt8
  read : List UInt8 → Option ((σ → σ) × List UInt8)
  fits : σ → Bool
  copy : σ → σ → σ
  fits_omitted : ∀ m, omitted m = true → fits m = true
  read_write : ∀ m rest, read (write m ++ rest) = if fits m then some (copy m, rest) else none
  read_length : ∀ {bs u rest}, read bs = some (u, rest) → rest.length ≤ bs.length

variable {α σ : Type}

def Scalar.field [DecidableEq α] (c : Scalar α) (tag : Nat) (get : σ → α) (set : α → σ → σ) :
    Field σ where
  tag := tag
  type := c.type
  omitted m := decide (get m = c.default)
  write m := c.write (get m)
  read bs := (c.read bs).map fun (v, rest) => (set v, rest)
  fits m := c.fits (get m)
  copy m := set (c.norm (get m))
  fits_omitted m omitted := by
    rw [of_decide_eq_true omitted]
    exact c.fits_default
  read_write m rest := by
    rw [c.read_write]
    split <;> rfl
  read_length read := by
    obtain ⟨⟨v, rest⟩, found, same⟩ := Option.map_eq_some_iff.mp read
    cases same
    exact c.read_length found

section

variable [DecidableEq α] (c : Scalar α) (tag : Nat) (get : σ → α) (set : α → σ → σ)

@[simp] theorem Scalar.field_omitted (m : σ) :
    (c.field tag get set).omitted m = true ↔ get m = c.default :=
  decide_eq_true_iff

@[simp] theorem Scalar.field_fits (m : σ) :
    (c.field tag get set).fits m = c.fits (get m) := rfl

@[simp] theorem Scalar.field_copy (m : σ) :
    (c.field tag get set).copy m = set (c.norm (get m)) := rfl

end

def Field.encode (f : Field σ) (m : σ) : List UInt8 :=
  if f.omitted m then [] else key f.tag f.type ++ f.write m

def encodeFields (fields : List (Field σ)) (m : σ) : List UInt8 :=
  fields.flatMap fun f => f.encode m

/-- Read a field into the message; a field with an unknown tag is skipped. -/
def mergeFields (fields : List (Field σ)) : Merge σ := fun m tag type bs =>
  match fields.find? fun f => f.tag = tag with
  | some f => if type = f.type then (f.read bs).map fun (u, rest) => (u m, rest) else none
  | none => (skipField tag type bs).map fun rest => (m, rest)

theorem mergeFields_consumes (fields : List (Field σ)) : Consumes (mergeFields fields) := by
  intro m tag type body m' rest h
  unfold mergeFields at h
  split at h
  · next f _ =>
      split at h
      · obtain ⟨⟨u, after⟩, read, same⟩ := Option.map_eq_some_iff.mp h
        cases same
        exact f.read_length read
      · cases h
  · obtain ⟨after, skipped, same⟩ := Option.map_eq_some_iff.mp h
    cases same
    exact skipField_length skipped

theorem find_tag {fields : List (Field σ)} (distinct : (fields.map Field.tag).Nodup) {f : Field σ}
    (member : f ∈ fields) : (fields.find? fun g => g.tag = f.tag) = some f := by
  induction fields with
  | nil => cases member
  | cons g fields ih =>
      obtain ⟨fresh, rest⟩ := List.nodup_cons.mp distinct
      rcases List.mem_cons.mp member with rfl | later
      · simp
      · have other : ¬ g.tag = f.tag := by
          intro same
          exact fresh (same ▸ List.mem_map_of_mem later)
        simpa [other] using ih rest later

/-- A field that is not written has its default value in the message read so far. -/
def Fresh (m : σ) : List (Field σ) → σ → Prop
  | [], _ => True
  | f :: fs, cur => (f.omitted m = true → f.copy m cur = cur) ∧ Fresh m fs (f.copy m cur)

def copyAll (m : σ) (fields : List (Field σ)) (cur : σ) : σ :=
  fields.foldl (fun cur f => f.copy m cur) cur

theorem decode_encodeField {fields : List (Field σ)} (distinct : (fields.map Field.tag).Nodup)
    {f : Field σ} (member : f ∈ fields) (valid : ValidTag f.tag) {m cur : σ}
    (default : f.omitted m = true → f.copy m cur = cur) (bs : List UInt8) :
    decode (mergeFields fields) cur (f.encode m ++ bs) =
      if f.fits m then decode (mergeFields fields) (f.copy m cur) bs else none := by
  unfold Field.encode
  split
  · next omitted => rw [default omitted, if_pos (f.fits_omitted m omitted), List.nil_append]
  · rw [List.append_assoc, decode_field (mergeFields_consumes fields)
      (readKey_key valid.1 valid.2 f.type _)]
    simp only [mergeFields, find_tag distinct member, if_true, f.read_write]
    split <;> rfl

/-- A message is read back exactly if all its fields fit. -/
theorem decode_encodeFields {fields : List (Field σ)} (distinct : (fields.map Field.tag).Nodup)
    (valid : ∀ f ∈ fields, ValidTag f.tag) (m : σ) {fs : List (Field σ)} (known : fs ⊆ fields) {cur : σ} (fresh : Fresh m fs cur) :
    decode (mergeFields fields) cur (encodeFields fs m) =
      if fs.all fun f => f.fits m then some (copyAll m fs cur) else none := by
  induction fs generalizing cur with
  | nil => rfl
  | cons f fs ih =>
      obtain ⟨default, rest⟩ := fresh
      obtain ⟨member, known⟩ := List.cons_subset.mp known
      have split : encodeFields (f :: fs) m = f.encode m ++ encodeFields fs m := rfl
      rw [split, decode_encodeField distinct member (valid f member) default, ih known rest]
      cases fits : f.fits m <;> simp [fits, copyAll]

/-- A message type: reading back every field of `m` over the default message gives `norm m`. -/
structure Schema (σ : Type) where
  fields : List (Field σ)
  default : σ
  norm : σ → σ
  distinct : (fields.map Field.tag).Nodup
  valid : ∀ f ∈ fields, ValidTag f.tag
  fresh : ∀ m, Fresh m fields default
  copied : ∀ m, copyAll m fields default = norm m

namespace Schema

def encode (S : Schema σ) (m : σ) : List UInt8 := encodeFields S.fields m

def merge (S : Schema σ) : Merge σ := mergeFields S.fields

def fits (S : Schema σ) (m : σ) : Bool := S.fields.all fun f => f.fits m

theorem decode_encode (S : Schema σ) (m : σ) :
    decode S.merge S.default (S.encode m) = if S.fits m then some (S.norm m) else none := by
  rw [encode, merge, decode_encodeFields S.distinct S.valid m (List.Subset.refl _) (S.fresh m), S.copied]
  rfl

end Schema

/-- Read a length-delimited message on top of `start`. -/
def mergeMessage (inner : Merge σ) (start : σ) (type : WireType) (bs : List UInt8) :
    Option (σ × List UInt8) :=
  if type = .lengthDelimited then
    (readBytes bs).bind fun (body, rest) => (decode inner start body).map fun m => (m, rest)
  else none

theorem mergeMessage_length {inner : Merge σ} {start m : σ} {type : WireType}
    {bs rest : List UInt8} (h : mergeMessage inner start type bs = some (m, rest)) :
    rest.length ≤ bs.length := by
  unfold mergeMessage at h
  split at h
  · obtain ⟨⟨body, after⟩, read, decoded⟩ := Option.bind_eq_some_iff.mp h
    obtain ⟨m', -, same⟩ := Option.map_eq_some_iff.mp decoded
    cases same
    exact Nat.le_of_lt (readBytes_length read)
  · cases h

/-- A variant of a oneof with values `κ`. `read` is given the value the oneof has so far. -/
structure Variant (κ : Type) where
  tag : Nat
  read : Option κ → WireType → List UInt8 → Option (κ × List UInt8)
  read_length : ∀ {kind type bs kind' rest}, read kind type bs = some (kind', rest) →
    rest.length ≤ bs.length

variable {κ : Type}

/-- A variant read again is read on top of the value it has. -/
def Schema.variant (S : Schema σ) (tag : Nat) (wrap : σ → κ) (unwrap : κ → Option σ) :
    Variant κ where
  tag := tag
  read kind type bs :=
    (mergeMessage S.merge ((kind.bind unwrap).getD S.default) type bs).map fun (m, rest) =>
      (wrap m, rest)
  read_length read := by
    obtain ⟨⟨m, rest⟩, merged, same⟩ := Option.map_eq_some_iff.mp read
    cases same
    exact mergeMessage_length merged

/-- A variant is written also if its message is empty. -/
def encodeVariant (tag : Nat) (body : List UInt8) : List UInt8 :=
  key tag .lengthDelimited ++ lengthDelimited body

def mergeOneof (variants : List (Variant κ)) : Merge (Option κ) := fun kind tag type bs =>
  match variants.find? fun v => v.tag = tag with
  | some v => (v.read kind type bs).map fun (kind, rest) => (some kind, rest)
  | none => (skipField tag type bs).map fun rest => (kind, rest)

theorem mergeOneof_consumes (variants : List (Variant κ)) : Consumes (mergeOneof variants) := by
  intro kind tag type body kind' rest h
  unfold mergeOneof at h
  split at h
  · next v _ =>
      obtain ⟨⟨read, after⟩, found, same⟩ := Option.map_eq_some_iff.mp h
      cases same
      exact v.read_length found
  · obtain ⟨after, skipped, same⟩ := Option.map_eq_some_iff.mp h
    cases same
    exact skipField_length skipped

theorem length_le_encodeVariant (tag : Nat) (body : List UInt8) :
    body.length ≤ (encodeVariant tag body).length := by
  simp only [encodeVariant, lengthDelimited, List.length_append]
  omega

theorem decode_encodeVariant {variants : List (Variant κ)} {S : Schema σ} {tag : Nat}
    {wrap : σ → κ} {unwrap : κ → Option σ} (valid : ValidTag tag)
    (known : (variants.find? fun v => v.tag = tag) = some (S.variant tag wrap unwrap))
    {m : σ} (fits : S.fits m) (size : (encodeVariant tag (S.encode m)).length < 2 ^ 64) :
    decode (mergeOneof variants) none (encodeVariant tag (S.encode m)) =
      some (some (wrap (S.norm m))) := by
  have short := Nat.lt_of_le_of_lt (length_le_encodeVariant tag (S.encode m)) size
  rw [← List.append_nil (encodeVariant tag _), encodeVariant, List.append_assoc,
    decode_field (mergeOneof_consumes variants) (readKey_key valid.1 valid.2 _ _)]
  simp only [mergeOneof, known, Schema.variant, mergeMessage, if_true, readBytes_lengthDelimited,
    if_pos short, Option.bind_some, Option.bind_none, Option.getD_none, S.decode_encode,
    if_pos fits, Option.map_some]
  rfl

end Wire
