import Mathlib.Data.List.Infix
import Mathlib.Algebra.Order.Group.Nat
import Mathlib.Tactic.Ring

/-! A frame is four bytes with the length of its body, most significant first, and the body. A
reader gets the bytes in chunks of any sizes and fills a buffer that it reuses from frame to frame;
what it reads depends on the bytes alone, not on how they were cut or on what the buffer held. -/

namespace Framing

def toBigEndian : Nat → Nat → List UInt8
  | 0, _ => []
  | width + 1, n => UInt8.ofNat (n / 256 ^ width) :: toBigEndian width n

def ofBigEndian (bytes : List UInt8) : Nat := bytes.foldl (fun n byte => n * 256 + byte.toNat) 0

theorem toBigEndian_length (width n : Nat) : (toBigEndian width n).length = width := by
  induction width with
  | zero => rfl
  | succ width ih => rw [toBigEndian, List.length_cons, ih]

theorem foldl_toBigEndian (width n start : Nat) :
    (toBigEndian width n).foldl (fun n byte => n * 256 + byte.toNat) start =
      start * 256 ^ width + n % 256 ^ width := by
  induction width generalizing start with
  | zero => simp [toBigEndian, Nat.mod_one]
  | succ width ih =>
      have digit : (UInt8.ofNat (n / 256 ^ width)).toNat = n / 256 ^ width % 256 := by simp
      rw [toBigEndian, List.foldl_cons, ih, digit, Nat.mod_pow_succ, Nat.pow_succ]
      ring

theorem ofBigEndian_toBigEndian (width n : Nat) :
    ofBigEndian (toBigEndian width n) = n % 256 ^ width := by
  rw [ofBigEndian, foldl_toBigEndian, Nat.zero_mul, Nat.zero_add]

/-- Put the bytes over those of the buffer from a position on. -/
def overwrite (buffer : List UInt8) (filled : Nat) (bytes : List UInt8) : List UInt8 :=
  buffer.take filled ++ bytes ++ buffer.drop (filled + bytes.length)

/-- Fill the rest of the buffer from the chunks that arrive; nothing if they end before. -/
def readExact (buffer : List UInt8) (filled : Nat) :
    List (List UInt8) → Option (List UInt8 × List (List UInt8))
  | [] => if buffer.length ≤ filled then some (buffer, []) else none
  | chunk :: chunks =>
      if buffer.length ≤ filled then some (buffer, chunk :: chunks)
      else if chunk.length ≤ buffer.length - filled then
        readExact (overwrite buffer filled chunk) (filled + chunk.length) chunks
      else
        some (overwrite buffer filled (chunk.take (buffer.length - filled)),
          chunk.drop (buffer.length - filled) :: chunks)

theorem overwrite_length {buffer bytes : List UInt8} {filled : Nat}
    (room : filled + bytes.length ≤ buffer.length) :
    (overwrite buffer filled bytes).length = buffer.length := by
  simp only [overwrite, List.length_append, List.length_take, List.length_drop]
  omega

theorem overwrite_take {buffer bytes : List UInt8} {filled : Nat}
    (room : filled ≤ buffer.length) :
    (overwrite buffer filled bytes).take (filled + bytes.length) = buffer.take filled ++ bytes := by
  have front : (buffer.take filled ++ bytes).length = filled + bytes.length := by
    rw [List.length_append, List.length_take, Nat.min_eq_left room]
  rw [overwrite, ← front, List.take_left]

theorem readExact_some {chunks : List (List UInt8)} {buffer : List UInt8} {filled : Nat}
    (room : filled ≤ buffer.length) (enough : buffer.length - filled ≤ chunks.flatten.length) :
    ∃ rest, readExact buffer filled chunks =
        some (buffer.take filled ++ chunks.flatten.take (buffer.length - filled), rest) ∧
      rest.flatten = chunks.flatten.drop (buffer.length - filled) := by
  induction chunks generalizing buffer filled with
  | nil =>
      have full : buffer.length ≤ filled := by
        rw [List.flatten_nil, List.length_nil] at enough
        omega
      refine ⟨[], ?_, List.drop_nil.symm⟩
      rw [readExact, if_pos full, List.take_of_length_le full, List.flatten_nil, List.take_nil,
        List.append_nil]
  | cons chunk chunks ih =>
      rw [readExact]
      by_cases full : buffer.length ≤ filled
      · have none_wanted : buffer.length - filled = 0 := Nat.sub_eq_zero_of_le full
        refine ⟨chunk :: chunks, ?_, by rw [none_wanted, List.drop_zero]⟩
        rw [if_pos full, none_wanted, List.take_zero, List.append_nil, List.take_of_length_le full]
      · rw [if_neg full]
        rw [List.flatten_cons, List.length_append] at enough
        by_cases whole : chunk.length ≤ buffer.length - filled
        · have fits : filled + chunk.length ≤ buffer.length := by omega
          have length := overwrite_length fits
          have want : buffer.length - filled =
              chunk.length + (buffer.length - (filled + chunk.length)) := by
            omega
          obtain ⟨rest, read, left⟩ :=
            @ih (overwrite buffer filled chunk) (filled + chunk.length) (by omega) (by omega)
          refine ⟨rest, ?_, ?_⟩
          · rw [if_pos whole, read, length, overwrite_take room, List.flatten_cons, want,
              List.take_length_add_append, List.append_assoc]
          · rw [left, length, List.flatten_cons, want, List.drop_length_add_append]
        · have inside : buffer.length - filled ≤ chunk.length := by omega
          have taken : (chunk.take (buffer.length - filled)).length = buffer.length - filled := by
            rw [List.length_take, Nat.min_eq_left inside]
          have past : buffer.length ≤ filled + (buffer.length - filled) := by omega
          refine ⟨chunk.drop (buffer.length - filled) :: chunks, ?_, ?_⟩
          · rw [if_neg whole, overwrite, taken, List.drop_eq_nil_of_le past, List.append_nil,
              List.flatten_cons, List.take_append_of_le_length inside]
          · rw [List.flatten_cons, List.flatten_cons, List.drop_append_of_le_length inside]

theorem readExact_none {chunks : List (List UInt8)} {buffer : List UInt8} {filled : Nat}
    (room : filled ≤ buffer.length) (short : chunks.flatten.length < buffer.length - filled) :
    readExact buffer filled chunks = none := by
  induction chunks generalizing buffer filled with
  | nil =>
      rw [List.flatten_nil, List.length_nil] at short
      rw [readExact, if_neg (by omega)]
  | cons chunk chunks ih =>
      rw [List.flatten_cons, List.length_append] at short
      have fits : filled + chunk.length ≤ buffer.length := by omega
      have length := overwrite_length fits
      rw [readExact, if_neg (by omega), if_pos (by omega), ih (by omega) (by omega)]

theorem readExact_cases (buffer : List UInt8) (chunks : List (List UInt8)) :
    (chunks.flatten.length < buffer.length ∧ readExact buffer 0 chunks = none) ∨
      (buffer.length ≤ chunks.flatten.length ∧ ∃ rest,
        readExact buffer 0 chunks = some (chunks.flatten.take buffer.length, rest) ∧
          rest.flatten = chunks.flatten.drop buffer.length) := by
  rcases Nat.lt_or_ge chunks.flatten.length buffer.length with short | enough
  · exact .inl ⟨short, readExact_none (Nat.zero_le _) short⟩
  · exact .inr ⟨enough, readExact_some (Nat.zero_le _) enough⟩

def resize (buffer : List UInt8) (len : Nat) : List UInt8 :=
  buffer.take len ++ List.replicate (len - buffer.length) 0

theorem resize_length (buffer : List UInt8) (len : Nat) : (resize buffer len).length = len := by
  simp only [resize, List.length_append, List.length_take, List.length_replicate]
  omega

/-- Read a length, refuse one beyond the limit, and read as many bytes into the buffer. -/
def readFrame (limit : Nat) (buffer : List UInt8) (chunks : List (List UInt8)) :
    Option (List UInt8 × List (List UInt8)) :=
  match readExact (List.replicate 4 0) 0 chunks with
  | none => none
  | some (header, chunks) =>
      if limit < ofBigEndian header then none
      else readExact (resize buffer (ofBigEndian header)) 0 chunks

/-- The first frame of the bytes, and what follows it. -/
def frame? (limit : Nat) (bytes : List UInt8) : Option (List UInt8 × List UInt8) :=
  if bytes.length < 4 then none
  else
    let len := ofBigEndian (bytes.take 4)
    let rest := bytes.drop 4
    if limit < len ∨ rest.length < len then none else some (rest.take len, rest.drop len)

/-- Neither the cuts nor the buffer matter. -/
theorem readFrame_eq (limit : Nat) (buffer : List UInt8) (chunks : List (List UInt8)) :
    (readFrame limit buffer chunks).map (fun out => (out.1, out.2.flatten)) =
      frame? limit chunks.flatten := by
  unfold readFrame frame?
  rcases readExact_cases (List.replicate 4 0) chunks with
    ⟨short, failed⟩ | ⟨enough, rest, read, left⟩
  · rw [List.length_replicate] at short
    rw [failed, if_pos short]
    rfl
  · rw [List.length_replicate] at enough read left
    rw [read, if_neg (Nat.not_lt.mpr enough), ← left]
    dsimp only
    by_cases long : limit < ofBigEndian (chunks.flatten.take 4)
    · rw [if_pos long, if_pos (.inl long)]
      rfl
    · rw [if_neg long]
      rcases readExact_cases (resize buffer (ofBigEndian (chunks.flatten.take 4))) rest with
        ⟨short, failed⟩ | ⟨enough, after, read, left⟩
      · rw [resize_length] at short
        rw [failed, if_pos (.inr short)]
        rfl
      · rw [resize_length] at enough read left
        rw [read, if_neg (not_or.mpr ⟨long, Nat.not_lt.mpr enough⟩), ← left]
        rfl

variable {α : Type*}

/-- A sequence of frames that each decode, with the values they decode to. -/
inductive Framed (limit : Nat) (decode : List UInt8 → Option α) : List α → List UInt8 → Prop
  | nil : Framed limit decode [] []
  | cons {header body : List UInt8} {a : α} {rest : List α} {bytes : List UInt8}
      (width : header.length = 4) (length : ofBigEndian header = body.length)
      (short : body.length ≤ limit) (decodes : decode body = some a)
      (others : Framed limit decode rest bytes) :
      Framed limit decode (a :: rest) (header ++ body ++ bytes)

variable {limit : Nat} {decode : List UInt8 → Option α}

theorem frame?_append {header body : List UInt8} (width : header.length = 4)
    (length : ofBigEndian header = body.length) (short : body.length ≤ limit)
    (bytes : List UInt8) : frame? limit (header ++ body ++ bytes) = some (body, bytes) := by
  have first : (header ++ (body ++ bytes)).take 4 = header := by
    rw [← width, List.take_left]
  have rest : (header ++ (body ++ bytes)).drop 4 = body ++ bytes := by
    rw [← width, List.drop_left]
  have enough : ¬(header ++ (body ++ bytes)).length < 4 := by
    rw [List.length_append, width]
    omega
  have fits : ¬(limit < body.length ∨ (body ++ bytes).length < body.length) := by
    rw [List.length_append]
    omega
  unfold frame?
  rw [List.append_assoc, if_neg enough, first, rest, length]
  dsimp only
  rw [if_neg fits, List.take_left, List.drop_left]

theorem frame?_eq_some {bytes body rest : List UInt8} (found : frame? limit bytes = some (body, rest)) :
    ∃ header, header.length = 4 ∧ ofBigEndian header = body.length ∧ body.length ≤ limit ∧
      bytes = header ++ body ++ rest := by
  unfold frame? at found
  split at found
  · cases found
  · next enough =>
      dsimp only at found
      split at found
      · cases found
      · next fits =>
          cases found
          obtain ⟨inside, whole⟩ := not_or.mp fits
          have length : ((bytes.drop 4).take (ofBigEndian (bytes.take 4))).length =
              ofBigEndian (bytes.take 4) := by
            rw [List.length_take, Nat.min_eq_left (Nat.le_of_not_lt whole)]
          refine ⟨bytes.take 4, ?_, length.symm, ?_, ?_⟩
          · rw [List.length_take]
            omega
          · rw [length]
            exact Nat.le_of_not_lt inside
          · rw [List.append_assoc, List.take_append_drop, List.take_append_drop]

theorem frame?_shrinks {bytes body rest : List UInt8}
    (found : frame? limit bytes = some (body, rest)) : rest.length < bytes.length := by
  obtain ⟨header, width, -, -, rfl⟩ := frame?_eq_some found
  simp only [List.length_append]
  omega

theorem readFrame_shrinks {buffer body : List UInt8} {chunks rest : List (List UInt8)}
    (read : readFrame limit buffer chunks = some (body, rest)) :
    rest.flatten.length < chunks.flatten.length := by
  have found := readFrame_eq limit buffer chunks
  rw [read] at found
  exact frame?_shrinks found.symm

/-- Read frames until one cannot be read or decoded, each into the buffer of the one before. -/
def readLoop (limit : Nat) (decode : List UInt8 → Option α) (buffer : List UInt8)
    (chunks : List (List UInt8)) : List α :=
  match _read : readFrame limit buffer chunks with
  | none => []
  | some (body, rest) =>
      match decode body with
      | none => []
      | some a => a :: readLoop limit decode body rest
termination_by chunks.flatten.length
decreasing_by exact readFrame_shrinks _read

def frames (limit : Nat) (decode : List UInt8 → Option α) (bytes : List UInt8) : List α :=
  match _found : frame? limit bytes with
  | none => []
  | some (body, rest) =>
      match decode body with
      | none => []
      | some a => a :: frames limit decode rest
termination_by bytes.length
decreasing_by exact frame?_shrinks _found

theorem frames_of_none {bytes : List UInt8} (none_ : frame? limit bytes = none) :
    frames limit decode bytes = [] := by
  rw [frames]
  split
  · rfl
  · next found => cases none_.symm.trans found

theorem frames_of_some {bytes body rest : List UInt8}
    (found : frame? limit bytes = some (body, rest)) :
    frames limit decode bytes =
      (decode body).elim [] fun a => a :: frames limit decode rest := by
  rw [frames]
  split
  · next none_ => cases found.symm.trans none_
  · next again =>
      cases found.symm.trans again
      cases decode body <;> rfl

theorem readLoop_eq (limit : Nat) (decode : List UInt8 → Option α) (buffer : List UInt8)
    (chunks : List (List UInt8)) :
    readLoop limit decode buffer chunks = frames limit decode chunks.flatten := by
  fun_induction readLoop limit decode buffer chunks with
  | case1 buffer chunks read =>
      have found := readFrame_eq limit buffer chunks
      rw [read] at found
      rw [frames_of_none found.symm]
  | case2 buffer chunks body rest read undecoded =>
      have found := readFrame_eq limit buffer chunks
      rw [read] at found
      rw [frames_of_some found.symm, undecoded]
      rfl
  | case3 buffer chunks body rest read a decoded ih =>
      have found := readFrame_eq limit buffer chunks
      rw [read] at found
      rw [frames_of_some found.symm, decoded, ih]
      rfl

theorem Framed.append {values : List α} {first : List UInt8}
    (framed : Framed limit decode values first) (bytes : List UInt8) :
    frames limit decode (first ++ bytes) = values ++ frames limit decode bytes := by
  induction framed with
  | nil => rfl
  | cons width length short decodes others ih =>
      rw [List.append_assoc, frames_of_some (frame?_append width length short _), decodes,
        Option.elim_some, ih]
      rfl

theorem frames_framed (limit : Nat) (decode : List UInt8 → Option α) (bytes : List UInt8) :
    ∃ front rest, bytes = front ++ rest ∧ Framed limit decode (frames limit decode bytes) front ∧
      frames limit decode rest = [] := by
  fun_induction frames limit decode bytes with
  | case1 bytes none_ => exact ⟨[], bytes, rfl, .nil, frames_of_none none_⟩
  | case2 bytes body rest found undecoded =>
      refine ⟨[], bytes, rfl, .nil, ?_⟩
      rw [frames_of_some found, undecoded]
      rfl
  | case3 bytes body rest found a decoded ih =>
      obtain ⟨front, after, rfl, framed, ends⟩ := ih
      obtain ⟨header, width, length, short, rfl⟩ := frame?_eq_some found
      refine ⟨header ++ body ++ front, after, ?_, .cons width length short decoded framed, ends⟩
      rw [List.append_assoc, List.append_assoc, List.append_assoc]

theorem Framed.concat {values others : List α} {first second : List UInt8}
    (framed : Framed limit decode values first) (after : Framed limit decode others second) :
    Framed limit decode (values ++ others) (first ++ second) := by
  induction framed with
  | nil => exact after
  | cons width length short decodes _ ih =>
      rw [List.append_assoc]
      exact .cons width length short decodes ih

theorem Framed.mono {decode' : List UInt8 → Option α}
    (agree : ∀ body, body.length ≤ limit → decode body = decode' body) {values : List α}
    {bytes : List UInt8} (framed : Framed limit decode values bytes) :
    Framed limit decode' values bytes := by
  induction framed with
  | nil => exact .nil
  | cons width length short decodes _ ih =>
      exact .cons width length short ((agree _ short).symm.trans decodes) ih

theorem Framed.unique {values : List α} {first second after rest : List UInt8}
    (framed : Framed limit decode values first) (again : Framed limit decode values second)
    (same : first ++ after = second ++ rest) : first = second := by
  induction framed generalizing second with
  | nil =>
      cases again
      rfl
  | @cons header body _ _ bytes width length short decodes others ih =>
      cases again with
      | @cons header' body' _ _ bytes' width' length' short' decodes' others' =>
          rw [List.append_assoc, List.append_assoc _ bytes'] at same
          have parsed := frame?_append width length short (bytes ++ after)
          rw [same, frame?_append width' length' short' (bytes' ++ rest)] at parsed
          obtain ⟨rfl, left⟩ := Prod.mk.inj (Option.some.inj parsed)
          rw [ih others' left.symm]
          congr 2
          rw [List.append_assoc, List.append_assoc] at same
          exact (List.append_inj same (width.trans width'.symm)).1

/-- The bytes begin with frames of the values that the loop returns, and no longer sequence of
frames begins them. -/
theorem frames_longest (limit : Nat) (decode : List UInt8 → Option α) (bytes : List UInt8) :
    ∃ front rest, bytes = front ++ rest ∧ Framed limit decode (frames limit decode bytes) front ∧
      ∀ values first after, bytes = first ++ after → Framed limit decode values first →
        first <+: front ∧ values <+: frames limit decode bytes := by
  obtain ⟨front, rest, split, framed, -⟩ := frames_framed limit decode bytes
  refine ⟨front, rest, split, framed, ?_⟩
  intro values first after begins others
  have parsed : frames limit decode bytes = values ++ frames limit decode after := by
    rw [begins, others.append]
  obtain ⟨more, left, rfl, next, -⟩ := frames_framed limit decode after
  constructor
  · rw [parsed] at framed
    have same : first ++ more ++ left = front ++ rest := by
      rw [← split, begins, List.append_assoc]
    exact ⟨more, (others.concat next).unique framed same⟩
  · rw [parsed]
    exact List.prefix_append _ _

/-- The length as a `u32`, then the body. -/
def writeFrame (body : List UInt8) : List UInt8 := toBigEndian 4 body.length ++ body

theorem framed_writeFrame {values : List α} {encode : α → List UInt8}
    (sound : ∀ a ∈ values, (encode a).length < 2 ^ 32 ∧ (encode a).length ≤ limit ∧
      decode (encode a) = some a) :
    Framed limit decode values (values.flatMap fun a => writeFrame (encode a)) := by
  induction values with
  | nil => exact .nil
  | cons a rest ih =>
      obtain ⟨⟨fits, short, decodes⟩, others⟩ := List.forall_mem_cons.mp sound
      refine .cons (toBigEndian_length _ _) ?_ short decodes (ih others)
      rw [ofBigEndian_toBigEndian]
      exact Nat.mod_eq_of_lt fits

/-- What was written is read back, however it was cut. -/
theorem readLoop_written {values : List α} {encode : α → List UInt8}
    (sound : ∀ a ∈ values, (encode a).length < 2 ^ 32 ∧ (encode a).length ≤ limit ∧
      decode (encode a) = some a) (buffer : List UInt8) {chunks : List (List UInt8)}
    (arrives : chunks.flatten = values.flatMap fun a => writeFrame (encode a)) :
    readLoop limit decode buffer chunks = values := by
  have ended : frames limit decode [] = [] := frames_of_none rfl
  have parsed := (framed_writeFrame sound).append []
  rw [ended, List.append_nil, List.append_nil] at parsed
  rw [readLoop_eq, arrives, parsed]

end Framing
