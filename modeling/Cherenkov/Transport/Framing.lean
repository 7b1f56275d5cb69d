import Cherenkov.Library.Framing
import Cherenkov.Transport.Kick

/-! The read loop of `handle_incoming` reads length-prefixed frames of at most 16 MiB into one
buffer and dispatches what they decode to; the writer task writes the length as a `u32` and the
encoded frame. -/

namespace Cherenkov

open Framing

variable {κ β τ ε : Type}

/-- `len > 16 * 1024 * 1024` ends the loop. -/
def maxFrame : Nat := 16 * 1024 * 1024

/-- The frame that the loop dispatches for a body, if it does. -/
def Sockets.dispatches (S : Sockets κ β τ ε) (body : Bytes) : Option ClientFrame :=
  match S.wtDispatch (some body) with
  | .handle frame => some frame
  | _ => none

/-- The read loop of a session that nobody kicks, from an empty buffer. -/
def Sockets.wtRead (S : Sockets κ β τ ε) (chunks : List Bytes) : List ClientFrame :=
  readLoop maxFrame S.dispatches [] chunks

def wtWrite (frames : List ServerFrame) : Bytes :=
  frames.flatMap fun frame => writeFrame (encodeServer frame)

def clientFrame? (body : Bytes) : Option ClientFrame := (decodeClient body).toOption

def serverFrame? (body : Bytes) : Option ServerFrame := (decodeServer body).toOption

theorem Sockets.dispatches_eq (S : Sockets κ β τ ε) {body : Bytes} (short : body.length ≤ maxFrame) :
    S.dispatches body = clientFrame? body := by
  have fits : ¬16 * 1024 * 1024 < body.length := Nat.not_lt.mpr short
  unfold dispatches wtDispatch decoded clientFrame?
  dsimp only
  rw [if_neg fits]
  cases decodeClient body <;> rfl

/-- The read loop dispatches what was written, however the stream was cut, and of any stream
exactly the longest run of frames that it begins with; what the writer wrote is read back. -/
theorem wt_framing (S : Sockets κ β τ ε) :
    (∀ frames : List ClientFrame,
      (∀ f ∈ frames, f.Fits ∧ (encodeClient f).length ≤ 16 * 1024 * 1024) →
      ∀ chunks : List Bytes,
        chunks.flatten = (frames.flatMap fun f => writeFrame (encodeClient f)) →
        S.wtRead chunks = frames) ∧
    (∀ chunks : List Bytes, ∃ front rest, chunks.flatten = front ++ rest ∧
      Framed maxFrame clientFrame? (S.wtRead chunks) front ∧
      ∀ frames first after, chunks.flatten = first ++ after →
        Framed maxFrame clientFrame? frames first →
        first <+: front ∧ frames <+: S.wtRead chunks) ∧
    ∀ frames : List ServerFrame, (∀ f ∈ frames, f.Fits ∧ (encodeServer f).length < 2 ^ 32) →
      ∀ (buffer : Bytes) (chunks : List Bytes), chunks.flatten = wtWrite frames →
        readLoop (2 ^ 32 - 1) serverFrame? buffer chunks = frames := by
  have agree : ∀ body : Bytes, body.length ≤ maxFrame → S.dispatches body = clientFrame? body :=
    fun body short => S.dispatches_eq short
  refine ⟨?_, ?_, ?_⟩
  · intro frames sound chunks arrives
    refine readLoop_written ?_ [] arrives
    intro f member
    obtain ⟨fits, short⟩ := sound f member
    refine ⟨Nat.lt_of_le_of_lt short (by decide), short, ?_⟩
    rw [S.dispatches_eq short, clientFrame?, decodeClient_encode fits]
    rfl
  · intro chunks
    obtain ⟨front, rest, split, framed, longest⟩ :=
      frames_longest maxFrame S.dispatches chunks.flatten
    rw [← readLoop_eq maxFrame S.dispatches [] chunks] at framed longest
    refine ⟨front, rest, split, framed.mono agree, ?_⟩
    intro frames first after begins others
    exact longest frames first after begins (others.mono fun body short => (agree body short).symm)
  · intro frames sound buffer chunks arrives
    refine readLoop_written ?_ buffer arrives
    intro f member
    obtain ⟨fits, short⟩ := sound f member
    refine ⟨short, Nat.le_sub_one_of_lt short, ?_⟩
    rw [serverFrame?, decodeServer_encode fits]
    rfl

def farewells : List ClientFrame := [.unsubscribe ⟨1, "a"⟩, .unsubscribe ⟨2, "rooms"⟩]

/-- Two frames whose lengths and bodies are cut across three reads. -/
theorem wt_framing_cut :
    carriers.wtRead [[0, 0, 0], [7, 18, 5, 8, 1, 18, 1, 97, 0], [0, 0, 11, 18, 9, 8, 2, 18, 5, 114,
      111, 111, 109, 115]] = farewells ∧
    readLoop (2 ^ 32 - 1) serverFrame? [9, 9, 9] [wtWrite [.unsubscribeOk ⟨1, "a"⟩]] =
      [.unsubscribeOk ⟨1, "a"⟩] := by
  constructor
  · refine (wt_framing carriers).1 farewells ?_ _ (by decide +kernel)
    intro f member
    rcases List.mem_pair.mp member with rfl | rfl
    · exact ⟨⟨by decide +kernel, by decide, by decide +kernel⟩, by decide +kernel⟩
    · exact ⟨⟨by decide +kernel, by decide, by decide +kernel⟩, by decide +kernel⟩
  · refine (wt_framing carriers).2.2 _ ?_ _ _ (List.append_nil _)
    intro f member
    rw [List.mem_singleton.mp member]
    exact ⟨⟨by decide +kernel, by decide, by decide +kernel⟩, by decide +kernel⟩

end Cherenkov
