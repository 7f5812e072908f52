import Carrot.Resp.Messages

/-!
# Streams cut into frames

A stream begins with complete frames, one after the other, and goes on with
something that has not been read.  What arrives later does not change how the
beginning of a stream is cut.
-/

namespace Carrot

/-- A stream begins with frames of these values; the last argument is what
follows them. -/
inductive Frames (limits : Limits) : Bytes → List Value → Bytes → Prop where
  | nil (input : Bytes) : Frames limits input [] input
  | cons {input between rest : Bytes} {value : Value} {values : List Value} :
      decode limits input = .ok (value, between) → Frames limits between values rest →
        Frames limits input (value :: values) rest

/-- The input may still become a frame. -/
def Pending (limits : Limits) (input : Bytes) : Prop :=
  ∃ cause, decode limits input = .error cause ∧ cause.isEof = true

/-- The input can no longer become a frame. -/
def Rejected (limits : Limits) (input : Bytes) : Prop :=
  ∃ cause, decode limits input = .error cause ∧ cause.isEof = false

theorem pending_nil {limits : Limits} {depth : Nat} (bounded : limits.depth = some (depth + 1)) :
    Pending limits [] := by
  refine ⟨.eof, ?_, rfl⟩
  rw [decode, bounded]
  rfl

namespace Frames

variable {limits : Limits}

/-- Every frame takes at least a byte. -/
theorem length_le {input rest : Bytes} {values : List Value}
    (frames : Frames limits input values rest) :
    values.length + rest.length ≤ input.length := by
  induction frames with
  | nil => simp
  | cons decoded _ inductionHypothesis =>
      have shorter := decode_shortens decoded
      rw [List.length_cons]
      omega

theorem append {depth : Nat} (bounded : limits.depth = some depth) {input rest : Bytes}
    {values : List Value} (frames : Frames limits input values rest) (more : Bytes) :
    Frames limits (input ++ more) values (rest ++ more) := by
  induction frames with
  | nil => exact .nil _
  | cons decoded _ inductionHypothesis =>
      exact .cons ((decode_steady bounded).ok more decoded) inductionHypothesis

/-- Input that does not begin with a frame. -/
theorem of_error {input rest : Bytes} {values : List Value}
    (frames : Frames limits input values rest) {cause : DecodeError}
    (failed : decode limits input = .error cause) : values = [] ∧ rest = input := by
  cases frames with
  | nil => exact ⟨rfl, rfl⟩
  | cons decoded =>
      rw [failed] at decoded
      cases decoded

/-- Frames are read in one way only. -/
theorem remaining {input between rest : Bytes} {first values : List Value}
    (start : Frames limits input first between) (whole : Frames limits input values rest)
    {cause : DecodeError} (ends : decode limits rest = .error cause) :
    ∃ more, values = first ++ more ∧ Frames limits between more rest := by
  induction start generalizing values with
  | nil => exact ⟨values, rfl, whole⟩
  | cons decoded _ inductionHypothesis =>
      cases whole with
      | nil =>
          rw [decoded] at ends
          cases ends
      | cons again whole =>
          rw [decoded] at again
          cases again
          obtain ⟨more, same, later⟩ := inductionHypothesis whole
          exact ⟨more, congrArg (_ :: ·) same, later⟩

/-- Accepted frames one after the other. -/
theorem of_accepted {depth : Nat} (bounded : limits.depth = some depth)
    {pieces : List (Bytes × Value)}
    (accepted : ∀ piece ∈ pieces, decode limits piece.1 = .ok (piece.2, [])) (rest : Bytes) :
    Frames limits ((pieces.map Prod.fst).flatten ++ rest) (pieces.map Prod.snd) rest := by
  induction pieces with
  | nil => exact .nil rest
  | cons piece pieces inductionHypothesis =>
      have decoded := (decode_steady bounded).ok ((pieces.map Prod.fst).flatten ++ rest)
        (accepted piece List.mem_cons_self)
      simp only [List.map_cons, List.flatten_cons, List.append_assoc]
      exact .cons decoded (inductionHypothesis fun other membership =>
        accepted other (List.mem_cons_of_mem _ membership))

end Frames

/-- Input consists of messages and an incomplete message, or of messages and
something malformed. -/
theorem frames_cases (limits : Limits) (input : Bytes) :
    (∃ values rest, Frames limits input values rest ∧ Pending limits rest) ∨
      ∃ values rest cause, Frames limits input values rest ∧
        decode limits rest = .error cause ∧ cause.isEof = false := by
  induction size : input.length using Nat.strong_induction_on generalizing input with
  | _ size inductionHypothesis =>
      cases decoded : decode limits input with
      | error cause =>
          cases ended : cause.isEof with
          | true => exact .inl ⟨[], input, .nil input, cause, decoded, ended⟩
          | false => exact .inr ⟨[], input, cause, .nil input, decoded, ended⟩
      | ok message =>
          obtain ⟨value, between⟩ := message
          have shorter := decode_shortens decoded
          rcases inductionHypothesis between.length (size ▸ shorter) between rfl with
            ⟨values, rest, frames, pending⟩ | ⟨values, rest, cause, frames, failed, final⟩
          · exact .inl ⟨value :: values, rest, .cons decoded frames, pending⟩
          · exact .inr ⟨value :: values, rest, cause, .cons decoded frames, failed, final⟩

/-- A frame that has not arrived as a whole may still become one. -/
theorem pending_of_accepted {limits : Limits} {depth : Nat} (bounded : limits.depth = some depth)
    {arrived missing : Bytes} {value : Value}
    (accepted : decode limits (arrived ++ missing) = .ok (value, [])) (partly : missing ≠ []) :
    Pending limits arrived := by
  rcases (decode_steady bounded).ended_of_ok accepted with
    ⟨found, after, _, same⟩ | pending
  · have empty : after ++ missing = [] := (congrArg Prod.snd same).symm
    exact absurd (List.append_eq_nil_iff.mp empty).2 partly
  · exact pending

end Carrot
