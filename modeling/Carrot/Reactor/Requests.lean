import Carrot.Resp.Frames

/-!
# The requests in the input of a connection

The reactor decodes what it has collected from the beginning, each time
something arrives.  It keeps an incomplete message, and forgets everything from
a message that is malformed on.  As long as nothing is malformed, the requests
do not depend on how the input is divided into reads.
-/

namespace Carrot.Reactor

inductive Request where
  | message (value : Value)
  | malformed (cause : DecodeError)

/-- The messages among the requests. -/
def messagesOf (requests : List Request) : List Value :=
  requests.filterMap fun
    | .message value => some value
    | .malformed _ => none

theorem messagesOf_append (first second : List Request) :
    messagesOf (first ++ second) = messagesOf first ++ messagesOf second :=
  List.filterMap_append

theorem messagesOf_map_message (values : List Value) :
    messagesOf (values.map .message) = values := by
  simp [messagesOf, List.filterMap_map]

theorem not_malformed (values : List Value) (cause : DecodeError) :
    .malformed cause ∉ values.map Request.message := by
  simp

def cutLoop (limits : Limits) : Nat → Bytes → List Request × Bytes
  | 0, input => ([], input)
  | fuel + 1, input =>
      match decode limits input with
      | .error cause => if cause.isEof then ([], input) else ([.malformed cause], [])
      | .ok (value, rest) =>
          let (requests, kept) := cutLoop limits fuel rest
          (.message value :: requests, kept)

/-- The requests in the input, and what is kept of it for later. -/
def cut (limits : Limits) (input : Bytes) : List Request × Bytes :=
  cutLoop limits input.length input

/-- The requests when the input arrives in pieces. -/
def received (limits : Limits) : Bytes → List Bytes → List Request × Bytes
  | kept, [] => ([], kept)
  | kept, piece :: pieces =>
      let (requests, kept) := cut limits (kept ++ piece)
      let (later, kept) := received limits kept pieces
      (requests ++ later, kept)

theorem received_append (limits : Limits) (kept : Bytes) (first second : List Bytes) :
    received limits kept (first ++ second) =
      ((received limits kept first).1 ++
          (received limits (received limits kept first).2 second).1,
        (received limits (received limits kept first).2 second).2) := by
  induction first generalizing kept with
  | nil => rfl
  | cons piece first inductionHypothesis =>
      simp only [List.cons_append, received, inductionHypothesis, List.append_assoc]

section

variable {limits : Limits} {depth : Nat} (bounded : limits.depth = some (depth + 1))

include bounded

theorem cutLoop_succ {fuel : Nat} {input : Bytes} (enough : input.length ≤ fuel) :
    cutLoop limits (fuel + 1) input = cutLoop limits fuel input := by
  induction fuel generalizing input with
  | zero =>
      obtain ⟨cause, decoded, ended⟩ := pending_nil bounded
      rw [List.eq_nil_of_length_eq_zero (Nat.le_zero.mp enough)]
      simp only [cutLoop, decoded, ended, if_true]
  | succ fuel inductionHypothesis =>
      rw [cutLoop]
      conv_rhs => rw [cutLoop]
      split
      next => rfl
      next value rest decoded =>
        have shorter := decode_shortens decoded
        rw [inductionHypothesis (by omega)]

theorem cutLoop_eq_cut {fuel : Nat} {input : Bytes} (enough : input.length ≤ fuel) :
    cutLoop limits fuel input = cut limits input := by
  induction fuel, enough using Nat.le_induction with
  | base => rfl
  | succ fuel enough inductionHypothesis => rw [cutLoop_succ bounded enough, inductionHypothesis]

theorem cut_ok {input rest : Bytes} {value : Value}
    (decoded : decode limits input = .ok (value, rest)) :
    cut limits input = (.message value :: (cut limits rest).1, (cut limits rest).2) := by
  have shorter := decode_shortens decoded
  rw [← cutLoop_eq_cut bounded (Nat.le_succ input.length), cutLoop, decoded]
  simp only
  rw [cutLoop_eq_cut bounded (Nat.le_of_lt shorter)]

theorem cut_of_pending {input : Bytes} (pending : Pending limits input) :
    cut limits input = ([], input) := by
  obtain ⟨cause, decoded, ended⟩ := pending
  rw [← cutLoop_eq_cut bounded (Nat.le_succ input.length), cutLoop, decoded]
  simp only [ended, if_true]

theorem cut_of_malformed {input : Bytes} {cause : DecodeError}
    (decoded : decode limits input = .error cause) (final : cause.isEof = false) :
    cut limits input = ([.malformed cause], []) := by
  rw [← cutLoop_eq_cut bounded (Nat.le_succ input.length), cutLoop, decoded]
  simp only [final, Bool.false_eq_true, if_false]

theorem cut_of_frames {input rest : Bytes} {values : List Value}
    (frames : Frames limits input values rest) :
    cut limits input = (values.map .message ++ (cut limits rest).1, (cut limits rest).2) := by
  induction frames with
  | nil => rfl
  | cons decoded _ inductionHypothesis => rw [cut_ok bounded decoded, inductionHypothesis]; rfl

/-- Later input is cut together with what was kept. -/
theorem cut_append {input rest : Bytes} {values : List Value}
    (frames : Frames limits input values rest) (more : Bytes) :
    cut limits (input ++ more) =
      (values.map .message ++ (cut limits (rest ++ more)).1, (cut limits (rest ++ more)).2) :=
  cut_of_frames bounded (frames.append bounded more)

/-- What follows something malformed is forgotten. -/
theorem cut_append_of_malformed {input rest : Bytes} {values : List Value} {cause : DecodeError}
    (frames : Frames limits input values rest) (decoded : decode limits rest = .error cause)
    (final : cause.isEof = false) (more : Bytes) :
    ∃ later, cut limits (input ++ more) = (values.map .message ++ [.malformed later], []) := by
  obtain ⟨later, still, stillFinal⟩ := (decode_steady bounded).error more decoded final
  refine ⟨later, ?_⟩
  rw [cut_append bounded frames, cut_of_malformed bounded still stillFinal]

/-- Input without anything malformed is cut in the same way however it arrives. -/
theorem received_eq_cut {kept : Bytes} {pieces : List Bytes} (settled : Pending limits kept)
    (wellFormed : ∀ cause, .malformed cause ∉ (cut limits (kept ++ pieces.flatten)).1) :
    received limits kept pieces = cut limits (kept ++ pieces.flatten) := by
  induction pieces generalizing kept with
  | nil => rw [List.flatten_nil, List.append_nil, cut_of_pending bounded settled]; rfl
  | cons piece pieces inductionHypothesis =>
      rw [List.flatten_cons, ← List.append_assoc] at wellFormed ⊢
      rcases frames_cases limits (kept ++ piece) with
        ⟨values, rest, frames, pending⟩ | ⟨values, rest, cause, frames, decoded, final⟩
      · rw [cut_append bounded frames] at wellFormed ⊢
        have later := inductionHypothesis pending fun cause membership =>
          wellFormed cause (List.mem_append_right _ membership)
        rw [received, cut_of_frames bounded frames, cut_of_pending bounded pending]
        simp only [List.append_nil, later]
      · obtain ⟨later, whole⟩ :=
          cut_append_of_malformed bounded frames decoded final pieces.flatten
        rw [whole] at wellFormed
        exact absurd (List.mem_append_right _ List.mem_cons_self) (wellFormed later)

/-- What arrives is cut together with what was kept. -/
theorem kept_append {input : Bytes} (wellFormed : ∀ cause, .malformed cause ∉ (cut limits input).1)
    (more : Bytes) :
    (cut limits ((cut limits input).2 ++ more)).2 = (cut limits (input ++ more)).2 := by
  rcases frames_cases limits input with
    ⟨values, rest, frames, pending⟩ | ⟨values, rest, cause, frames, decoded, final⟩
  · rw [cut_append bounded frames, cut_of_frames bounded frames, cut_of_pending bounded pending]
  · rw [cut_of_frames bounded frames, cut_of_malformed bounded decoded final] at wellFormed
    exact absurd (List.mem_append_right _ List.mem_cons_self) (wellFormed cause)

/-- The beginning of a stream of accepted frames is cut into the first of them and
the beginning of another one. -/
theorem cut_of_accepted {frames : List (Bytes × Value)}
    (accepted : ∀ frame ∈ frames, decode limits frame.1 = .ok (frame.2, []))
    {arrived missing : Bytes} (stream : arrived ++ missing = (frames.map Prod.fst).flatten) :
    (∃ served, served <+: frames.map Prod.snd ∧ (cut limits arrived).1 = served.map .message) ∧
      ((cut limits arrived).2 = [] ∨
        ∃ frame ∈ frames, (cut limits arrived).2.length < frame.1.length) := by
  induction frames generalizing arrived with
  | nil =>
      rw [(List.append_eq_nil_iff.mp stream).1, cut_of_pending bounded (pending_nil bounded)]
      exact ⟨⟨[], List.nil_prefix, rfl⟩, .inl rfl⟩
  | cons frame frames inductionHypothesis =>
      rw [List.forall_mem_cons] at accepted
      -- The first frame has arrived as a whole, or its end is missing.
      have cases : (∃ later, arrived = frame.1 ++ later ∧
          later ++ missing = (frames.map Prod.fst).flatten) ∨
          ∃ absent, absent ≠ [] ∧ frame.1 = arrived ++ absent := by
        rcases List.append_eq_append_iff.mp stream with ⟨absent, whole, -⟩ | ⟨later, whole, rest⟩
        · by_cases complete : absent = []
          · subst absent
            rw [List.append_nil] at whole
            refine .inl ⟨[], by rw [whole, List.append_nil], ?_⟩
            rw [List.map_cons, List.flatten_cons, whole] at stream
            exact List.append_cancel_left stream
          · exact .inr ⟨absent, complete, whole⟩
        · exact .inl ⟨later, whole, rest.symm⟩
      rcases cases with ⟨later, rfl, rest⟩ | ⟨absent, partly, whole⟩
      · obtain ⟨⟨served, isPrefix, requests⟩, kept⟩ := inductionHypothesis accepted.2 rest
        rw [cut_ok bounded ((decode_steady bounded).ok later accepted.1), List.nil_append]
        refine ⟨⟨frame.2 :: served, ?_, ?_⟩, kept.imp_right ?_⟩
        · exact (List.prefix_cons_inj _).mpr isPrefix
        · exact congrArg (Request.message frame.2 :: ·) requests
        · rintro ⟨other, membership, shorter⟩
          exact ⟨other, List.mem_cons_of_mem _ membership, shorter⟩
      · have incomplete : decode limits (arrived ++ absent) = .ok (frame.2, []) := by
          rw [← whole]
          exact accepted.1
        rw [cut_of_pending bounded (pending_of_accepted bounded incomplete partly)]
        refine ⟨⟨[], List.nil_prefix, rfl⟩, .inr ⟨frame, List.mem_cons_self, ?_⟩⟩
        have present := List.length_pos_of_ne_nil partly
        change arrived.length < frame.1.length
        rw [whole, List.length_append]
        omega

end

end Carrot.Reactor
