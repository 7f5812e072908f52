import Carrot.Reactor.Connection

/-!
# The limit on responses

The encoder reaches the writer with the limit through a buffer, and that writer
compares each of its writes with the space that was left before the response.
It does not count what it has let through already, as the writer of the other
server does.  So a response that is too long is refused if one of its writes is
too long by itself, and is queued otherwise.
-/

namespace Carrot.Reactor

/-- The writes in which a response reaches the limit. -/
def responseWrites (value : Value) : List Bytes :=
  BufferedWriter.passes 4096 [] (encodeWrites value)

theorem flatten_responseWrites (value : Value) : (responseWrites value).flatten = encode value := by
  rw [responseWrites, BufferedWriter.flatten_passes, List.nil_append, flatten_encodeWrites]

/-- A write of a response is not longer than the response. -/
theorem length_le_of_mem_responseWrites {value : Value} {write : Bytes}
    (membership : write ∈ responseWrites value) : write.length ≤ (encode value).length := by
  rw [← flatten_responseWrites]
  exact (List.sublist_flatten_of_mem membership).length_le

/-- The response is within the limit. -/
def Offer.Fits (config : ServerConfig) (offer : Offer) : Prop :=
  offer.queued + (encode offer.response).length ≤ config.maxResponseBytes

instance (config : ServerConfig) : DecidablePred (Offer.Fits config) :=
  fun _ => inferInstanceAs (Decidable (_ ≤ _))

/-- The response is within the limit, or one of its writes exceeds it. -/
def Offer.Decided (config : ServerConfig) (offer : Offer) : Prop :=
  offer.Fits config ∨
    ∃ write ∈ responseWrites offer.response, config.maxResponseBytes < offer.queued + write.length

namespace Connection

variable {State : Type} {config : ServerConfig}

theorem writeResponse_accepted_iff {connection : Connection State} {value : Value} :
    (connection.writeResponse config value).2 = none ↔
      ∀ write ∈ responseWrites value,
        connection.outBuf.length + write.length ≤ config.maxResponseBytes := by
  rw [writeResponse_eq]
  constructor
  · intro accepted
    split at accepted
    next => cases accepted
    next => cases accepted
    next data delivered =>
      intro write membership
      have short := (BufferedWriter.deliver_piecewiseLimited_iff.mp delivered).2 write membership
      omega
  · intro short
    have delivered : BufferedWriter.deliver
        (BufferedWriter.piecewiseLimited (config.maxResponseBytes - connection.outBuf.length)
          outputLimitError) 4096 [] (encodeWrites value) = .ok (encodeWrites value).flatten := by
      refine BufferedWriter.deliver_piecewiseLimited_iff.mpr ⟨rfl, fun write membership => ?_⟩
      have within := short write membership
      omega
    rw [delivered]

/-- A response that is within the limit is queued. -/
theorem writeResponse_of_fits {connection : Connection State} {value : Value}
    (fits : Offer.Fits config ⟨connection.outBuf.length, value⟩) :
    (connection.writeResponse config value).2 = none := by
  refine writeResponse_accepted_iff.mpr fun write membership => ?_
  simp only [Offer.Fits] at fits
  have shorter := length_le_of_mem_responseWrites membership
  omega

theorem writeResponse_outBuf (connection : Connection State) (value : Value) :
    (connection.writeResponse config value).1.outBuf =
      if (connection.writeResponse config value).2 = none then connection.outBuf ++ encode value
      else connection.outBuf := by
  rcases outcome : connection.writeResponse config value with ⟨after, _ | failure⟩
  · rw [writeResponse_ok outcome]
    rfl
  · rw [writeResponse_failed outcome]
    rfl

/-- What the limit is for. -/
structure HonoursLimit (config : ServerConfig) (connection : Connection State) (value : Value) :
    Prop where
  accepts : (connection.writeResponse config value).2 = none ↔
    (encode value).length ≤ config.maxResponseBytes - connection.outBuf.length
  queues : (connection.writeResponse config value).2 = none →
    (connection.writeResponse config value).1.outBuf = connection.outBuf ++ encode value
  refuses : (connection.writeResponse config value).2 ≠ none →
    (connection.writeResponse config value).1.outBuf = connection.outBuf
  agrees : connection.outBuf = [] →
    ((connection.writeResponse config value).2 = none ↔
      ∃ output, Server.writeResponse config .working value = .ok output)

theorem honoursLimit_iff {connection : Connection State}
    (bounded : connection.outBuf.length ≤ config.maxResponseBytes) (value : Value) :
    HonoursLimit config connection value ↔
      Offer.Decided config ⟨connection.outBuf.length, value⟩ := by
  constructor
  · intro honours
    by_cases fits : connection.outBuf.length + (encode value).length ≤ config.maxResponseBytes
    · exact .inl fits
    · have refused : ¬ (connection.writeResponse config value).2 = none := by
        rw [honours.accepts]
        omega
      rw [writeResponse_accepted_iff] at refused
      push Not at refused
      exact .inr refused
  · intro decided
    have accepts : (connection.writeResponse config value).2 = none ↔
        (encode value).length ≤ config.maxResponseBytes - connection.outBuf.length := by
      rcases decided with fits | ⟨write, membership, long⟩
      · have within := fits
        simp only [Offer.Fits] at within
        exact ⟨fun _ => by omega, fun _ => writeResponse_of_fits fits⟩
      · simp only at membership long
        have shorter := length_le_of_mem_responseWrites membership
        constructor
        · intro accepted
          have within := writeResponse_accepted_iff.mp accepted write membership
          omega
        · intro fits
          omega
    refine ⟨accepts, fun accepted => ?_, fun refused => ?_, fun empty => ?_⟩
    · rw [writeResponse_outBuf, if_pos accepted]
    · rw [writeResponse_outBuf, if_neg refused]
    · rw [accepts, empty]
      simp [Server.writeResponse_eq_ok]

/-- The queue stays within the limit if every response is decided rightly. -/
theorem bounded_of_moves {connection after : Connection State}
    (moves : Relation.ReflTransGen (Move config) connection after)
    (bounded : connection.outBuf.length ≤ config.maxResponseBytes)
    (decided : ∀ offer ∈ after.offered, offer.Decided config) :
    after.outBuf.length ≤ config.maxResponseBytes := by
  induction moves with
  | refl => exact bounded
  | tail _ move inductionHypothesis =>
      have earlier := inductionHypothesis fun offer membership =>
        decided offer ((offered_prefix_of_moves (.single move)).subset membership)
      cases move with
      | queue value accepted =>
          have honours := (honoursLimit_iff earlier value).mpr
            (decided _ (List.mem_append_right _ List.mem_cons_self))
          have fits := honours.accepts.mp accepted
          simp only [List.length_append]
          omega
      | refuse value => exact earlier
      | take count =>
          simp only [Connection.take, List.length_drop]
          omega
      | other inBuf session closed => exact earlier

/-- The limit is kept exactly by the responses that fit or have a write that is
too long by itself, and a connection that has only offered such responses has
never queued more than the limit. -/
theorem writeResponse_honours_limit_iff [GoTables] (config : ServerConfig) :
    (∀ (connection : Connection State) (value : Value),
      connection.outBuf.length ≤ config.maxResponseBytes →
        (HonoursLimit config connection value ↔
          Offer.Decided config ⟨connection.outBuf.length, value⟩)) ∧
      ∀ (service : Service State) (state : State) (events : List Event),
        (∀ offer ∈ ((new state).run service config events).offered, offer.Decided config) →
          ((new state).run service config events).outBuf.length ≤ config.maxResponseBytes :=
  ⟨fun _ value bounded => honoursLimit_iff bounded value,
    fun service state events decided =>
      bounded_of_moves (run_moves service config (new state) events) (Nat.zero_le _) decided⟩

/-- A reply of two strings of 3000 bytes: it reaches the limit of 4096 bytes in
writes of 4096 and 1926 bytes. -/
theorem writeResponse_over_limit :
    let config : ServerConfig := ⟨2097152, 4096⟩
    let text : Bytes := List.replicate 3000 97
    let reply : Value := .array [.bulkString text, .bulkString text]
    let response := (new ()).writeResponse config reply
    response.2 = none ∧ config.maxResponseBytes < response.1.outBuf.length ∧
      ∀ output, Server.writeResponse config .working reply ≠ .ok output := by
  intro config text reply response
  have element : (encode (.bulkString text)).length = 3009 := by
    simp only [encode, text, List.length_append, List.length_cons, List.length_replicate]
    rfl
  have size : (encode reply).length = 6022 := by
    simp only [reply, encode.eq_6, encodeAll, List.length_append, List.length_cons, element]
    rfl
  have accepted : response.2 = none := by
    refine writeResponse_accepted_iff.mpr fun write membership => ?_
    have pieces : ∀ data ∈ encodeWrites reply, data.length ≤ 4096 := by
      intro data membership
      have either : data = 42 :: (Decimal.formatNat 2 ++ crlf) ∨
          data = encode (.bulkString text) := by
        simpa [reply, encodeWrites, encodeWritesAll] using membership
      rcases either with rfl | rfl
      · decide
      · rw [element]
        decide
    exact (Nat.zero_add _).trans_le
      (BufferedWriter.passes_short (Nat.zero_le 4096) pieces write membership)
  have queued : response.1.outBuf = encode reply :=
    (writeResponse_outBuf _ reply).trans (if_pos accepted)
  refine ⟨accepted, ?_, ?_⟩
  · rw [queued, size]
    decide
  · intro output sent
    have fits := (Server.writeResponse_eq_ok.mp sent).2
    rw [size] at fits
    exact absurd fits (by decide)

end Connection

end Carrot.Reactor
