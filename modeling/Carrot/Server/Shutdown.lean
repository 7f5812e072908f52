import Carrot.Server.Stages

/-!
# Shutting down

What a `Shutdown` that has returned leaves behind, and that it returns.
-/

namespace Carrot

namespace Lifecycle

variable {config : LifecycleConfig} {state after : Lifecycle}

/-! ## Runs -/

theorem Sound.follow (sound : state.Sound config) {actions : List LifecycleAction}
    (happens : state.follow config actions = some after) : after.Sound config := by
  induction actions generalizing state with
  | nil =>
      cases happens
      exact sound
  | cons action actions inductionHypothesis =>
      obtain ⟨next, first, rest⟩ := Option.bind_eq_some_iff.mp happens
      exact inductionHypothesis (sound.step first).1 rest

/-- A call of `Shutdown` that has returned stays so, and what cannot be executed is
not. -/
theorem Sound.still_step (sound : state.Sound config) {number : Nat}
    (returned : state.shutdowns[number]? = some (.returned true)) {action : LifecycleAction}
    (happens : state.step config action = some after) :
    after.shutdowns[number]? = some (.returned true) ∧ after.executed = state.executed := by
  obtain ⟨drained, idle, -⟩ := sound.shutdowns _ (List.mem_of_getElem? returned)
  cases action with
  | owner answer =>
      have owned := sound.ownerStep happens
      exact ⟨owned.shutdowns ▸ returned, owned.executed⟩
  | call =>
      cases happens
      exact ⟨List.getElem?_append_left (List.getElem?_eq_some_iff.mp returned).1 ▸ returned, rfl⟩
  | shutdown other =>
      obtain ⟨phase, next, between, place, moves, rfl⟩ := shutdownStep_eq happens
      obtain ⟨shutdowns, executed⟩ := shutdownMove_frame moves
      refine ⟨?_, executed⟩
      have different : other ≠ number := by
        rintro rfl
        cases place.symm.trans returned
        cases moves
      rw [Lifecycle.setShutdown, List.getElem?_set_ne different, shutdowns, returned]
  | contextDone other =>
      simp only [Lifecycle.step] at happens
      split at happens <;> cases happens
      next waits =>
        refine ⟨?_, rfl⟩
        have different : other ≠ number := by
          rintro rfl
          cases waits.symm.trans returned
        rw [Lifecycle.setShutdown, List.getElem?_set_ne different, returned]
  | execute conn =>
      simp only [Lifecycle.step] at happens
      split at happens <;> cases happens
      next serves => exact absurd drained.clients (Nat.ne_of_gt (sound.busy serves))
  | finish | leave | done =>
      simp only [Lifecycle.step, handlerStep] at happens
      split at happens <;> cases happens
      exact ⟨returned, rfl⟩
  | activeExpire =>
      simp only [Lifecycle.step] at happens
      split at happens <;> cases happens
      next expires => exact absurd (idle.symm.trans expires) (by decide)
  | stopExpiry =>
      simp only [Lifecycle.step] at happens
      split at happens <;> cases happens
      exact ⟨returned, rfl⟩

theorem Sound.still (sound : state.Sound config) {number : Nat}
    (returned : state.shutdowns[number]? = some (.returned true)) {actions : List LifecycleAction}
    (happens : state.follow config actions = some after) :
    after.shutdowns[number]? = some (.returned true) ∧ after.executed = state.executed := by
  induction actions generalizing state with
  | nil =>
      cases happens
      exact ⟨returned, rfl⟩
  | cons action actions inductionHypothesis =>
      obtain ⟨next, first, rest⟩ := Option.bind_eq_some_iff.mp happens
      obtain ⟨stays, same⟩ := sound.still_step returned first
      obtain ⟨last, executed⟩ := inductionHypothesis (sound.step first).1 stays rest
      exact ⟨last, executed.trans same⟩

/-- In every interleaving there are no more registered connections than allowed,
and with an append-only file commands are executed and keys expire only while the
journal is installed.  Once a `Shutdown` that found the server started has
returned, the listener, all connections and the file are closed, no handler and no
loop of active expiry is left, so that no command is executed and no key expires
actively, and so it remains.  The write loop of the executor, which works for
handlers, is not part of these states.

A `Shutdown` that comes before the server has started is not enough: `Start` may
open the file again after it. -/
theorem shutdown_leaves_nothing (config : LifecycleConfig) {state later : Lifecycle}
    {actions more : List LifecycleAction}
    (reached : (new config).follow config actions = some state)
    (continued : state.follow config more = some later) :
    state.conns.active.card ≤ config.maxConnections ∧
    (config.aofEnabled = true → ∀ journaled ∈ state.executed, journaled = true) ∧
    ∀ number : Nat, state.shutdowns[number]? = some (.returned true) →
      later.listener = .closed ∧ later.aof = false ∧ later.expiring = false ∧
      later.conns.active = ∅ ∧ later.conns.serving = ∅ ∧ later.conns.leaving = ∅ ∧
      later.conns.left = ∅ ∧ (∀ conn < later.conns.number, conn ∈ later.conns.closed) ∧
      later.executed = state.executed := by
  have sound := (sound_new config).follow reached
  have soundLater := sound.follow continued
  refine ⟨sound.conns.bounded, sound.executed, fun number returned => ?_⟩
  obtain ⟨stays, same⟩ := sound.still returned continued
  obtain ⟨drained, idle, absent⟩ := soundLater.shutdowns _ (List.mem_of_getElem? stays)
  obtain ⟨active, serving, leaving, left, closed⟩ := soundLater.conns.drained drained.clients
  exact ⟨(soundLater.ended drained.serveDone).2.1, absent, idle, active, serving, leaving, left,
    closed, same⟩

/-- A server with one client, which is served, and a `Shutdown` whose context
expires. -/
def oneClient : List LifecycleAction :=
  [.owner .ok, .owner .ok, .owner .ok, .owner .ok, .owner .ok, .owner .ok, .owner .ok, .owner .ok,
    .owner .ok, .execute 0, .activeExpire, .call, .shutdown 0, .shutdown 0, .owner .ok, .owner .ok,
    .owner .ok, .owner .ok, .shutdown 0, .contextDone 0, .shutdown 0, .finish 0, .leave 0, .done 0,
    .shutdown 0, .stopExpiry, .shutdown 0, .shutdown 0]

theorem shutdown_leaves_nothing_one_client :
    ∃ state, (new ⟨1, true, false⟩).follow ⟨1, true, false⟩ oneClient = some state ∧
      state.shutdowns = [.returned true] ∧ state.executed = [true, true] ∧
      state.conns.number = 1 ∧ state.aof = false := by
  have run : ((new ⟨1, true, false⟩).follow ⟨1, true, false⟩ oneClient).map
      (fun state => (state.shutdowns, state.executed, state.conns.number)) =
        some ([.returned true], [true, true], 1) := by
    decide +kernel
  obtain ⟨state, reached, facts⟩ := Option.map_eq_some_iff.mp run
  simp only [Prod.mk.injEq] at facts
  obtain ⟨returned, executed, number⟩ := facts
  obtain ⟨-, -, leaves⟩ := shutdown_leaves_nothing ⟨1, true, false⟩ reached
    (show state.follow _ [] = some state from rfl)
  exact ⟨state, reached, returned, executed, number, (leaves 0 (by rw [returned]; rfl)).2.1⟩

-- `Shutdown` runs between the second check of `Start` and `Serve`, and returns; the
-- file is opened again, and `Start` leaves it open.
example :
    ((new ⟨1, true, false⟩).follow ⟨1, true, false⟩
      [.owner .ok, .owner .ok, .owner .ok, .owner .ok, .call, .shutdown 0, .shutdown 0,
        .shutdown 0, .owner .ok, .owner .ok, .owner .ok]).map
      (fun state => (state.owner, state.shutdowns, state.aof)) =
    some (.returned, [.returned false], true) := by
  decide +kernel

/-! ## Shutdown returns -/

end Lifecycle

/-- Steps that the owner may still take when the server is closing. -/
def OwnerPhase.remaining : OwnerPhase → Nat
  | checking => 18
  | opening => 17
  | listening => 16
  | rechecking => 15
  | reopening => 14
  | entering => 13
  -- This step also starts the loop of active expiry, which has a step to take.
  | spawning => 12
  | accepting => 10
  | accepted => 9
  | failing _ => 8
  | givingUp => 7
  | unwinding => 6
  | announcing => 5
  | served => 4
  | waiting => 3
  | awaitingExpiry => 2
  | closingPersistence => 1
  | returned => 0

def ShutdownPhase.remaining : ShutdownPhase → Nat
  | called => 8
  | closingListener => 7
  | awaitingServe => 6
  | awaitingClients => 5
  | closingClients => 4
  | awaitingDone => 3
  | awaitingExpiry _ => 2
  | closingPersistence _ => 1
  | returned _ => 0

def Connections.remaining (conns : Connections) : Nat :=
  3 * conns.serving.card + 2 * conns.leaving.card + conns.left.card

/-- An action that brings the end of the server nearer: all but new calls of
`Shutdown` and what is executed. -/
def LifecycleAction.ends : LifecycleAction → Bool
  | call | execute _ | activeExpire => false
  | _ => true

namespace Lifecycle

variable {config : LifecycleConfig} {state after : Lifecycle}

def remaining (state : Lifecycle) : Nat :=
  state.owner.remaining + (state.shutdowns.map ShutdownPhase.remaining).sum +
    state.conns.remaining + state.expiring.toNat

/-- While `Serve` is running, the owner is not blocked. -/
theorem Sound.serve_moves (sound : state.Sound config) (started : state.started = true)
    (unserved : state.serveDone = false) : (state.ownerStep config .ok).isSome = true := by
  have fits := sound.owner
  unfold Lifecycle.ownerStep
  cases place : state.owner with
  | checking | opening | listening | rechecking | reopening =>
      rw [place] at fits
      exact absurd (fits.symm.trans started) (by decide)
  | entering =>
      rw [place] at fits
      exact absurd (fits.1.symm.trans started) (by decide)
  | spawning | accepting | accepted | failing | givingUp | unwinding | announcing => rfl
  | served | waiting | returned =>
      rw [place] at fits
      exact absurd (unserved.symm.trans (fits.trans started)) (by decide)
  | awaitingExpiry | closingPersistence =>
      rw [place] at fits
      exact absurd (unserved.symm.trans (fits.1.trans started)) (by decide)

/-- While a handler is left, one can go on to its end. -/
theorem Sound.handler_moves (sound : state.Sound config) (clients : state.conns.clientsWg ≠ 0) :
    ∃ action, action.ends = true ∧ (state.step config action).isSome = true := by
  have total := sound.conns.clients
  by_cases serving : state.conns.serving.Nonempty
  · obtain ⟨conn, inside⟩ := serving
    exact ⟨.finish conn, rfl, by simp [Lifecycle.step, handlerStep, inside]⟩
  by_cases leaving : state.conns.leaving.Nonempty
  · obtain ⟨conn, inside⟩ := leaving
    exact ⟨.leave conn, rfl, by simp [Lifecycle.step, handlerStep, inside]⟩
  · have left : state.conns.left.Nonempty := by
      rw [Finset.not_nonempty_iff_eq_empty] at serving leaving
      rw [serving, leaving, Finset.card_empty] at total
      exact Finset.card_pos.mp (by omega)
    obtain ⟨conn, inside⟩ := left
    exact ⟨.done conn, rfl, by simp [Lifecycle.step, handlerStep, inside]⟩

theorem shutdown_moves {number : Nat} {phase : ShutdownPhase}
    (place : state.shutdowns[number]? = some phase)
    (moves : (state.shutdownMove phase).isSome = true) :
    ∃ action, action.ends = true ∧ (state.step config action).isSome = true := by
  refine ⟨.shutdown number, rfl, ?_⟩
  obtain ⟨⟨between, next⟩, move⟩ := Option.isSome_iff_exists.mp moves
  simp [Lifecycle.step, Lifecycle.shutdownStep, place, move]

/-- Until a call of `Shutdown` has returned, something goes on. -/
theorem Sound.progress (sound : state.Sound config) {number : Nat} {phase : ShutdownPhase}
    (place : state.shutdowns[number]? = some phase) (waits : ∀ started, phase ≠ .returned started) :
    ∃ action, action.ends = true ∧ (state.step config action).isSome = true := by
  have fits := sound.shutdowns phase (List.mem_of_getElem? place)
  cases phase with
  | called | closingListener | closingClients | closingPersistence =>
      exact shutdown_moves place rfl
  | awaitingServe =>
      cases ended : state.serveDone with
      | true => exact shutdown_moves place (by simp [Lifecycle.shutdownMove, ended])
      | false => exact ⟨.owner .ok, rfl, sound.serve_moves fits.2.2 ended⟩
  | awaitingClients | awaitingDone =>
      by_cases clients : state.conns.clientsWg = 0
      · exact shutdown_moves place (by simp [Lifecycle.shutdownMove, clients])
      · exact sound.handler_moves clients
  | awaitingExpiry started =>
      by_cases waited : state.expireWg = 0
      · exact shutdown_moves place (by simp [Lifecycle.shutdownMove, waited])
      · have expires : state.expiring = true :=
          Bool.eq_true_of_not_eq_false fun idle => waited (by rw [sound.expiry, idle]; rfl)
        have stopped : state.stopped = true := by
          cases started with
          | false => exact fits.stopped
          | true => exact fits.stopped
        exact ⟨.stopExpiry, rfl, by simp [Lifecycle.step, expires, stopped]⟩
  | returned started => exact absurd rfl (waits started)

end Lifecycle

end Carrot
