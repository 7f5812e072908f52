import Carrot.Server.Lifecycle

/-!
# Where the goroutines of the server are

What holds in every interleaving of the owner, the handlers, the loop of active
expiry and the calls of `Shutdown`.  Where the owner and a call of `Shutdown` are
fits the state they are in, and what the others do does not change that.
-/

namespace Carrot

/-! ## Places that fit the state -/

namespace Lifecycle

/-- `Serve` is running, with the journal if there is to be one. -/
def Running (config : LifecycleConfig) (state : Lifecycle) : Prop :=
  state.started = true ∧ state.serveDone = false ∧ (config.aofEnabled = true → state.aof = true)

/-- `Serve` is over and no handler is left. -/
structure Drained (state : Lifecycle) : Prop where
  closing : state.closing = true
  stopped : state.stopped = true
  started : state.started = true
  serveDone : state.serveDone = true
  clients : state.conns.clientsWg = 0

/-- `Shutdown` came before the server was started, which then never starts. -/
structure Prevented (state : Lifecycle) : Prop where
  closing : state.closing = true
  stopped : state.stopped = true
  unstarted : state.started = false

end Lifecycle

open Lifecycle

/-- What is known where the owner is. -/
def OwnerPhase.Fits (config : LifecycleConfig) (state : Lifecycle) : OwnerPhase → Prop
  | checking | opening | listening | rechecking | reopening => state.started = false
  | entering => state.started = false ∧
      (config.aofEnabled = true → state.closing = false → state.aof = true)
  | spawning => state.Running config ∧ state.conns.clientsWg = 0 ∧ state.expiring = false
  | accepting | accepted | failing _ | givingUp | unwinding => state.Running config
  | announcing => state.Running config ∧ state.listener = .closed ∧ state.stopped = true
  | served | waiting | returned => state.serveDone = state.started
  | awaitingExpiry => state.serveDone = state.started ∧ state.conns.clientsWg = 0
  | closingPersistence => state.serveDone = state.started ∧ state.conns.clientsWg = 0 ∧
      state.expiring = false

/-- What is known where a call of `Shutdown` is. -/
def ShutdownPhase.Fits (state : Lifecycle) : ShutdownPhase → Prop
  | called => True
  | closingListener | awaitingServe =>
      state.closing = true ∧ state.stopped = true ∧ state.started = true
  | awaitingClients | closingClients | awaitingDone =>
      state.closing = true ∧ state.stopped = true ∧ state.started = true ∧ state.serveDone = true
  | awaitingExpiry true => state.Drained
  | closingPersistence true => state.Drained ∧ state.expiring = false
  | returned true => state.Drained ∧ state.expiring = false ∧ state.aof = false
  | awaitingExpiry false | closingPersistence false | returned false => state.Prevented

namespace Lifecycle

variable {config : LifecycleConfig} {state after : Lifecycle}

/-- What never changes back, and what does not come back when `Serve` is over. -/
structure Later (state after : Lifecycle) : Prop where
  closing : state.closing = true → after.closing = true
  stopped : state.stopped = true → after.stopped = true
  started : state.started = true → after.started = true
  unstarted : state.closing = true → state.started = false → after.started = false
  serveDone : state.serveDone = true → after.serveDone = true
  clients : state.serveDone = true → state.conns.clientsWg = 0 → after.conns.clientsWg = 0
  expiry : state.serveDone = true → state.expiring = false → after.expiring = false
  journal : state.started = true → state.aof = false → after.aof = false

theorem Later.trans {last : Lifecycle} (first : Later state after) (second : Later after last) :
    Later state last where
  closing := second.closing ∘ first.closing
  stopped := second.stopped ∘ first.stopped
  started := second.started ∘ first.started
  unstarted closing unstarted :=
    second.unstarted (first.closing closing) (first.unstarted closing unstarted)
  serveDone := second.serveDone ∘ first.serveDone
  clients ended none := second.clients (first.serveDone ended) (first.clients ended none)
  expiry ended idle := second.expiry (first.serveDone ended) (first.expiry ended idle)
  journal started absent := second.journal (first.started started) (first.journal started absent)

theorem Drained.later (drained : state.Drained) (later : Later state after) : after.Drained where
  closing := later.closing drained.closing
  stopped := later.stopped drained.stopped
  started := later.started drained.started
  serveDone := later.serveDone drained.serveDone
  clients := later.clients drained.serveDone drained.clients

theorem Prevented.later (prevented : state.Prevented) (later : Later state after) :
    after.Prevented where
  closing := later.closing prevented.closing
  stopped := later.stopped prevented.stopped
  unstarted := later.unstarted prevented.closing prevented.unstarted

/-- The place of a call of `Shutdown` keeps fitting. -/
theorem Later.fits {phase : ShutdownPhase} (later : Later state after) (fits : phase.Fits state) :
    phase.Fits after := by
  cases phase with
  | called => trivial
  | closingListener | awaitingServe =>
      exact ⟨later.closing fits.1, later.stopped fits.2.1, later.started fits.2.2⟩
  | awaitingClients | closingClients | awaitingDone =>
      exact ⟨later.closing fits.1, later.stopped fits.2.1, later.started fits.2.2.1,
        later.serveDone fits.2.2.2⟩
  | awaitingExpiry started =>
      cases started with
      | false => exact Prevented.later fits later
      | true => exact Drained.later fits later
  | closingPersistence started =>
      cases started with
      | false => exact Prevented.later fits later
      | true => exact ⟨fits.1.later later, later.expiry fits.1.serveDone fits.2⟩
  | returned started =>
      cases started with
      | false => exact Prevented.later fits later
      | true =>
          exact ⟨fits.1.later later, later.expiry fits.1.serveDone fits.2.1,
            later.journal fits.1.started fits.2.2⟩

/-- Nothing is executed any more. -/
structure Idle (state : Lifecycle) : Prop where
  closing : state.closing = true
  outside : state.started = false ∨ state.serveDone = true
  clients : state.conns.clientsWg = 0
  expiry : state.expiring = false

/-- What the other goroutines do beside the owner. -/
structure Aside (state after : Lifecycle) : Prop where
  owner : after.owner = state.owner
  started : after.started = state.started
  serveDone : after.serveDone = state.serveDone
  closing : state.closing = true → after.closing = true
  stopped : state.stopped = true → after.stopped = true
  listener : state.listener = .closed → after.listener = .closed
  clients : state.conns.clientsWg = 0 → after.conns.clientsWg = 0
  expiry : state.expiring = false → after.expiring = false
  journal : after.aof = state.aof ∨ after.aof = false ∧ state.Idle

theorem Aside.later (aside : Aside state after) : Later state after where
  closing := aside.closing
  stopped := aside.stopped
  started := aside.started.trans
  unstarted _ := aside.started.trans
  serveDone := aside.serveDone.trans
  clients _ := aside.clients
  expiry _ := aside.expiry
  journal _ absent := by
    rcases aside.journal with same | ⟨removed, -⟩
    · exact same.trans absent
    · exact removed

theorem Running.aside (running : state.Running config) (aside : Aside state after) :
    after.Running config := by
  obtain ⟨started, unserved, journal⟩ := running
  refine ⟨aside.started.trans started, aside.serveDone.trans unserved, fun enabled => ?_⟩
  rcases aside.journal with same | ⟨-, idle⟩
  · exact same.trans (journal enabled)
  · rcases idle.outside with unstarted | ended
    · exact absurd (started.symm.trans unstarted) (by decide)
    · exact absurd (unserved.symm.trans ended) (by decide)

theorem Running.not_ended (running : state.Running config) {property : Prop} :
    state.serveDone = true → property :=
  fun ended => absurd (running.2.1.symm.trans ended) (by decide)

theorem Running.not_unstarted (running : state.Running config) {property : Prop} :
    state.started = false → property :=
  fun unstarted => absurd (running.1.symm.trans unstarted) (by decide)

/-- The place of the owner keeps fitting. -/
theorem Aside.fits {phase : OwnerPhase} (aside : Aside state after)
    (fits : phase.Fits config state) : phase.Fits config after := by
  have balanced (same : state.serveDone = state.started) : after.serveDone = after.started := by
    rw [aside.serveDone, aside.started, same]
  cases phase with
  | checking | opening | listening | rechecking | reopening => exact aside.started.trans fits
  | entering =>
      refine ⟨aside.started.trans fits.1, fun enabled opened => ?_⟩
      have unrequested : state.closing = false :=
        Bool.eq_false_iff.mpr fun closing => absurd opened (by rw [aside.closing closing]; decide)
      -- A `Shutdown` may have closed the file, but then the server is closing.
      rcases aside.journal with same | ⟨-, idle⟩
      · exact same.trans (fits.2 enabled unrequested)
      · exact absurd (unrequested.symm.trans idle.closing) (by decide)
  | spawning => exact ⟨fits.1.aside aside, aside.clients fits.2.1, aside.expiry fits.2.2⟩
  | accepting | accepted | failing | givingUp | unwinding => exact Running.aside fits aside
  | announcing => exact ⟨fits.1.aside aside, aside.listener fits.2.1, aside.stopped fits.2.2⟩
  | served | waiting | returned => exact balanced fits
  | awaitingExpiry => exact ⟨balanced fits.1, aside.clients fits.2⟩
  | closingPersistence =>
      exact ⟨balanced fits.1, aside.clients fits.2.1, aside.expiry fits.2.2⟩

/-! ## The invariant -/

structure Sound (config : LifecycleConfig) (state : Lifecycle) : Prop where
  conns : state.conns.Counted config.maxConnections
  owner : state.owner.Fits config state
  shutdowns : ∀ phase ∈ state.shutdowns, phase.Fits state
  ended : state.serveDone = true →
    state.started = true ∧ state.listener = .closed ∧ state.stopped = true
  quiet : state.started = false → state.conns.clientsWg = 0 ∧ state.expiring = false
  expiry : state.expireWg = if state.expiring then 1 else 0
  installed : config.aofEnabled = true → state.expiring = true ∨ 0 < state.conns.clientsWg →
    state.aof = true
  executed : config.aofEnabled = true → ∀ journaled ∈ state.executed, journaled = true

theorem sound_new (config : LifecycleConfig) : (new config).Sound config where
  conns := Connections.counted_empty _
  owner := by
    unfold new
    split <;> rfl
  shutdowns := nofun
  ended := nofun
  quiet _ := ⟨rfl, rfl⟩
  expiry := rfl
  installed _ := nofun
  executed _ := nofun

theorem Sound.unserved (sound : state.Sound config) (unstarted : state.started = false) :
    state.serveDone = false :=
  Bool.eq_false_iff.mpr fun ended => absurd (sound.ended ended).1 (by rw [unstarted]; decide)

theorem Sound.expired (sound : state.Sound config) (waited : state.expireWg = 0) :
    state.expiring = false := by
  have count := sound.expiry
  rw [waited] at count
  exact Bool.eq_false_iff.mpr fun expires => by simp [expires] at count

/-- What the other goroutines do keeps the invariant. -/
theorem Sound.aside (sound : state.Sound config) (aside : Aside state after)
    (conns : after.conns.Counted config.maxConnections)
    (shutdowns : ∀ phase ∈ after.shutdowns, phase.Fits after)
    (expiry : after.expireWg = if after.expiring then 1 else 0)
    (executed : config.aofEnabled = true → ∀ journaled ∈ after.executed, journaled = true) :
    after.Sound config where
  conns
  owner := aside.owner ▸ aside.fits sound.owner
  shutdowns
  ended served := by
    obtain ⟨started, closed, stopped⟩ := sound.ended (aside.serveDone ▸ served)
    exact ⟨aside.started.trans started, aside.listener closed, aside.stopped stopped⟩
  quiet unstarted := by
    obtain ⟨clients, idle⟩ := sound.quiet (aside.started ▸ unstarted)
    exact ⟨aside.clients clients, aside.expiry idle⟩
  expiry
  installed enabled busy := by
    have before : state.expiring = true ∨ 0 < state.conns.clientsWg := by
      refine busy.imp (fun expires => ?_) fun clients => Nat.pos_of_ne_zero fun none => ?_
      · exact Bool.eq_true_of_not_eq_false fun idle =>
          absurd expires (by rw [aside.expiry idle]; decide)
      · exact absurd (aside.clients none) (Nat.ne_of_gt clients)
    rcases aside.journal with same | ⟨-, idle⟩
    · exact same.trans (sound.installed enabled before)
    · rcases before with expires | clients
      · exact absurd (idle.expiry.symm.trans expires) (by decide)
      · exact absurd idle.clients (Nat.ne_of_gt clients)
  executed

/-- What another goroutine does while no call of `Shutdown` moves on. -/
theorem Sound.beside (sound : state.Sound config) (aside : Aside state after)
    (conns : after.conns.Counted config.maxConnections)
    (shutdowns : after.shutdowns = state.shutdowns)
    (expiry : after.expireWg = if after.expiring then 1 else 0)
    (executed : config.aofEnabled = true → ∀ journaled ∈ after.executed, journaled = true) :
    after.Sound config := by
  apply sound.aside aside conns ?_ expiry executed
  intro phase inside
  rw [shutdowns] at inside
  exact aside.later.fits (sound.shutdowns phase inside)

/-! ## The owner -/

/-- What a step of the owner keeps. -/
structure Owned (config : LifecycleConfig) (state after : Lifecycle) : Prop where
  sound : after.Sound config
  later : Later state after
  shutdowns : after.shutdowns = state.shutdowns
  executed : after.executed = state.executed

theorem Sound.owned (sound : state.Sound config) (later : Later state after)
    (conns : after.conns.Counted config.maxConnections)
    (owner : after.owner.Fits config after)
    (shutdowns : after.shutdowns = state.shutdowns) (executed : after.executed = state.executed)
    (ended : after.serveDone = true →
      after.started = true ∧ after.listener = .closed ∧ after.stopped = true)
    (quiet : after.started = false → after.conns.clientsWg = 0 ∧ after.expiring = false)
    (expiry : after.expireWg = if after.expiring then 1 else 0)
    (installed : config.aofEnabled = true → after.expiring = true ∨ 0 < after.conns.clientsWg →
      after.aof = true) : Owned config state after where
  sound := ⟨conns, owner,
    fun phase inside => later.fits (sound.shutdowns phase (shutdowns ▸ inside)),
    ended, quiet, expiry, installed, executed ▸ sound.executed⟩
  later
  shutdowns
  executed

/-- The owner moves on and does nothing else. -/
theorem Sound.goes (sound : state.Sound config) {next : OwnerPhase}
    (fits : next.Fits config state) :
    Owned config state { state with owner := next } := by
  refine sound.owned ⟨id, id, id, fun _ => id, id, fun _ => id, fun _ => id, fun _ => id⟩
    sound.conns ?_ rfl rfl sound.ended sound.quiet sound.expiry sound.installed
  cases next <;> exact fits

/-- The owner does something to the listener or the connections, and moves on. -/
theorem Sound.handles (sound : state.Sound config) {next : OwnerPhase} {listener : ListenerState}
    {conns : Connections} (clients : conns.clientsWg = state.conns.clientsWg)
    (counted : conns.Counted config.maxConnections)
    (closed : state.serveDone = true → listener = .closed)
    (fits : next.Fits config { state with listener, conns }) :
    Owned config state { state with owner := next, listener, conns } := by
  refine sound.owned ⟨id, id, id, fun _ => id, id, fun _ => clients.trans, fun _ => id,
    fun _ => id⟩ counted ?_ rfl rfl ?_ ?_ sound.expiry ?_
  · cases next <;> exact fits
  · exact fun ended => ⟨(sound.ended ended).1, closed ended, (sound.ended ended).2.2⟩
  · exact fun unstarted => (sound.quiet unstarted).imp_left clients.trans
  · exact fun enabled busy => sound.installed enabled (clients ▸ busy)

/-- `openPersistence` installs a journal if there is to be one. -/
theorem openPersistence_eq {answer : OwnerAnswer}
    (opened : state.openPersistence config answer = some after) :
    ∃ aof, after = { state with aof } ∧ (config.aofEnabled = true → aof = true) ∧
      (state.aof = true → aof = true) := by
  unfold openPersistence at opened
  split at opened
  next disabled =>
    cases opened
    exact ⟨state.aof, rfl, fun enabled => by simp [enabled] at disabled, id⟩
  next =>
    split at opened
    next present =>
      cases opened
      exact ⟨state.aof, rfl, fun _ => present, id⟩
    next =>
      split at opened
      next =>
        cases opened
        exact ⟨true, rfl, fun _ => rfl, fun _ => rfl⟩
      next => cases opened

theorem Sound.opens (sound : state.Sound config) (unstarted : state.started = false)
    {answer : OwnerAnswer} {opened : Lifecycle} {next : OwnerPhase}
    (opens : state.openPersistence config answer = some opened)
    (fits : next = .listening ∨ next = .entering) :
    Owned config state { opened with owner := next } := by
  obtain ⟨aof, rfl, enabled, -⟩ := openPersistence_eq opens
  obtain ⟨clients, idle⟩ := sound.quiet unstarted
  refine sound.owned ⟨id, id, id, fun _ => id, id, fun _ => id, fun _ => id, ?_⟩
    sound.conns ?_ rfl rfl sound.ended sound.quiet sound.expiry fun is _ => enabled is
  · exact fun started => absurd (unstarted.symm.trans started) (by decide)
  · rcases fits with rfl | rfl
    · exact unstarted
    · exact ⟨unstarted, fun is _ => enabled is⟩

theorem Sound.balanced (sound : state.Sound config) (unstarted : state.started = false) :
    state.serveDone = state.started :=
  (sound.unserved unstarted).trans unstarted.symm

/-- Where the owner goes after `Serve`. -/
theorem fits_afterServe (balanced : state.serveDone = state.started) :
    (afterServe config).Fits config state := by
  unfold afterServe
  split <;> exact balanced

theorem Sound.enter (sound : state.Sound config)
    (fits : OwnerPhase.entering.Fits config state) :
    Owned config state (state.enter config) := by
  obtain ⟨clients, idle⟩ := sound.quiet fits.1
  unfold Lifecycle.enter
  split
  next =>
    refine sound.handles rfl sound.conns (fun _ => rfl) ?_
    exact fits_afterServe (sound.balanced fits.1)
  next refused =>
    rw [Bool.not_eq_true, Bool.or_eq_false_iff] at refused
    refine sound.owned ⟨id, id, fun _ => rfl, ?_, id, fun _ => id, fun _ => id, fun _ => id⟩
      sound.conns ?_ rfl rfl (fun ended => ⟨rfl, (sound.ended ended).2⟩) nofun sound.expiry
      sound.installed
    · exact fun closing => absurd (refused.2.symm.trans closing) (by decide)
    · exact ⟨⟨rfl, sound.unserved fits.1, fun enabled => fits.2 enabled refused.2⟩, clients, idle⟩

theorem Sound.accept (sound : state.Sound config) (running : state.Running config)
    (answer : OwnerAnswer) :
    Owned config state (state.accept answer) := by
  unfold Lifecycle.accept
  split
  next => exact sound.goes running
  next => cases answer <;> exact sound.goes running

theorem Sound.register (sound : state.Sound config) (running : state.Running config) :
    Owned config state (state.register config) := by
  have closed : state.serveDone = true → state.listener = .closed :=
    fun ended => (sound.ended ended).2.1
  have counted := sound.conns
  unfold Lifecycle.register
  split
  next => exact sound.handles rfl counted.turnAway closed running
  next =>
    split
    next => exact sound.handles rfl counted.turnAway closed running
    next room =>
      refine sound.owned ⟨id, id, id, fun _ => id, id, ?_, fun _ => id, fun _ => id⟩
        (counted.register (Nat.lt_of_not_ge room)) running rfl rfl
        sound.ended ?_ sound.expiry fun enabled _ => running.2.2 enabled
      · exact running.not_ended
      · exact running.not_unstarted

theorem Sound.fail (sound : state.Sound config) (running : state.Running config)
    (cause : AcceptFailure) :
    Owned config state (state.fail cause) := by
  unfold Lifecycle.fail
  split
  next => exact sound.goes running
  next => split <;> exact sound.goes running

theorem Sound.ownerStep (sound : state.Sound config) {answer : OwnerAnswer}
    (happens : state.ownerStep config answer = some after) : Owned config state after := by
  have fits := sound.owner
  unfold Lifecycle.ownerStep at happens
  cases place : state.owner with
  | checking =>
      rw [place] at fits happens
      cases happens
      split
      next => exact sound.goes (sound.balanced fits)
      next => exact sound.goes fits
  | opening =>
      rw [place] at fits happens
      dsimp only at happens
      split at happens <;> cases happens
      next opened opens => exact sound.opens fits opens (.inl rfl)
      next => exact sound.goes (sound.balanced fits)
  | listening =>
      rw [place] at fits happens
      dsimp only at happens
      split at happens <;> cases happens
      next =>
        refine sound.handles rfl sound.conns (fun ended => ?_) fits
        exact absurd ((sound.unserved fits).symm.trans ended) (by decide)
      next => exact sound.goes ⟨sound.balanced fits, (sound.quiet fits).1⟩
  | rechecking =>
      rw [place] at fits happens
      dsimp only at happens
      split at happens <;> cases happens
      next =>
        exact sound.handles rfl sound.conns (fun _ => rfl)
          ⟨sound.balanced fits, (sound.quiet fits).1⟩
      next => exact sound.goes fits
  | reopening =>
      rw [place] at fits happens
      dsimp only at happens
      split at happens <;> cases happens
      next opened opens => exact sound.opens fits opens (.inr rfl)
      next => exact sound.goes (fits_afterServe (sound.balanced fits))
  | entering =>
      rw [place] at fits happens
      cases happens
      exact sound.enter fits
  | spawning =>
      rw [place] at fits happens
      cases happens
      obtain ⟨running, clients, idle⟩ := fits
      refine sound.owned ⟨id, id, id, fun _ => id, id, fun _ => id, ?_, fun _ => id⟩ sound.conns
        running rfl rfl sound.ended ?_ ?_
        fun enabled _ => running.2.2 enabled
      · exact running.not_ended
      · exact running.not_unstarted
      · simp [sound.expiry, idle]
  | accepting =>
      rw [place] at fits happens
      cases happens
      exact sound.accept fits answer
  | accepted =>
      rw [place] at fits happens
      cases happens
      exact sound.register fits
  | failing cause =>
      rw [place] at fits happens
      cases happens
      exact sound.fail fits cause
  | givingUp =>
      rw [place] at fits happens
      cases happens
      exact sound.owned ⟨fun _ => rfl, id, id, fun _ => id, id, fun _ => id, fun _ => id,
        fun _ => id⟩ sound.conns.closeActive fits rfl rfl sound.ended
        sound.quiet sound.expiry sound.installed
  | unwinding =>
      rw [place] at fits happens
      cases happens
      refine sound.owned ⟨id, fun _ => rfl, id, fun _ => id, id, fun _ => id, fun _ => id,
        fun _ => id⟩ sound.conns ⟨fits, rfl, rfl⟩ rfl rfl ?_
        sound.quiet sound.expiry sound.installed
      exact fun ended => ⟨(sound.ended ended).1, rfl, rfl⟩
  | announcing =>
      rw [place] at fits happens
      cases happens
      obtain ⟨running, closed, stopped⟩ := fits
      refine sound.owned ⟨id, id, id, fun _ => id, fun _ => rfl, ?_, ?_, fun _ => id⟩ sound.conns
        ?_ rfl rfl (fun _ => ⟨running.1, closed, stopped⟩)
        sound.quiet sound.expiry sound.installed
      · exact running.not_ended
      · exact running.not_ended
      · exact fits_afterServe running.1.symm
  | served =>
      rw [place] at fits happens
      dsimp only at happens
      split at happens <;> cases happens
      next => exact sound.goes fits
      next =>
        exact sound.handles rfl sound.conns.closeActive (fun ended => (sound.ended ended).2.1) fits
  | waiting =>
      rw [place] at fits happens
      dsimp only at happens
      split at happens <;> cases happens
      next waited => exact sound.goes ⟨fits, waited⟩
  | awaitingExpiry =>
      rw [place] at fits happens
      dsimp only at happens
      split at happens <;> cases happens
      next waited => exact sound.goes ⟨fits.1, fits.2, sound.expired waited⟩
  | closingPersistence =>
      rw [place] at fits happens
      cases happens
      obtain ⟨balanced, clients, idle⟩ := fits
      refine sound.owned ⟨id, id, id, fun _ => id, id, fun _ => id, fun _ => id, fun _ _ => rfl⟩
        sound.conns balanced rfl rfl sound.ended sound.quiet sound.expiry ?_
      rintro - (expires | busy)
      · exact absurd (idle.symm.trans expires) (by decide)
      · exact absurd clients (Nat.ne_of_gt busy)
  | returned =>
      rw [place] at happens
      cases happens

/-! ## The other goroutines -/

/-- A step of a call of `Shutdown`, before the call moves on. -/
theorem Sound.shutdownMove (sound : state.Sound config) {phase next : ShutdownPhase}
    (fits : phase.Fits state) (happens : state.shutdownMove phase = some (after, next)) :
    after.Sound config ∧ Aside state after ∧ next.Fits after := by
  have stays : Aside state state := ⟨rfl, rfl, rfl, id, id, id, id, id, .inl rfl⟩
  cases phase with
  | called =>
      cases happens
      have aside : Aside state state.request :=
        ⟨rfl, rfl, rfl, fun _ => rfl, fun _ => rfl, id, id, id, .inl rfl⟩
      refine ⟨sound.beside aside sound.conns rfl sound.expiry sound.executed, aside, ?_⟩
      split
      next started => exact ⟨rfl, rfl, started⟩
      next unstarted => exact ⟨rfl, rfl, Bool.eq_false_iff.mpr unstarted⟩
  | closingListener =>
      cases happens
      have aside : Aside state { state with listener := .closed } :=
        ⟨rfl, rfl, rfl, id, id, fun _ => rfl, id, id, .inl rfl⟩
      exact ⟨sound.beside aside sound.conns rfl sound.expiry sound.executed, aside, fits⟩
  | awaitingServe =>
      simp only [Lifecycle.shutdownMove] at happens
      split at happens <;> cases happens
      next ended => exact ⟨sound, stays, ⟨fits.1, fits.2.1, fits.2.2, ended⟩⟩
  | awaitingClients | awaitingDone =>
      simp only [Lifecycle.shutdownMove] at happens
      split at happens <;> cases happens
      next waited =>
        exact ⟨sound, stays, ⟨fits.1, fits.2.1, fits.2.2.1, fits.2.2.2, waited⟩⟩
  | closingClients =>
      cases happens
      have aside : Aside state { state with conns := state.conns.closeActive } :=
        ⟨rfl, rfl, rfl, id, id, id, id, id, .inl rfl⟩
      exact ⟨sound.beside aside sound.conns.closeActive rfl sound.expiry sound.executed, aside,
        fits⟩
  | awaitingExpiry started =>
      simp only [Lifecycle.shutdownMove] at happens
      split at happens <;> cases happens
      next waited =>
        refine ⟨sound, stays, ?_⟩
        cases started with
        | false => exact fits
        | true => exact ⟨fits, sound.expired waited⟩
  | closingPersistence started =>
      cases happens
      have idle : state.Idle := by
        cases started with
        | false =>
            obtain ⟨clients, unexpiring⟩ := sound.quiet fits.unstarted
            exact ⟨fits.closing, .inl fits.unstarted, clients, unexpiring⟩
        | true => exact ⟨fits.1.closing, .inr fits.1.serveDone, fits.1.clients, fits.2⟩
      have aside : Aside state state.closePersistence :=
        ⟨rfl, rfl, rfl, id, id, id, id, id, .inr ⟨rfl, idle⟩⟩
      refine ⟨sound.beside aside sound.conns rfl sound.expiry sound.executed, aside, ?_⟩
      cases started with
      | false => exact Prevented.later fits aside.later
      | true => exact ⟨fits.1.later aside.later, fits.2, rfl⟩
  | returned => cases happens

theorem shutdownMove_frame {phase next : ShutdownPhase}
    (happens : state.shutdownMove phase = some (after, next)) :
    after.shutdowns = state.shutdowns ∧ after.executed = state.executed := by
  cases phase with
  | called | closingListener | closingClients | closingPersistence =>
      cases happens
      exact ⟨rfl, rfl⟩
  | awaitingServe | awaitingClients | awaitingDone | awaitingExpiry =>
      simp only [Lifecycle.shutdownMove] at happens
      split at happens <;> cases happens
      exact ⟨rfl, rfl⟩
  | returned => cases happens

theorem shutdownStep_eq {number : Nat} (happens : state.shutdownStep number = some after) :
    ∃ phase next between, state.shutdowns[number]? = some phase ∧
      state.shutdownMove phase = some (between, next) ∧
      after = between.setShutdown number next := by
  obtain ⟨phase, place, moves⟩ := Option.bind_eq_some_iff.mp happens
  obtain ⟨⟨between, next⟩, move, set⟩ := Option.bind_eq_some_iff.mp moves
  cases set
  exact ⟨phase, next, between, place, move, rfl⟩

theorem Sound.setShutdown (sound : state.Sound config) {phase : ShutdownPhase}
    (fits : phase.Fits state) (number : Nat) :
    (state.setShutdown number phase).Sound config ∧
      Aside state (state.setShutdown number phase) := by
  have aside : Aside state (state.setShutdown number phase) :=
    ⟨rfl, rfl, rfl, id, id, id, id, id, .inl rfl⟩
  refine ⟨sound.aside aside sound.conns (fun other inside => ?_) sound.expiry sound.executed, aside⟩
  apply aside.later.fits
  rcases List.mem_or_eq_of_mem_set inside with old | rfl
  · exact sound.shutdowns other old
  · exact fits

theorem Sound.handles_conns (sound : state.Sound config) {conns : Connections}
    (counted : conns.Counted config.maxConnections)
    (fewer : conns.clientsWg ≤ state.conns.clientsWg) :
    Sound config { state with conns } ∧ Later state { state with conns } := by
  have aside : Aside state { state with conns } :=
    ⟨rfl, rfl, rfl, id, id, id, fun none => Nat.eq_zero_of_le_zero (none ▸ fewer), id, .inl rfl⟩
  exact ⟨sound.beside aside counted rfl sound.expiry sound.executed, aside.later⟩

/-- What is executed while the journal is installed. -/
theorem Sound.executes (sound : state.Sound config)
    (busy : state.expiring = true ∨ 0 < state.conns.clientsWg) :
    let after := { state with executed := state.executed ++ [state.aof] }
    after.Sound config ∧ Later state after := by
  have aside : Aside state { state with executed := state.executed ++ [state.aof] } :=
    ⟨rfl, rfl, rfl, id, id, id, id, id, .inl rfl⟩
  refine ⟨sound.beside aside sound.conns rfl sound.expiry ?_, aside.later⟩
  intro enabled journaled among
  rcases List.mem_append.mp among with old | new
  · exact sound.executed enabled journaled old
  · rw [List.mem_singleton.mp new]
    exact sound.installed enabled busy

theorem Sound.busy (sound : state.Sound config) {conn : Nat} (serves : conn ∈ state.conns.serving) :
    0 < state.conns.clientsWg := by
  have positive := Finset.card_pos.mpr ⟨conn, serves⟩
  have total := sound.conns.clients
  omega

theorem Sound.step (sound : state.Sound config) {action : LifecycleAction}
    (happens : state.step config action = some after) :
    after.Sound config ∧ Later state after := by
  cases action with
  | owner answer =>
      have owned := sound.ownerStep happens
      exact ⟨owned.sound, owned.later⟩
  | call =>
      cases happens
      have aside : Aside state { state with shutdowns := state.shutdowns ++ [.called] } :=
        ⟨rfl, rfl, rfl, id, id, id, id, id, .inl rfl⟩
      refine ⟨sound.aside aside sound.conns (fun phase inside => ?_) sound.expiry sound.executed,
        aside.later⟩
      rcases List.mem_append.mp inside with old | new
      · exact aside.later.fits (sound.shutdowns phase old)
      · rw [List.mem_singleton.mp new]
        trivial
  | shutdown number =>
      obtain ⟨phase, next, between, place, moves, rfl⟩ := shutdownStep_eq happens
      obtain ⟨moved, aside, fits⟩ :=
        sound.shutdownMove (sound.shutdowns phase (List.mem_of_getElem? place)) moves
      obtain ⟨set, setAside⟩ := moved.setShutdown fits number
      exact ⟨set, aside.later.trans setAside.later⟩
  | contextDone number =>
      simp only [Lifecycle.step] at happens
      split at happens <;> cases happens
      next waits =>
        have fits : ShutdownPhase.closingClients.Fits state :=
          sound.shutdowns .awaitingClients (List.mem_of_getElem? waits)
        exact (sound.setShutdown fits number).imp_right Aside.later
  | execute conn =>
      simp only [Lifecycle.step] at happens
      split at happens <;> cases happens
      next serves => exact sound.executes (.inr (sound.busy serves))
  | finish conn =>
      simp only [Lifecycle.step, handlerStep] at happens
      split at happens <;> cases happens
      next serves => exact sound.handles_conns (sound.conns.finish serves) (Nat.le_refl _)
  | leave conn =>
      simp only [Lifecycle.step, handlerStep] at happens
      split at happens <;> cases happens
      next leaves => exact sound.handles_conns (sound.conns.leave leaves) (Nat.le_refl _)
  | done conn =>
      simp only [Lifecycle.step, handlerStep] at happens
      split at happens <;> cases happens
      next left => exact sound.handles_conns (sound.conns.done left) (Nat.sub_le _ _)
  | activeExpire =>
      simp only [Lifecycle.step] at happens
      split at happens <;> cases happens
      next expires => exact sound.executes (.inl expires)
  | stopExpiry =>
      simp only [Lifecycle.step] at happens
      split at happens <;> cases happens
      next expires =>
        rw [Bool.and_eq_true] at expires
        have aside : Aside state
            { state with expireWg := state.expireWg - 1, expiring := false } :=
          ⟨rfl, rfl, rfl, id, id, id, id, fun _ => rfl, .inl rfl⟩
        refine ⟨sound.beside aside sound.conns rfl ?_ sound.executed, aside.later⟩
        rw [sound.expiry, expires.1]
        rfl

end Lifecycle

end Carrot
