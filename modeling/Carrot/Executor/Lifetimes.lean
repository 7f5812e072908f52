import Carrot.Aof.Open
import Carrot.Executor.Durability
import Carrot.Executor.Sized

/-!
# Lifetimes of a server

A server opens its log, serves requests and crashes, any number of times.  If
all requests are within the default limit on requests and have fewer than 1024
arguments, what a crash leaves can always be opened again.
-/

namespace Carrot

section

variable [GoTables]

/-! ## Files that can be recovered -/

/-- Records that can be recovered, and perhaps a part of one more. -/
structure Intact (contents : Bytes) (read : List Command) (torn : Bytes) : Prop where
  contents_eq : contents = recordBytes read ++ torn
  recoverable : ∀ command ∈ read, command.Recoverable
  partly : torn ≠ [] → ∃ (command : Command) (missing : Bytes), command.record = torn ++ missing ∧
    missing ≠ [] ∧ command.Recoverable

theorem intact_nil : Intact [] [] [] := ⟨rfl, by simp, absurd rfl⟩

/-- Recovery executes the records and cuts the rest off. -/
theorem Intact.replay {contents torn : Bytes} {read : List Command}
    (intact : Intact contents read torn) {disk : ReplayDisk} (seeks : disk.seek = none)
    (truncates : disk.truncate = none) (readings : Nat → Clock) (store : Store) :
    replay disk readings contents store =
      ⟨recordBytes read, store.executeAll (stepsAt readings 0 read), none⟩ := by
  rw [intact.contents_eq]
  by_cases whole : torn = []
  · have cut : Cut Command.record read read torn := ⟨List.prefix_refl _, absurd whole⟩
    refine replay_cut seeks readings cut ?_ (fun _ => truncates) store
    exact fun command membership => (intact.recoverable command membership).readable
  · obtain ⟨command, missing, split, incomplete, recoverable⟩ := intact.partly whole
    have cut : Cut Command.record (read ++ [command]) read torn :=
      ⟨List.prefix_append _ _, fun _ =>
        ⟨command, missing, List.prefix_refl _, split, incomplete⟩⟩
    refine replay_cut seeks readings cut ?_ (fun _ => truncates) store
    intro other membership
    rcases List.mem_append.mp membership with inside | inside
    · exact (intact.recoverable other inside).readable
    · rw [List.mem_singleton.mp inside]
      exact recoverable.readable

/-! ## One lifetime -/

/-- How a server is started, what happens to it, and in which event and after
which of its calls to the log the crash comes. -/
structure Lifetime where
  world : World
  repositions : world.Repositions
  disk : OpenDisk
  works : disk.Works
  readings : Nat → Clock
  ordered : Monotone readings
  before : ∀ index, readings index ≤ world.clock 0
  path : Bytes
  named : path ≠ []
  policyName : Bytes
  policy : SyncPolicy
  known : SyncPolicy.ofName policyName = some policy
  maxMemory : Int
  evictLRU : Bool
  events : List Event
  event : Event
  calls : List LogCall

namespace Lifetime

variable (life : Lifetime)

def opened (found : Option Bytes) : Opened :=
  aofOpen life.disk life.readings life.path life.policyName found Store.new

/-- The server that `Open` makes possible. -/
def start (found : Option Bytes) (log : Log) : Executor :=
  ⟨(life.opened found).store, log, life.maxMemory, life.evictLRU, .idle, [], 0, []⟩

/-- The server before the event in which it crashes. -/
def final (found : Option Bytes) (log : Log) : Executor :=
  (life.start found log).run life.world life.events

def allCalls (found : Option Bytes) (log : Log) : List LogCall :=
  (life.start found log).runCalls life.world life.events ++ life.calls

/-- A crash leaves some contents of the file. -/
structure Crashes (found : Option Bytes) (log : Log) (contents : Bytes) : Prop where
  opens : (life.opened found).log = .ok log
  inFlight : life.calls <+: (life.final found log).stepCalls life.world life.event
  survives : (DurableLog.run ⟨log, recoveredDisk (found.getD []) log.file.sink⟩
    (life.allCalls found log)).disk.Survives contents

/-- All requests have arguments of at most 1 MiB each and 2 MiB in all, as the
default limit on requests demands, and fewer than 1024 of them. -/
structure Modest : Prop where
  events : ∀ event ∈ life.events, event.Modest
  event : life.event.Modest

end Lifetime

variable {life : Lifetime}

theorem Intact.opened {found : Option Bytes} {read : List Command} {torn : Bytes}
    (intact : Intact (found.getD []) read torn) (life : Lifetime) :
    life.opened found =
      ⟨some (recordBytes read), Store.new.executeAll (stepsAt life.readings 0 read),
        .ok (.onFile life.policy (recordBytes read))⟩ :=
  aofOpen_of_recovered life.works life.named life.known
    (intact.replay life.works.seek life.works.truncate life.readings Store.new)

omit [GoTables] in
theorem stepsAt_command (readings : Nat → Clock) (index : Nat) (commands : List Command) :
    (stepsAt readings index commands).map Step.command = commands := by
  induction commands generalizing index with
  | nil => rfl
  | cons command commands inductionHypothesis =>
      rw [stepsAt, List.map_cons, inductionHypothesis]

section

variable {found : Option Bytes} {read : List Command} {torn : Bytes}
  (intact : Intact (found.getD []) read torn) (life : Lifetime)

include intact

theorem Intact.sized (log : Log) : (life.start found log).Sized life.world := by
  refine ⟨?_, by simp [Lifetime.start]⟩
  simp only [Lifetime.start, intact.opened life]
  exact rebuilt_stepsAt life.ordered life.before intact.recoverable 0 (rebuilt_new _)

/-- The file describes the store that is recovered from it. -/
theorem Intact.faithful :
    (life.start found (.onFile life.policy (recordBytes read))).Faithful life.world
      (stepsAt life.readings 0 read) := by
  have rebuilt := (intact.sized life (.onFile life.policy (recordBytes read))).store
  refine ⟨rebuilt.wellFormed, rebuilt.aligned, ⟨?_, ?_⟩, ?_, rfl, rfl⟩
  · intro step membership
    have inside := List.mem_map_of_mem (f := Step.command) membership
    rw [stepsAt_command] at inside
    exact (intact.recoverable _ inside).canonical.upper
  · simp only [Lifetime.start, intact.opened life]
  · rw [stepsAt_command]
    rfl

end

/-- What the log has been given: in this lifetime, or as a torn record at its
beginning. -/
def Lifetime.Given (life : Lifetime) (found : Option Bytes) (log : Log) (torn : Bytes)
    (batch : List Command) : Prop :=
  Submits (life.allCalls found log) batch ∨
    torn ≠ [] ∧ ∃ (command : Command) (missing : Bytes), batch = [command] ∧
      command.record = torn ++ missing ∧ missing ≠ [] ∧ command.Recoverable

theorem Intact.safe {found : Option Bytes} {read : List Command} {torn : Bytes}
    (intact : Intact (found.getD []) read torn) (life : Lifetime) {past : Executor → Prop} :
    Executor.Safe life.world (stepsAt life.readings 0 read) past 0 (torn = [])
      (life.Given found (.onFile life.policy (recordBytes read)) torn)
      (life.start found (.onFile life.policy (recordBytes read)))
      ⟨.onFile life.policy (recordBytes read),
        recoveredDisk (found.getD []) (recordBytes read)⟩ := by
  rw [intact.contents_eq]
  by_cases whole : torn = []
  · have disk : recoveredDisk (recordBytes read ++ torn) (recordBytes read) =
        .settled (recordBytes read) := by
      rw [recoveredDisk, if_neg (by simp [whole]), whole, List.append_nil]
    rw [disk]
    apply (intact.faithful life).safe_on
    · rfl
    · rw [stepsAt_command]
      rfl
    · rw [stepsAt_command]
      exact List.prefix_refl _
    · intro version membership
      rw [CrashFile.mem_versions_settled membership, stepsAt_command]
      exact .inl (List.prefix_refl _)
  · obtain ⟨command, missing, split, incomplete, recoverable⟩ := intact.partly whole
    have disk : recoveredDisk (recordBytes read ++ torn) (recordBytes read) =
        ⟨⟨recordBytes read, recordBytes read, [recordBytes read ++ torn]⟩, []⟩ := by
      have longer : (recordBytes read).length < (recordBytes read ++ torn).length := by
        have positive := List.length_pos_iff.mpr whole
        rw [List.length_append]
        omega
      rw [recoveredDisk, if_pos longer]
      simp [CrashFile.truncate, CrashFile.settled, CrashFile.versions]
    rw [disk]
    apply (intact.faithful life).safe_on
    · rfl
    · rw [stepsAt_command]
    · rw [stepsAt_command]
    · intro version membership
      rw [stepsAt_command]
      rcases List.mem_cons.mp membership with rfl | membership
      · exact .inl (List.prefix_refl _)
      · refine .inr ⟨whole, [command], .inr ⟨whole, command, missing, rfl, split, incomplete,
          recoverable⟩, ?_⟩
        rw [List.mem_singleton.mp membership, recordBytes_append]
        refine (List.prefix_append_right_inj _).mpr ?_
        rw [recordBytes_cons, recordBytes_nil, List.append_nil, split]
        exact List.prefix_append _ _

/-- The disk holds a history of the server before the event in which it
crashes. -/
theorem Intact.safe_final {found : Option Bytes} {read : List Command} {torn : Bytes}
    (intact : Intact (found.getD []) read torn) {log : Log}
    (opens : (life.opened found).log = .ok log) :
    log.file.sink = recordBytes read ∧ log.policy = life.policy ∧
      Executor.Safe life.world (stepsAt life.readings 0 read)
        (Executor.Passes life.world (life.start found log) life.events) 0 (torn = [])
        (life.Given found log torn) (life.final found log)
        (DurableLog.run ⟨log, recoveredDisk (found.getD []) (recordBytes read)⟩
          ((life.start found log).runCalls life.world life.events)) := by
  rw [intact.opened life] at opens
  cases opens
  refine ⟨rfl, rfl, ?_⟩
  apply (intact.safe life).run life.repositions
  · exact fun earlier isEarlier => ⟨earlier, isEarlier, rfl⟩
  · rintro commands ⟨disk, batch, membership, isRecorded⟩
    exact .inl ⟨disk, batch, List.mem_append_left _ membership, isRecorded⟩

/-! ## Crashes -/

namespace Executor

variable {world : World} {start executor : Executor} {base : List Step} {events : List Event}
  {bound offset count : Nat} {root : List Step}

/-- A history in the file of modest requests can be recovered. -/
theorem Describes.recoverable
    (describes : Describes world base (Passes world start events) bound executor root offset count)
    (sized : start.Sized world) (modest : ∀ event ∈ events, event.Modest)
    (recoverable : ∀ step ∈ base, step.command.Recoverable) :
    ∀ step ∈ root, step.command.Recoverable := by
  cases describes.origin with
  | whole => exact recoverable
  | snapshot inPast arranged initial =>
      obtain ⟨earlier, isEarlier, rfl⟩ := inPast
      have reached := (sized.run fun event membership =>
        modest event (isEarlier.subset membership)).sized.store
      intro step membership
      obtain ⟨command, inside, rfl⟩ := List.mem_map.mp membership
      exact reached.wellFormed.recoverable_snapshot reached.within reached.aligned arranged inside

end Executor

/-- So can the history of a lifetime that began with an intact file. -/
theorem Intact.recoverable_history {found : Option Bytes} {read : List Command} {torn : Bytes}
    (intact : Intact (found.getD []) read torn) (modest : life.Modest) {log : Log}
    {root : List Step} {bound offset count : Nat}
    (describes : Executor.Describes life.world (stepsAt life.readings 0 read)
      (Executor.Passes life.world (life.start found log) life.events) bound (life.final found log)
      root offset count) :
    ∀ step ∈ root ++ (life.final found log).applied, step.command.Recoverable := by
  have sized := intact.sized life log
  intro step membership
  rcases List.mem_append.mp membership with inside | inside
  · refine describes.recoverable sized modest.events (fun step isBase => ?_) step inside
    have listed := List.mem_map_of_mem (f := Step.command) isBase
    rw [stepsAt_command] at listed
    exact intact.recoverable _ listed
  · exact (sized.run modest.events).sized.applied step inside

/-- Everything that the log has been given can be recovered. -/
theorem Lifetime.Given.recoverable {found : Option Bytes} {log : Log} {torn : Bytes}
    {batch : List Command} (given : life.Given found log torn batch) (modest : life.Modest)
    (sized : (life.start found log).Sized life.world)
    (inFlight : life.calls <+: (life.final found log).stepCalls life.world life.event) :
    ∀ command ∈ batch, command.Recoverable := by
  rcases given with ⟨disk, persisted, membership, rfl⟩ | ⟨-, command, _, rfl, -, -, recoverable⟩
  · have ran := sized.run modest.events
    rcases List.mem_append.mp membership with inside | inside
    · exact ran.calls _ inside
    · exact (ran.sized.step modest.event).calls _ (inFlight.subset inside)
  · intro other membership
    rw [List.mem_singleton.mp membership]
    exact recoverable

/-- What a crash leaves of a lifetime that began with an intact file. -/
theorem Intact.crash {found : Option Bytes} {read : List Command} {torn contents : Bytes}
    (intact : Intact (found.getD []) read torn) (modest : life.Modest) {log : Log}
    (crashes : life.Crashes found log contents) :
    ∃ root offset count extra rest,
      Executor.Leaves life.world (stepsAt life.readings 0 read)
        (Executor.Passes life.world (life.start found log) life.events) 0
        (life.Given found log torn) (life.final found log) contents root offset count extra rest ∧
      Intact contents
        ((Executor.upTo root offset count (life.final found log).applied).map Step.command ++ extra)
        rest ∧
      (life.policy = .always → count = (life.final found log).applied.length) := by
  obtain ⟨file, started, safe⟩ := intact.safe_final crashes.opens
  have survives := crashes.survives
  rw [file, Lifetime.allCalls, DurableLog.run_append] at survives
  have given : ∀ commands, Submits (life.allCalls found log) commands →
      life.Given found log torn commands := fun _ => .inl
  have submits : ∀ commands, Submits life.calls commands → life.Given found log torn commands := by
    rintro commands ⟨disk, batch, membership, isRecorded⟩
    exact given commands ⟨disk, batch, List.mem_append_right _ membership, isRecorded⟩
  obtain ⟨_, _, _, _, _, interrupted⟩ :=
    safe.interrupted life.repositions crashes.inFlight submits
  have policy : (life.final found log).log.policy = life.policy := by
    rw [← safe.log, DurableLog.run_log, Log.performs_policy, started]
  obtain ⟨root, offset, count, extra, rest, leaves, complete⟩ := interrupted.leaves submits
    (by rw [DurableLog.run_log, Log.performs_policy, safe.log]) survives
  refine ⟨root, offset, count, extra, rest, leaves, ?_,
    fun always => complete (policy.trans always)⟩
  have sized := intact.sized life log
  have wasGiven : ∀ command : Command,
      (∃ batch, life.Given found log torn batch ∧ command ∈ batch) → command.Recoverable :=
    fun command ⟨batch, isGiven, membership⟩ =>
      isGiven.recoverable modest sized crashes.inFlight command membership
  have history := intact.recoverable_history modest leaves.describes
  refine ⟨leaves.contents_eq, fun command membership => ?_, fun present => ?_⟩
  · rcases List.mem_append.mp membership with inside | inside
    · obtain ⟨step, listed, rfl⟩ := List.mem_map.mp inside
      refine history step ?_
      rcases List.mem_append.mp listed with isRoot | isApplied
      · exact List.mem_append_left _ isRoot
      · exact List.mem_append_right _ (List.take_subset _ _ (List.drop_subset _ _ isApplied))
    · exact wasGiven command (leaves.added command inside)
  · obtain ⟨command, missing, split, incomplete, source⟩ := leaves.partly present
    refine ⟨command, missing, split, incomplete, ?_⟩
    rcases source with old | isGiven
    · obtain ⟨step, listed, rfl⟩ := List.mem_map.mp old
      refine history step ?_
      rcases List.mem_append.mp listed with isRoot | isApplied
      · exact List.mem_append_left _ isRoot
      · exact List.mem_append_right _ (List.drop_subset _ _ isApplied)
    · exact wasGiven command isGiven

/-! ## Any number of lifetimes -/

/-- Some lifetimes, each on the file that the crash before it has left; at
first there is no file. -/
inductive Lifetimes : List Lifetime → Option Bytes → Prop where
  | none : Lifetimes [] .none
  | crash {lives : List Lifetime} {found : Option Bytes} {life : Lifetime} {log : Log}
      {contents : Bytes} : Lifetimes lives found → life.Crashes found log contents →
      Lifetimes (lives ++ [life]) (some contents)

theorem Lifetimes.intact {lives : List Lifetime} {found : Option Bytes}
    (lifetimes : Lifetimes lives found) (modest : ∀ life ∈ lives, life.Modest) :
    ∃ read torn, Intact (found.getD []) read torn := by
  induction lifetimes with
  | none => exact ⟨[], [], intact_nil⟩
  | crash earlier crashes inductionHypothesis =>
      obtain ⟨read, torn, intact⟩ := inductionHypothesis
        fun life membership => modest life (List.mem_append_left _ membership)
      obtain ⟨_, _, _, _, _, -, next, -⟩ := intact.crash
        (modest _ (List.mem_append_right _ (List.mem_singleton.mpr rfl))) crashes
      exact ⟨_, _, next⟩

/-- However often the server crashes, and wherever in an event, its log can be
opened again if all requests were within the default limit on requests, with
arguments of at most 1 MiB each and 2 MiB in all, and had fewer than 1024
arguments.  If the last server synced every append, what is recovered begins with
a history that, executed at the clocks at which its commands were applied, brings
back what its clients saw; only commands can follow that it was given and did not
acknowledge.  The calls of `Open` and the seek of a rollback succeed; any other call
may fail.

`Open` executes the commands at its own clocks, and so a key may have expired when
it does. -/
theorem lifetimes_recover {lives : List Lifetime} {found : Option Bytes}
    (earlier : Lifetimes lives found) {life : Lifetime} {log : Log} {contents : Bytes}
    (crashes : life.Crashes found log contents)
    (modest : ∀ each ∈ lives ++ [life], each.Modest) (next : Lifetime) :
    let final := life.final found log
    ∃ read, next.opened (some contents) =
        ⟨some (recordBytes read), Store.new.executeAll (stepsAt next.readings 0 read),
          .ok (.onFile next.policy (recordBytes read))⟩ ∧
      (life.policy = .always → ∃ history extra, read = history.map Step.command ++ extra ∧
        (Store.new.executeAll history).view (final.now life.world) =
          final.store.view (final.now life.world) ∧
        ∀ command ∈ extra, ∃ torn batch, torn <:+ found.getD [] ∧
          life.Given found log torn batch ∧ command ∈ batch) := by
  intro final
  obtain ⟨before, torn, intact⟩ := earlier.intact
    fun life membership => modest life (List.mem_append_left _ membership)
  obtain ⟨root, offset, count, extra, rest, leaves, left, complete⟩ := intact.crash
    (modest _ (List.mem_append_right _ (List.mem_singleton.mpr rfl))) crashes
  have reopened : Intact ((some contents).getD []) _ rest := left
  refine ⟨_, reopened.opened next, fun always => ?_⟩
  have explains := leaves.describes.explains
  rw [← Executor.upTo_length, ← complete always] at explains
  refine ⟨_, extra, rfl, explains.view, fun command membership => ?_⟩
  obtain ⟨batch, isGiven, inside⟩ := leaves.added command membership
  refine ⟨torn, batch, ?_, isGiven, inside⟩
  rw [intact.contents_eq]
  exact List.suffix_append _ _

end

section

variable [GoTables]

/-! ## Closing -/

/-- A server is closed: the run has come to the point where `Close` finds no
rewrite in progress, and the file holds some contents afterwards. -/
structure Lifetime.Closes (life : Lifetime) (found : Option Bytes) (log : Log) (calls : CloseDisk)
    (contents : Bytes) : Prop where
  opens : (life.opened found).log = .ok log
  closing : (life.final found log).log.closing = true
  idle : (life.final found log).log.rewrite = none
  survives : ((life.final found log).log.closeOnDisk calls
    (DurableLog.run ⟨log, recoveredDisk (found.getD []) log.file.sink⟩
      ((life.start found log).runCalls life.world life.events)).disk).Survives contents

omit [GoTables] in
theorem joinErrors_eq_none {errors : List (Option Bytes)} (none : joinErrors errors = none) :
    ∀ error ∈ errors, error = .none := by
  intro error membership
  cases error with
  | none => rfl
  | some text =>
      have present : text ∈ errors.filterMap id := List.mem_filterMap.mpr ⟨_, membership, rfl⟩
      unfold joinErrors at none
      split at none
      next empty =>
        rw [empty] at present
        cases present
      next => cases none

omit [GoTables] in
/-- A `Close` that reports no error has put the file on the disk. -/
theorem DurableLog.Holding.closed {scope : Scope} {kept committed : List Command}
    {durable : DurableLog} (holding : durable.Holding scope kept committed) {calls : CloseDisk}
    (reported : (durable.log.close calls).2 = none) {contents : Bytes}
    (survives : (durable.log.closeOnDisk calls durable.disk).Survives contents) :
    contents = recordBytes committed := by
  have healthy : durable.log.failed = none :=
    joinErrors_eq_none reported _ List.mem_cons_self
  have working := holding.working healthy
  have flushed : (openFile durable.log.file calls.budget).flush FileSink.accept =
      (openFile durable.log.file calls.budget, none) :=
    Log.flush_openFile (by rw [working.file]) _
  simp only [Log.close, flushed] at reported
  have synced : calls.sync = none :=
    Option.map_eq_none_iff.mp
      (joinErrors_eq_none reported _ (List.mem_cons_of_mem _ List.mem_cons_self))
  have settled : durable.log.closeOnDisk calls durable.disk =
      ⟨.settled (recordBytes committed), []⟩ := by
    simp only [Log.closeOnDisk, flushed, synced, Option.isSome_none, Bool.false_eq_true, if_false,
      CrashDisk.write, CrashDisk.sync, CrashFile.write, CrashFile.sync, working.replaced]
    rw [openFile, working.file]
  rw [settled] at survives
  obtain ⟨file, membership, certain, version, inside, bounded⟩ := survives
  rw [List.mem_singleton.mp membership] at certain inside
  rw [CrashFile.mem_versions_settled inside] at bounded
  exact bounded.eq_of_length_le certain.length_le

/-- Whatever the policy, a server that was closed without an error is recovered
exactly if all requests were within the default limit on requests, with arguments
of at most 1 MiB each and 2 MiB in all, and had fewer than 1024 arguments.  The
next one reads a history that, executed at the clocks at which its commands were
applied, brings back what the clients of the first one saw.  The calls of `Open` and
the seek of a rollback succeed; any other call before `Close` may fail.

`Open` executes the history at its own clocks, and its store may have lost a key
that was live when the first server was closed. -/
theorem closed_recovers {lives : List Lifetime} {found : Option Bytes}
    (earlier : Lifetimes lives found) {life : Lifetime} {log : Log} {calls : CloseDisk}
    {contents : Bytes} (closes : life.Closes found log calls contents)
    (reported : ((life.final found log).log.close calls).2 = none)
    (modest : ∀ each ∈ lives ++ [life], each.Modest) (next : Lifetime) :
    let final := life.final found log
    ∃ history : List Step, next.opened (some contents) =
        ⟨some (recordBytes (history.map Step.command)),
          Store.new.executeAll (stepsAt next.readings 0 (history.map Step.command)),
          .ok (.onFile next.policy (recordBytes (history.map Step.command)))⟩ ∧
      (Store.new.executeAll history).view (final.now life.world) =
        final.store.view (final.now life.world) := by
  intro final
  obtain ⟨before, torn, intact⟩ := earlier.intact
    fun life membership => modest life (List.mem_append_left _ membership)
  obtain ⟨file, -, safe⟩ := intact.safe_final closes.opens
  obtain ⟨root, offset, count, describes, holding⟩ := safe.history
  have survives := closes.survives
  rw [← safe.log] at reported survives
  rw [file] at survives
  have exactly := holding.closed reported survives
  have recoverable := intact.recoverable_history
    (modest _ (List.mem_append_right _ (List.mem_singleton.mpr rfl))) describes
  refine ⟨root ++ final.applied.drop offset, ?_, describes.explains.view⟩
  have reopened : Intact ((some contents).getD [])
      ((root ++ final.applied.drop offset).map Step.command) [] := by
    refine ⟨by rw [List.append_nil]; exact exactly, fun command membership => ?_, absurd rfl⟩
    obtain ⟨step, listed, rfl⟩ := List.mem_map.mp membership
    refine recoverable step ?_
    rcases List.mem_append.mp listed with isRoot | isApplied
    · exact List.mem_append_left _ isRoot
    · exact List.mem_append_right _ (List.drop_subset _ _ isApplied)
  exact reopened.opened next

end

/-- A lifetime without a memory limit that is opened without an error. -/
def Lifetime.plain (world : World) (repositions : world.Repositions) {policyName : Bytes}
    {policy : SyncPolicy} (known : SyncPolicy.ofName policyName = some policy)
    (events : List Event) (event : Event) (calls : List LogCall) : Lifetime :=
  ⟨world, repositions, ⟨none, none, none, none, ⟨none, none⟩, none, none, none, none⟩,
    ⟨rfl, rfl, rfl, rfl, rfl, rfl, rfl, rfl⟩, fun _ => world.clock 0, fun _ _ _ => le_refl _,
    fun _ => le_refl _, bytes "aof", by decide, policyName, policy, known, 0, false, events, event,
    calls⟩

section

attribute [local instance] GoTables.ascii

/-- The second write of the first lifetime is torn, and the second lifetime
begins with the first write. -/
theorem lifetimes_recover_torn :
    let set : Command := ⟨bytes "SET", [bytes "k", bytes "v"]⟩
    let push : Command := ⟨bytes "RPUSH", [bytes "l", bytes "a"]⟩
    let world := World.failing ⟨0, by decide⟩ 4
    let log := Log.onFile .always []
    let start : Executor := ⟨.new, log, 0, false, .idle, [], 0, []⟩
    let events : List Event := [.write (.commit [set])]
    let event : Event := .write (.commit [push])
    let life := Lifetime.plain world (World.failing_repositions _ 4)
      (by decide : SyncPolicy.ofName (bytes "always") = some .always) events event
      ((start.run world events).stepCalls world event)
    let contents := set.record ++ push.record.take 5
    life.Crashes none log contents ∧
      ∃ read, life.opened (some contents) =
        ⟨some (recordBytes read), Store.new.executeAll (stepsAt life.readings 0 read),
          .ok (.onFile .always (recordBytes read))⟩ := by
  intro set push world log start events event life contents
  have certain : (DurableLog.run ⟨log, recoveredDisk [] []⟩
      (life.allCalls none log)).disk.active.certain = set.record := by decide +kernel
  have written : (DurableLog.run ⟨log, recoveredDisk [] []⟩
      (life.allCalls none log)).disk.active.current = contents := by decide +kernel
  have crashes : life.Crashes none log contents := by
    refine ⟨rfl, ?_, ?_⟩
    · exact List.prefix_refl ((start.run world events).stepCalls world event)
    · change (DurableLog.run ⟨log, recoveredDisk [] []⟩ _).disk.Survives contents
      rw [← written]
      apply CrashDisk.survives_current
      rw [certain, written]
      exact List.prefix_append _ _
  have modest : life.Modest := by
    refine ⟨?_, ?_⟩
    · intro other membership
      rw [List.mem_singleton.mp membership]
      intro command inside
      rw [List.mem_singleton.mp inside]
      exact ⟨⟨by decide, by decide⟩, by decide⟩
    · intro command membership
      rw [List.mem_singleton.mp membership]
      exact ⟨⟨by decide, by decide⟩, by decide⟩
  obtain ⟨read, opened, -⟩ := lifetimes_recover .none crashes (by simpa using modest) life
  exact ⟨crashes, read, opened⟩

/-- A server that never syncs is closed. -/
theorem closed_recovers_unsynced :
    let set : Command := ⟨bytes "SET", [bytes "k", bytes "v"]⟩
    let world := World.still ⟨0, by decide⟩
    let log := Log.onFile .no []
    let life := Lifetime.plain world (fun _ => rfl)
      (by decide : SyncPolicy.ofName (bytes "no") = some .no)
      [.write (.commit [set]), .background (.task .beginClose)] (.background (.task .beginClose)) []
    let calls : CloseDisk := ⟨none, none, none, none⟩
    life.Closes none log calls set.record ∧
      ∃ history : List Step, life.opened (some set.record) =
        ⟨some (recordBytes (history.map Step.command)),
          Store.new.executeAll (stepsAt life.readings 0 (history.map Step.command)),
          .ok (.onFile .no (recordBytes (history.map Step.command)))⟩ := by
  intro set world log life calls
  let disk := (life.final none log).log.closeOnDisk calls
    (DurableLog.run ⟨log, recoveredDisk [] []⟩
      ((life.start none log).runCalls life.world life.events)).disk
  have certain : disk.active.certain = set.record := by decide +kernel
  have written : disk.active.current = set.record := by decide +kernel
  have closes : life.Closes none log calls set.record := by
    refine ⟨rfl, by decide +kernel, Option.isNone_iff_eq_none.mp (by decide +kernel), ?_⟩
    change disk.Survives set.record
    rw [← written]
    apply CrashDisk.survives_current
    rw [certain, written]
  have modest : life.Modest := by
    refine ⟨?_, trivial⟩
    intro other membership
    rcases List.mem_cons.mp membership with rfl | membership
    · intro command inside
      rw [List.mem_singleton.mp inside]
      exact ⟨⟨by decide, by decide⟩, by decide⟩
    · rw [List.mem_singleton.mp membership]
      trivial
  obtain ⟨history, opened, -⟩ :=
    closed_recovers .none closes (by decide +kernel) (by simpa using modest) life
  exact ⟨closes, history, opened⟩

end

end Carrot
