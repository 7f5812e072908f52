import Carrot.Executor.ActiveExpire

/-!
# What active expiry deletes

Whatever the clients do in between, a run of the pass deletes keys that are
expired when they are deleted, counts them, and with a journal appends their
deletions before.  After an append that fails nothing is deleted.
-/

namespace Carrot.ActiveExpire

/-- A call that appends nothing and deletes at most one of some keys. -/
def DeletesFrom (keys : List Key) {Result : Type} : ExpiryCall Result → Prop
  | .deleteCandidate key _ => key ∈ keys
  | .append _ => False
  | _ => True

theorem mem_of_deletes {keys : List Key} {call : MadeExpiryCall}
    (allowed : DeletesFrom keys call.request) {key : Key} (deleted : deletes call = some key) :
    key ∈ keys := by
  obtain ⟨Result, before, request, result⟩ := call
  cases request with
  | deleteCandidate other now =>
      change (if result then some other else none) = some key at deleted
      split at deleted
      next =>
        cases deleted
        exact allowed
      next => cases deleted
  | _ => cases deleted

theorem appends_of_deletesFrom {keys : List Key} {call : MadeExpiryCall}
    (allowed : DeletesFrom keys call.request) : appends call = [] ∧ refused call = false := by
  obtain ⟨Result, before, request, result⟩ := call
  cases request with
  | append => exact allowed.elim
  | _ => exact ⟨rfl, rfl⟩

/-! ## The calls that the parts of the pass make -/

theorem deleteLoop_makes (now : Clock) {keys all : List Key} (among : keys ⊆ all) (count : Int) :
    (deleteLoop now keys count).Makes (DeletesFrom all) := by
  induction keys generalizing count with
  | nil => trivial
  | cons key keys inductionHypothesis =>
      rw [List.cons_subset] at among
      exact ⟨among.1, fun _ => inductionHypothesis among.2 _⟩

theorem deleteExpired_makes (keys : List Key) : (deleteExpired keys).Makes (DeletesFrom keys) :=
  ⟨trivial, fun now => deleteLoop_makes now (List.Subset.refl keys) 0⟩

theorem filterLoop_makes (now : Clock) (keys out : List Key) :
    (filterLoop now keys out).Makes (DeletesFrom []) := by
  induction keys generalizing out with
  | nil => trivial
  | cons key keys inductionHypothesis => exact ⟨trivial, fun _ => inductionHypothesis _⟩

theorem filterExpired_makes (keys : List Key) : (filterExpired keys).Makes (DeletesFrom []) :=
  ⟨trivial, fun now => filterLoop_makes now keys []⟩

theorem sampleLoop_makes (draws : Draws) (limit : Int) (now : Clock)
    (remaining step sampled : Nat) (expired : List Key) :
    (sampleLoop draws limit now remaining step sampled expired).Makes (DeletesFrom []) := by
  induction remaining generalizing step sampled expired with
  | zero => trivial
  | succ remaining inductionHypothesis =>
      rw [sampleLoop]
      split
      next => trivial
      next => exact ⟨trivial, fun _ => inductionHypothesis _ _ _⟩

theorem sampleExpired_makes (limit : Int) : (sampleExpired limit).Makes (DeletesFrom []) :=
  ⟨trivial, fun now => ⟨trivial, fun draws => sampleLoop_makes draws limit now _ _ _ _⟩⟩

/-! ## Records -/

/-- Every key that is deleted was appended before: with the keys deleted since, it
is taken in order from the batch of one append. -/
def Recorded (made : List MadeExpiryCall) : Prop :=
  ∀ earlier call later key, made = earlier ++ call :: later → deletes call = some key →
    ∃ first append between, earlier = first ++ append :: between ∧
      (deletions between ++ [key]).Sublist (appends append)

/-- Nothing is deleted after an append that fails. -/
def Stops (made : List MadeExpiryCall) : Prop :=
  ∀ earlier call later, made = earlier ++ call :: later → refused call = true →
    deletions later = []

theorem deletions_of_deletes {earlier later : List MadeExpiryCall} {call : MadeExpiryCall}
    {key : Key} (deleted : deletes call = some key) :
    deletions (earlier ++ call :: later) = deletions earlier ++ key :: deletions later := by
  rw [deletions_append]
  apply congrArg
  exact List.filterMap_cons_some deleted

theorem recorded_of_deletions {made : List MadeExpiryCall} (none : deletions made = []) :
    Recorded made := by
  intro earlier call later key split deleted
  rw [split, deletions_of_deletes deleted] at none
  exact absurd none (by simp)

/-- An append, and deletions of what it appended. -/
theorem recorded_of_append {append : MadeExpiryCall} {made : List MadeExpiryCall}
    (deletesNothing : deletes append = none) (among : (deletions made).Sublist (appends append)) :
    Recorded (append :: made) := by
  intro earlier call later key split deleted
  rcases List.cons_eq_append_iff.mp split with ⟨rfl, same⟩ | ⟨between, rfl, rfl⟩
  · cases same
    rw [deletesNothing] at deleted
    cases deleted
  · refine ⟨[], append, between, rfl, List.Sublist.trans ?_ among⟩
    rw [deletions_of_deletes deleted]
    exact (List.sublist_append_left [key] _).append_left _

theorem Recorded.append {first second : List MadeExpiryCall} (start : Recorded first)
    (next : Recorded second) : Recorded (first ++ second) := by
  intro earlier call later key split deleted
  rcases List.append_eq_append_iff.mp split with ⟨rest, rfl, inSecond⟩ | ⟨rest, rfl, inFirst⟩
  · obtain ⟨before, append, between, rfl, among⟩ := next rest call later key inSecond deleted
    exact ⟨first ++ before, append, between, (List.append_assoc _ _ _).symm, among⟩
  · cases rest with
    | nil =>
        obtain ⟨before, append, between, impossible, _⟩ :=
          next [] call later key inFirst.symm deleted
        cases before <;> cases impossible
    | cons _ rest =>
        cases inFirst
        exact start earlier call rest key rfl deleted

theorem stops_of_not_refused {made : List MadeExpiryCall}
    (fine : ∀ call ∈ made, refused call = false) : Stops made := by
  rintro earlier call later rfl failed
  rw [fine call (List.mem_append_right _ List.mem_cons_self)] at failed
  cases failed

theorem Stops.append {first second : List MadeExpiryCall}
    (fine : ∀ call ∈ first, refused call = false) (next : Stops second) :
    Stops (first ++ second) := by
  intro earlier call later split failed
  rcases List.append_eq_append_iff.mp split with ⟨rest, rfl, inSecond⟩ | ⟨rest, rfl, inFirst⟩
  · exact next rest call later inSecond failed
  · cases rest with
    | nil => exact next [] call later inFirst.symm failed
    | cons _ rest =>
        cases inFirst
        rw [fine call (List.mem_append_right _ List.mem_cons_self)] at failed
        cases failed

/-! ## Runs -/

/-- What holds of the calls of a run that deletes `total` keys.  `journaled` says
that keys are removed by `journalAndDeleteExpired`, and `failed` that an append
may have failed. -/
structure Safe [GoTables] (world : World) (journaled : Bool) (made : List MadeExpiryCall)
    (total : Int) (failed : Bool) : Prop where
  expired : ∀ call ∈ made, ∀ key, deletes call = some key →
    call.before.executor.store.holdsExpired key (call.before.executor.now world).now = true
  counted : total = (deletions made).length
  recorded : journaled = true → (∀ call ∈ made, missing call = false) → Recorded made
  stops : Stops made
  fine : failed = false → ∀ call ∈ made, refused call = false

section

variable [GoTables] {world : World} {journaled : Bool}

theorem Safe.append {first second : List MadeExpiryCall} {total more : Int} {failed : Bool}
    (start : Safe world journaled first total false)
    (next : Safe world journaled second more failed) :
    Safe world journaled (first ++ second) (total + more) failed where
  expired := by
    rw [List.forall_mem_append]
    exact ⟨start.expired, next.expired⟩
  counted := by
    rw [deletions_append, List.length_append, start.counted, next.counted]
    rfl
  recorded isJournaled installed := by
    rw [List.forall_mem_append] at installed
    exact (start.recorded isJournaled installed.1).append (next.recorded isJournaled installed.2)
  stops := .append (start.fine rfl) next.stops
  fine kept := by
    rw [List.forall_mem_append]
    exact ⟨start.fine rfl, next.fine kept⟩

omit [GoTables] in
theorem deletions_of_quiet {made : List MadeExpiryCall}
    (quiet : ∀ call ∈ made, DeletesFrom [] call.request) : deletions made = [] := by
  rw [deletions, List.filterMap_eq_nil_iff]
  intro call membership
  cases deleted : deletes call with
  | none => rfl
  | some key => cases mem_of_deletes (quiet call membership) deleted

/-- Calls that only look. -/
theorem safe_of_quiet {made : List MadeExpiryCall}
    (quiet : ∀ call ∈ made, DeletesFrom [] call.request) : Safe world journaled made 0 false where
  expired call membership key deleted := by
    cases mem_of_deletes (quiet call membership) deleted
  counted := by
    rw [deletions_of_quiet quiet]
    rfl
  recorded _ _ := recorded_of_deletions (deletions_of_quiet quiet)
  stops := stops_of_not_refused fun call membership =>
    (appends_of_deletesFrom (quiet call membership)).2
  fine _ call membership := (appends_of_deletesFrom (quiet call membership)).2

theorem safe_nil : Safe world journaled [] 0 false :=
  safe_of_quiet fun _ impossible => (List.not_mem_nil impossible).elim

theorem Safe.after_quiet {first second : List MadeExpiryCall} {total : Int} {failed : Bool}
    (quiet : ∀ call ∈ first, DeletesFrom [] call.request)
    (safe : Safe world journaled second total failed) :
    Safe world journaled (first ++ second) total failed := by
  have whole := (safe_of_quiet quiet).append safe
  rwa [zero_add] at whole

theorem Safe.after_look {call : MadeExpiryCall} {made : List MadeExpiryCall} {total : Int}
    {failed : Bool} (quiet : DeletesFrom [] call.request)
    (safe : Safe world journaled made total failed) :
    Safe world journaled (call :: made) total failed :=
  safe.after_quiet (List.forall_mem_singleton.mpr quiet)

end

section

variable [GoTables] {world : World} {others : ExpiryState → ExpiryState → Prop}
  (advances : ∀ {before after}, others before after → before.executor.tick ≤ after.executor.tick)

include advances

theorem deleteLoop_deletes {now : Clock} {keys : List Key} {count total : Int}
    {state after : ExpiryState} {made : List MadeExpiryCall}
    (reading : now ≤ state.executor.now world)
    (runs : (deleteLoop now keys count).RunsAmong world others state made total after) :
    (∀ call ∈ made, ∀ key, deletes call = some key →
        call.before.executor.store.holdsExpired key (call.before.executor.now world).now = true) ∧
      total = count + (deletions made).length := by
  induction keys generalizing count state made with
  | nil =>
      cases runs
      exact ⟨fun _ impossible => (List.not_mem_nil impossible).elim, (add_zero _).symm⟩
  | cons key keys inductionHypothesis =>
      cases runs with
      | @call _ _ _ _ before _ made _ interferes rest =>
          have later : now ≤ before.executor.now world :=
            le_trans reading (world.monotone (advances interferes))
          obtain ⟨expired, counted⟩ := inductionHypothesis
            (le_trans later (ExpiryState.answer_now world before (.deleteCandidate key now))) rest
          rw [List.forall_mem_cons]
          by_cases dead : before.executor.store.holdsExpired key now.now = true
          · have answer : (before.answer world (.deleteCandidate key now)).2 = true := by
              simp only [ExpiryState.answer, ExpiryState.deleteCandidate, if_pos dead]
            rw [answer] at counted ⊢
            refine ⟨⟨?_, expired⟩, ?_⟩
            · rintro _ ⟨⟩
              exact Store.holdsExpired_later dead later
            · rw [counted, deletions, deletions, List.filterMap_cons]
              simp only [deletes, if_true, List.length_cons]
              push_cast
              ring
          · have answer : (before.answer world (.deleteCandidate key now)).2 = false := by
              simp only [ExpiryState.answer, ExpiryState.deleteCandidate, if_neg dead]
            rw [answer] at counted ⊢
            refine ⟨⟨?_, expired⟩, counted⟩
            rintro _ ⟨⟩

omit advances in
theorem deleteLoop_sublist {now : Clock} {keys : List Key} {count total : Int}
    {state after : ExpiryState} {made : List MadeExpiryCall}
    (runs : (deleteLoop now keys count).RunsAmong world others state made total after) :
    (deletions made).Sublist keys := by
  induction keys generalizing count state made with
  | nil =>
      cases runs
      exact List.Sublist.refl _
  | cons key keys inductionHypothesis =>
      cases runs with
      | @call _ _ _ _ before _ made _ _ rest =>
          have among := inductionHypothesis rest
          cases (before.answer world (.deleteCandidate key now)).2 with
          | true => exact among.cons_cons key
          | false => exact among.cons key

omit advances in
theorem deleteExpired_sublist {keys : List Key} {total : Int} {state after : ExpiryState}
    {made : List MadeExpiryCall}
    (runs : (deleteExpired keys).RunsAmong world others state made total after) :
    (deletions made).Sublist keys := by
  cases runs with
  | @call _ _ _ _ _ _ made _ _ rest =>
      change (deletions made).Sublist keys
      exact deleteLoop_sublist rest

theorem deleteExpired_safe {keys : List Key} {total : Int} {state after : ExpiryState}
    {made : List MadeExpiryCall}
    (runs : (deleteExpired keys).RunsAmong world others state made total after) :
    Safe world false made total false := by
  have makes := runs.makes (deleteExpired_makes keys)
  have fine : ∀ call ∈ made, refused call = false := fun call membership =>
    (appends_of_deletesFrom (makes call membership)).2
  cases runs with
  | @call _ _ _ _ before _ made _ interferes rest =>
      obtain ⟨expired, counted⟩ :=
        deleteLoop_deletes advances (ExpiryState.answer_now world before .now) rest
      refine ⟨?_, ?_, fun impossible => ?_, stops_of_not_refused fine, fun _ => fine⟩
      · rw [List.forall_mem_cons]
        refine ⟨?_, expired⟩
        rintro _ ⟨⟩
      · rw [counted, zero_add]
        rfl
      · cases impossible

/-- A batch is appended, and then deleted unless this failed. -/
theorem appended_safe {expired : List Key} {call : MadeExpiryCall} {error : Option Bytes}
    {result : Int × Option Bytes} {state before after : ExpiryState} {made : List MadeExpiryCall}
    (made_call : call = ⟨Option Bytes, before, .append expired, error⟩)
    (runs : ExpiryProgram.RunsAmong world others
      (match error with
        | some error => .done (0, some (wrapError "persist expiry deletes: " error))
        | none => (deleteExpired expired).bind fun deleted => .done (deleted, none))
      state made result after) :
    Safe world true (call :: made) result.1 result.2.isSome := by
  subst made_call
  cases error with
  | some error =>
      cases runs
      refine ⟨?_, rfl, fun _ _ => recorded_of_deletions rfl, ?_, fun impossible => ?_⟩
      · rw [List.forall_mem_singleton]
        rintro _ ⟨⟩
      · intro earlier call later split _
        rcases List.cons_eq_append_iff.mp split with ⟨_, same⟩ | ⟨between, _, impossible⟩
        · cases same
          rfl
        · exact absurd impossible (by simp)
      · cases impossible
  | none =>
      obtain ⟨first, second, deleted, middle, rfl, start, goesOn⟩ := runs.of_bind
      cases goesOn
      rw [List.append_nil]
      have safe := deleteExpired_safe advances start
      have fine : ∀ call ∈ (⟨Option Bytes, before, .append expired, none⟩ :: first :
          List MadeExpiryCall), refused call = false := by
        rw [List.forall_mem_cons]
        exact ⟨rfl, safe.fine rfl⟩
      refine ⟨?_, safe.counted, fun _ _ => recorded_of_append rfl (deleteExpired_sublist start),
        stops_of_not_refused fine, fun _ => fine⟩
      rw [List.forall_mem_cons]
      refine ⟨?_, safe.expired⟩
      rintro _ ⟨⟩

theorem journalAndDeleteExpired_safe {candidates : List Key} {result : Int × Option Bytes}
    {state after : ExpiryState} {made : List MadeExpiryCall}
    (runs : (journalAndDeleteExpired candidates).RunsAmong world others state made result after) :
    Safe world true made result.1 result.2.isSome := by
  cases runs with
  | @call _ _ _ _ before _ made _ _ rest =>
      change ExpiryProgram.RunsAmong world others (if (!before.journaled) = true then _ else _) _ _
        _ _ at rest
      by_cases installed : before.journaled = true
      · rw [if_neg (by simp [installed])] at rest
        obtain ⟨first, second, expired, middle, rfl, start, goesOn⟩ := rest.of_bind
        refine Safe.after_look ?_ ?_
        · trivial
        apply Safe.after_quiet (start.makes (filterExpired_makes candidates))
        split at goesOn
        next =>
          cases goesOn
          exact safe_nil
        next =>
          cases goesOn with
          | call _ goesOn => exact appended_safe advances rfl goesOn
      · rw [if_pos (by simp [installed])] at rest
        obtain ⟨first, second, deleted, middle, rfl, start, goesOn⟩ := rest.of_bind
        cases goesOn
        rw [List.append_nil]
        -- Without a journal nothing is recorded, but the journal was found to be gone.
        have safe : Safe world false
            (⟨Bool, before, .installed, before.journaled⟩ :: first) deleted false :=
          (deleteExpired_safe advances start).after_look trivial
        refine { safe with recorded := fun _ found => ?_ }
        have gone : before.journaled = false := Bool.eq_false_of_not_eq_true installed
        have impossible : missing ⟨Bool, before, .installed, before.journaled⟩ = false :=
          found _ List.mem_cons_self
        rw [gone] at impossible
        cases impossible

/-- The part of an iteration that removes keys. -/
theorem removeBatch_safe {journaled : Bool} {expired : List Key} {result : Int × Option Bytes}
    {state after : ExpiryState} {made : List MadeExpiryCall}
    (runs : (removeBatch (if journaled then some journalAndDeleteExpired else none)
      expired).RunsAmong world others state made result after) :
    Safe world journaled made result.1 result.2.isSome := by
  unfold removeBatch at runs
  split at runs
  next =>
    cases journaled with
    | true => exact journalAndDeleteExpired_safe advances runs
    | false =>
        obtain ⟨first, second, deleted, middle, rfl, start, goesOn⟩ := runs.of_bind
        cases goesOn
        rw [List.append_nil]
        exact deleteExpired_safe advances start
  next =>
    cases runs
    exact safe_nil

/-- What an iteration does once it has a sample. -/
theorem removes_safe {journaled : Bool} {sample : Nat × List Key} {totalDeleted total : Int}
    {goOn : Int → ExpiryProgram Int} {state after : ExpiryState} {made : List MadeExpiryCall}
    (continues : ∀ {deleted state made},
      (goOn deleted).RunsAmong world others state made total after →
        ∃ failed, Safe world journaled made (total - deleted) failed)
    (runs : ExpiryProgram.RunsAmong world others
      ((removeBatch (if journaled then some journalAndDeleteExpired else none) sample.2).bind
        fun removed =>
          if removed.2.isSome then .done (totalDeleted + removed.1)
          else if 4 * sample.2.length ≤ sample.1 then .done (totalDeleted + removed.1)
          else goOn (totalDeleted + removed.1))
      state made total after) :
    ∃ failed, Safe world journaled made (total - totalDeleted) failed := by
  obtain ⟨first, second, removed, middle, rfl, start, goesOn⟩ := runs.of_bind
  have removes := removeBatch_safe advances start
  have stopping : second = [] → total = totalDeleted + removed.1 →
      ∃ failed, Safe world journaled (first ++ second) (total - totalDeleted) failed := by
    rintro rfl rfl
    rw [List.append_nil, add_sub_cancel_left]
    exact ⟨_, removes⟩
  split at goesOn
  next =>
    cases goesOn
    exact stopping rfl rfl
  next fine =>
    split at goesOn
    next =>
      cases goesOn
      exact stopping rfl rfl
    next =>
      obtain ⟨failed, rest⟩ := continues goesOn
      rw [Bool.not_eq_true] at fine
      rw [fine] at removes
      have whole := removes.append rest
      refine ⟨failed, ?_⟩
      rwa [← sub_sub, add_sub_cancel] at whole

theorem cycleLoop_safe {journaled : Bool} {started : Clock} {remaining : Nat}
    {totalDeleted total : Int} {state after : ExpiryState} {made : List MadeExpiryCall}
    (runs : (cycleLoop (if journaled then some journalAndDeleteExpired else none) started remaining
      totalDeleted).RunsAmong world others state made total after) :
    ∃ failed, Safe world journaled made (total - totalDeleted) failed := by
  induction remaining generalizing totalDeleted state made with
  | zero =>
      cases runs
      rw [sub_self]
      exact ⟨false, safe_nil⟩
  | succ remaining inductionHypothesis =>
      cases runs with
      | @call _ _ _ _ before _ made _ _ rest =>
          change ExpiryProgram.RunsAmong world others (if _ then _ else _) _ _ _ _ at rest
          split at rest
          next =>
            cases rest
            rw [sub_self]
            exact ⟨false, safe_nil.after_look trivial⟩
          next =>
            obtain ⟨first, second, sample, middle, rfl, start, goesOn⟩ := rest.of_bind
            have samples := start.makes (sampleExpired_makes 20)
            split at goesOn
            next =>
              cases goesOn
              rw [sub_self]
              exact ⟨false, (safe_nil.after_quiet samples).after_look trivial⟩
            next =>
              obtain ⟨failed, safe⟩ := removes_safe advances inductionHypothesis goesOn
              exact ⟨failed, (safe.after_quiet samples).after_look trivial⟩

theorem activeExpireCycleWith_safe {journaled : Bool} {total : Int} {state after : ExpiryState}
    {made : List MadeExpiryCall}
    (runs : (activeExpireCycleWith
      (if journaled then some journalAndDeleteExpired else none)).RunsAmong world others state made
        total after) :
    ∃ failed, Safe world journaled made total failed := by
  cases runs with
  | call _ rest =>
      obtain ⟨failed, safe⟩ := cycleLoop_safe advances rest
      rw [sub_zero] at safe
      exact ⟨failed, safe.after_look trivial⟩

end

end Carrot.ActiveExpire
