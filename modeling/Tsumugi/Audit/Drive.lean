import Tsumugi.Audit.Tally

/-!
# What the driver makes of its core

An invariant of the core that may mention what the audit stream holds is carried
through a whole audited run: through the notes of the evaluator, the slices with
their flushes, and the link phase. When the driver returns an outcome, the stream
holds all that was noted, and the outcome is the one of the core's last step.

Results:
1. `triple_runSlice`: the invariant over a slice, and how a terminal slice ends.
2. `triple_runAuditedDriver`: the three ways to an outcome.
-/

namespace Tsumugi.Audit

open Budget Word Run

variable {C S V : Type}

/-- The sums of the audit stream, by side and resource. -/
abbrev Totals := Side → BudgetResource → Nat

/-- What the audit stream holds or is about to hold. -/
def RunState.totals (st : RunState C S) : Totals := fun side resource => st.delta side resource

/-- The sums of a list of notes. -/
def noteTotals (notes : List Note) : Totals :=
  fun side resource => (notes.map (·.delta side resource)).sum

/-- `J` holds of the sums and of the core while the program runs. `view` is all of the core
that `J` and the usage depend on. -/
structure Invariant (core : Core C) (view : C → V) (J : Totals → C → Prop) : Prop where
  cancel : ∀ c, view (core.checkpointCancel c).2 = view c
  deadline : ∀ c, view (core.checkpointDeadline c).2 = view c
  exit : ∀ c, view (core.takePendingExit c).2 = view c
  clear : ∀ c, view (core.clear c) = view c
  usage : ∀ {c c'}, view c = view c' → core.usage c = core.usage c'
  congr : ∀ {d c c'}, J d c → view c = view c' → J d c'
  startSlice : ∀ {d c} n, J d c → J d (core.startSlice c n)
  note : ∀ {d d' c c' n}, J d c → core.next c = (.note n, c') →
    (∀ side resource, Tallies (d' side resource) (d side resource + n.delta side resource)) →
    J d' c'
  step : ∀ {d c c' action}, J d c → core.next c = (action, c') → (∀ n, action ≠ .note n) → J d c'

/-- The last step of a slice. -/
inductive LastStep (core : Core C) (J : Totals → C → Prop) (d : Totals) :
    DriveOutcome → C → Prop
  | yields {c c' : C} : J d c → core.next c = (.yields, c') → LastStep core J d .yielded c'
  | boundary {c c' : C} : J d c → core.next c = (.boundary, c') → LastStep core J d .yielded c'
  | done {c c' : C} (result : EvalResult) : J d c → core.next c = (.done result, c') →
      LastStep core J d (.done result) c'
  | fails {c c' : C} (error : TsumugiError) : J d c → core.next c = (.fails error, c') →
      LastStep core J d (.fails error) c'

/-- The error of a yield that gets no poll index. -/
def pollIndexError : TsumugiError :=
  .runtimeWithKind 0 .internal "内部エラー: yield poll_index を割り当てできません"

/-- How a session is finalized: the result of the slice, and the core. -/
inductive Finished (core : Core C) (J : Totals → C → Prop) (d : Totals) :
    Except TsumugiError Unit → C → Prop
  | done {c : C} (result : EvalResult) : LastStep core J d (.done result) c →
      Finished core J d (finalResult result) (core.finalizeSession c (finalResult result).isOk)
  | fails {c : C} (error : TsumugiError) : LastStep core J d (.fails error) c →
      Finished core J d (.error error)
        (core.finalizeSession c (error.kind == some .processExit))
  | exhausted {c : C} : LastStep core J d .yielded c →
      Finished core J d (.error pollIndexError) (core.finalizeSession c false)

/-- The outcome of a terminal slice. -/
def outcomeOf (pendingExit : Option Nat) (usage : BudgetUsage) :
    Except TsumugiError Unit → ExecutionOutcome
  | .ok () => .completed usage
  | .error error => terminalFromRunError pendingExit usage error

/-- How the driver comes to an outcome, in a state whose recorder is empty. -/
inductive Driven (core : Core C) (view : C → V) (J : Totals → C → Prop) (c₀ : C)
    (st : RunState C S) : ExecutionOutcome → Prop
  /-- It was cancelled before it started. -/
  | cancelled {c : C} : core.install c₀ = (true, c) → view st.core = view c →
      st.totals = 0 → Driven core view J c₀ st (.cancelled (core.usage c))
  /-- The link phase failed. -/
  | refused {c c' : C} {notes : List Note} (error : TsumugiError) (pendingExit : Option Nat) :
      core.install c₀ = (false, c) → core.beginExecution c = (notes, .fails error, c') →
      view st.core = view c' →
      (∀ side resource, Tallies (st.totals side resource) (noteTotals notes side resource)) →
      Driven core view J c₀ st (terminalFromRunError pendingExit (core.usage c') error)
  /-- A slice was the last. -/
  | finished {c c' c'' : C} {notes : List Note} (result : Except TsumugiError Unit)
      (pendingExit : Option Nat) :
      core.install c₀ = (false, c) → core.beginExecution c = (notes, .ok, c') →
      Finished core J st.totals result c'' → view st.core = view c'' →
      Driven core view J c₀ st (outcomeOf pendingExit (core.usage c'') result)

namespace DriveLemmas

open TallyLemmas

@[simp] theorem terminalFromRunError_usage (pendingExit : Option Nat) (usage : BudgetUsage)
    (error : TsumugiError) : (terminalFromRunError pendingExit usage error).usage = usage := by
  unfold terminalFromRunError
  split <;> rfl

@[simp] theorem outcomeOf_usage (pendingExit : Option Nat) (usage : BudgetUsage)
    (result : Except TsumugiError Unit) : (outcomeOf pendingExit usage result).usage = usage := by
  cases result with
  | ok => rfl
  | error error => exact terminalFromRunError_usage pendingExit usage error

variable {core : Core C} {view : C → V} {J : Totals → C → Prop}

/-- The invariant of a state. -/
def Stands (J : Totals → C → Prop) (st : RunState C S) : Prop := J st.totals st.core

/-- What depends on the core and the sums only is kept by a part that moves neither. -/
theorem triple_of_unmoved {α : Type} {m : Run C S α} (h : Unmoved (id : C → C) m)
    {P : Totals → C → Prop} : Proc.Triple (fun st => P st.totals st.core) m
      fun _ st => P st.totals st.core := by
  intro st hst a t hr
  obtain ⟨hcore, hdelta⟩ := h.ends hr
  have htotals : t.totals = st.totals := funext fun side => funext fun resource =>
    hdelta side resource
  rw [htotals, show t.core = st.core from hcore]
  exact hst

theorem LastStep.inv (hI : Invariant core view J) {d : Totals} {outcome : DriveOutcome} {c : C}
    (h : LastStep core J d outcome c) : J d c := by
  cases h with
  | yields hJ hnext => exact hI.step hJ hnext (by simp)
  | boundary hJ hnext => exact hI.step hJ hnext (by simp)
  | done result hJ hnext => exact hI.step hJ hnext (by simp)
  | fails error hJ hnext => exact hI.step hJ hnext (by simp)

variable (hI : Invariant core view J)

include hI

theorem triple_runDriver (fuel : Nat) :
    Proc.Triple (Stands J) (runDriver core fuel : Run C S DriveOutcome)
      fun outcome st => LastStep core J st.totals outcome st.core := by
  induction fuel with
  | zero => exact Proc.triple_stop _
  | succ fuel ih =>
    refine Proc.triple_bind (triple_of_unmoved (unmoved_trace rfl)) fun _ => ?_
    refine Proc.triple_bind (Q := fun action st =>
      ∃ c, J st.totals c ∧ core.next c = (action, st.core))
      (Proc.triple_update fun st hst => ⟨st.core, hst, rfl⟩) fun action => ?_
    -- a step that notes nothing leaves the sums as they are
    have hstep : (∀ n, action ≠ .note n) → ∀ st : RunState C S,
        (∃ c, J st.totals c ∧ core.next c = (action, st.core)) → Stands J st := by
      rintro hne st ⟨_, hJ, hnext⟩
      exact hI.step hJ hnext hne
    cases action with
    | note note =>
      refine Proc.triple_bind (Proc.triple_update fun st hst => ?_) fun _ => ih
      obtain ⟨c, hJ, hnext⟩ := hst
      refine hI.note hJ hnext fun side resource => ?_
      have h := tallies_add (take_tallies side resource st.recorder note)
        (appendedDelta side resource st.log)
      simp only [RunState.totals, RunState.delta, appendedDelta_append, appendedDelta_recorded,
        Nat.add_zero]
      rw [show appendedDelta side resource st.log + st.recorder.delta side resource +
        note.delta side resource = st.recorder.delta side resource + note.delta side resource +
          appendedDelta side resource st.log by omega, Nat.add_comm]
      exact h
    | progress =>
      refine Proc.triple_bind (Proc.Triple.conseq (triple_of_unmoved (unmoved_record ?_))
        (hstep (by simp)) fun _ _ h => h) fun _ => ih
      exact fun r side resource => rfl
    | boundary =>
      refine Proc.triple_bind (triple_of_unmoved (P := fun d c' =>
        ∃ c, J d c ∧ core.next c = (.boundary, c')) (unmoved_gets _)) fun exceeded => ?_
      refine Proc.triple_ite ?_ (Proc.Triple.conseq ih (hstep (by simp)) fun _ _ h => h)
      refine Proc.triple_bind (triple_of_unmoved (P := fun d c' =>
        ∃ c, J d c ∧ core.next c = (.boundary, c')) (unmoved_record ?_)) fun _ => ?_
      · exact fun r side resource => rfl
      · refine Proc.triple_pure ?_
        rintro st ⟨c, hJ, hnext⟩
        exact .boundary hJ hnext
    | yields =>
      refine Proc.triple_pure ?_
      rintro st ⟨c, hJ, hnext⟩
      exact .yields hJ hnext
    | done result =>
      refine Proc.triple_pure ?_
      rintro st ⟨c, hJ, hnext⟩
      exact .done result hJ hnext
    | fails error =>
      refine Proc.triple_pure ?_
      rintro st ⟨c, hJ, hnext⟩
      exact .fails error hJ hnext
    | unwinds => exact fun _ _ _ _ hr => by cases hr

/-- What a slice leaves: a terminal one has finalized the session. -/
def AfterSlice (core : Core C) (J : Totals → C → Prop) (slice : SliceOutcome) (d : Totals)
    (c : C) : Prop :=
  match slice with
  | .terminal result => Finished core J d result c
  | _ => J d c

theorem triple_yieldSlice (slice : SliceOutcome) (reason : AuditYieldReason)
    (hslice : auditYieldReasonFrom slice = some reason) :
    Proc.Triple (fun st => LastStep core J st.totals .yielded st.core)
      (yieldSlice core slice reason : Run C S SliceOutcome)
      fun slice st => AfterSlice core J slice st.totals st.core := by
  refine Proc.triple_bind (triple_of_unmoved (P := fun d c => LastStep core J d .yielded c)
    (unmoved_record ?_)) fun _ => ?_
  · exact fun r side resource => flushChargesIntoAuditEvents_delta r
  refine Proc.triple_bind (triple_of_unmoved (P := fun d c => LastStep core J d .yielded c)
    (unmoved_gets _)) fun usage => ?_
  refine Proc.triple_bind (triple_of_unmoved (P := fun d c => LastStep core J d .yielded c)
    (unmoved_record ?_)) fun allocated => Proc.triple_ite ?_ ?_
  · intro r side resource
    rcases halloc : r.allocPollIndex with _ | ⟨pollIndex, r'⟩ <;> simp only
    rw [recordYield_delta, allocPollIndex_delta halloc]
  · refine Proc.triple_pure fun st hst => ?_
    have hJ := LastStep.inv hI hst
    cases slice with
    | terminal result => simp [auditYieldReasonFrom] at hslice
    | _ => exact hJ
  · refine Proc.triple_bind (Q := fun _ st => Finished core J st.totals (.error pollIndexError)
      st.core) (Proc.triple_update fun st hst => .exhausted hst) fun _ => ?_
    exact Proc.triple_pure fun st hst => hst

theorem triple_runSlice (fuel sliceFuel : Nat) :
    Proc.Triple (Stands J) (runSlice core fuel sliceFuel : Run C S SliceOutcome)
      fun slice st => AfterSlice core J slice st.totals st.core := by
  refine Proc.triple_bind (triple_of_unmoved (unmoved_gets _)) fun usage => ?_
  refine Proc.triple_bind (triple_of_unmoved (unmoved_record ?_)) fun _ => ?_
  · exact fun r side resource => recordResume_delta r usage
  refine Proc.triple_bind (Q := fun _ => Stands J)
    (Proc.triple_update fun st hst => hI.startSlice sliceFuel hst) fun _ => ?_
  refine Proc.triple_bind (triple_of_unmoved (unmoved_record ?_)) fun _ => ?_
  · exact fun r side resource => rfl
  refine Proc.triple_bind (triple_runDriver hI fuel) fun outcome => ?_
  cases outcome with
  | yielded =>
    refine Proc.triple_bind (triple_of_unmoved (P := fun d c => LastStep core J d .yielded c)
      (unmoved_record ?_)) fun queueYield => ?_
    · exact fun r side resource => rfl
    refine Proc.triple_bind (triple_of_unmoved (P := fun d c => LastStep core J d .yielded c)
      (unmoved_gets _)) fun pending => ?_
    dsimp only
    split
    next reason hreason => exact triple_yieldSlice hI _ reason hreason
    next hnone =>
      cases pending with
      | some callId => simp [sliceYield, auditYieldReasonFrom] at hnone
      | none =>
        cases queueYield <;> simp [sliceYield, auditYieldReasonFrom] at hnone
  | done result =>
    refine Proc.triple_bind (Q := fun _ st => Finished core J st.totals (finalResult result)
      st.core) (Proc.triple_update fun st hst => .done result hst) fun _ => ?_
    exact Proc.triple_pure fun st hst => hst
  | fails error =>
    refine Proc.triple_bind (Q := fun _ st => Finished core J st.totals (.error error)
      st.core) (Proc.triple_update fun st hst => .fails error hst) fun _ => ?_
    exact Proc.triple_pure fun st hst => hst

/-- The recorder holds nothing that counts. -/
def Flushed (st : RunState C S) : Prop := ∀ side resource, st.recorder.delta side resource = 0

variable (rq : AuditedRequest) (executionId : Nat) (sink : AuditSink S)

/-- A flush that succeeds keeps the sums and what is seen of the core. -/
theorem triple_flushEvents (fuel : Nat) {P : Totals → V → Prop} :
    Proc.Triple (fun st => P st.totals (view st.core))
      (flushEvents rq executionId core sink fuel : Run C S Unit)
      fun _ st => P st.totals (view st.core) ∧ Flushed st := by
  intro st hst a t hr
  have hholding : Holding view (view st.core) st.totals 0 st := ⟨rfl, fun _ _ => rfl⟩
  obtain ⟨⟨hview, hdelta⟩, hflushed⟩ := holding_flushEvents core sink executionId hI.cancel
    hI.deadline rq fuel st hholding a t hr
  have htotals : t.totals = st.totals := funext fun side => funext fun resource =>
    hdelta side resource
  rw [htotals, hview]
  exact ⟨hst, hflushed⟩

/-- The state after the flush that follows a terminal slice. -/
def Settled (core : Core C) (view : C → V) (J : Totals → C → Prop)
    (result : Except TsumugiError Unit) (c : C) (st : RunState C S) : Prop :=
  Finished core J st.totals result c ∧ view st.core = view c ∧ Flushed st

omit hI in
theorem Settled.of_view {result : Except TsumugiError Unit} {c c' : C} {st : RunState C S}
    (h : Settled core view J result c st) (hview : view c' = view st.core) :
    Settled core view J result c { st with core := c' } := ⟨h.1, hview.trans h.2.1, h.2.2⟩

/-- The outcome of an error is read from a core that looks the same. -/
theorem triple_terminalFrom (error : TsumugiError) (c : C) {Q : RunState C S → Prop}
    (hQ : ∀ {st : RunState C S} {c'}, Q st → view c' = view st.core → Q { st with core := c' }) :
    Proc.Triple (fun st => Q st ∧ view st.core = view c)
      (terminalFrom core error : Run C S ExecutionOutcome)
      fun outcome st => (Q st ∧ view st.core = view c) ∧
        ∃ pendingExit, outcome = terminalFromRunError pendingExit (core.usage c) error := by
  refine Proc.triple_bind (Q := fun usage st => (Q st ∧ view st.core = view c) ∧
    usage = core.usage c) (Proc.triple_gets fun st hst => ⟨hst, hI.usage hst.2⟩) fun usage => ?_
  refine Proc.triple_bind (Q := fun _ st => (Q st ∧ view st.core = view c) ∧
    usage = core.usage c) (Proc.triple_ite (Proc.triple_update fun st hst => ?_)
      (Proc.triple_pure fun _ hst => hst)) fun pendingExit => ?_
  · exact ⟨⟨hQ hst.1.1 (hI.exit _), (hI.exit _).trans hst.1.2⟩, hst.2⟩
  · exact Proc.triple_pure fun st hst => ⟨hst.1, pendingExit, by rw [hst.2]⟩

theorem triple_terminalOf (result : Except TsumugiError Unit) (c : C) :
    Proc.Triple (Settled core view J result c)
      (terminalOf core result : Run C S ExecutionOutcome)
      fun outcome st => Settled core view J result c st ∧
        ∃ pendingExit, outcome = outcomeOf pendingExit (core.usage c) result := by
  cases result with
  | ok =>
    refine Proc.triple_bind (Q := fun usage st => Settled core view J (.ok ()) c st ∧
      usage = core.usage c) (Proc.triple_gets fun st hst => ⟨hst, hI.usage hst.2.1⟩) fun usage => ?_
    exact Proc.triple_pure fun st hst => ⟨hst.1, none, by rw [hst.2]; rfl⟩
  | error error =>
    refine Proc.Triple.conseq (triple_terminalFrom hI error c
      (Q := Settled core view J (.error error) c) fun hst hview => hst.of_view hview)
      (fun st hst => ⟨hst, hst.2.1⟩) fun outcome st hst => ⟨hst.1.1, hst.2⟩

/-- The poll loop ends with a terminal slice and its flush. -/
theorem triple_pollLoop (sliceFuel fuel : Nat) :
    Proc.Triple (Stands J) (pollLoop rq executionId core sink sliceFuel fuel : Run C S AuditDrive)
      fun drive st => ∀ outcome, drive = .terminal outcome → ∃ result c pendingExit,
        Settled core view J result c st ∧
          outcome = outcomeOf pendingExit (core.usage c) result := by
  induction fuel with
  | zero => exact Proc.triple_stop _
  | succ fuel ih =>
    refine Proc.triple_bind (triple_runSlice hI fuel sliceFuel) fun slice => ?_
    refine Proc.triple_bind (Proc.triple_attempt (Proc.Triple.conseq
      (triple_flushEvents hI rq executionId sink fuel
        (P := fun d v => ∃ c, AfterSlice core J slice d c ∧ v = view c))
      (fun st hst => ⟨st.core, hst, rfl⟩) fun _ _ h => h)) fun flushed => ?_
    rcases flushed with failure | ⟨⟩
    · refine Proc.triple_bind (Q := fun _ _ => True) (fun _ _ _ _ _ => trivial) fun withheld => ?_
      refine Proc.triple_bind (Q := fun _ _ => True) (fun _ _ _ _ _ => trivial) fun _ => ?_
      exact Proc.triple_pure fun st _ outcome h => by cases h
    have hcontinue : (∀ {d c}, AfterSlice core J slice d c → J d c) →
        Proc.Triple (fun st : RunState C S => ∀ a, (Except.ok () : Except AuditFailure Unit) = .ok a →
          (∃ c, AfterSlice core J slice st.totals c ∧ view st.core = view c) ∧ Flushed st)
        (pollLoop rq executionId core sink sliceFuel fuel) _ := fun hJ =>
      Proc.Triple.conseq ih (fun st hst => by
        obtain ⟨⟨c, hc, hview⟩, -⟩ := hst () rfl
        exact hI.congr (hJ hc) hview.symm) fun _ _ h => h
    cases slice with
    | terminal result =>
      intro st hst
      obtain ⟨⟨c, hc, hview⟩, hflushed⟩ := hst () rfl
      refine Proc.triple_bind (triple_terminalOf hI result c) (fun outcome => ?_) st
        ⟨hc, hview, hflushed⟩
      refine Proc.triple_bind (Q := fun _ st => Settled core view J result c st ∧
        ∃ pendingExit, outcome = outcomeOf pendingExit (core.usage c) result)
        (Proc.triple_update fun st hst => ⟨hst.1.of_view (hI.clear _), hst.2⟩) fun _ => ?_
      refine Proc.triple_pure fun st hst outcome' h => ?_
      cases h
      obtain ⟨hsettled, pendingExit, houtcome⟩ := hst
      exact ⟨result, c, pendingExit, hsettled, houtcome⟩
    | yieldedSliceFuel => exact hcontinue fun h => h
    | yieldedHostCall callId => exact hcontinue fun h => h
    | yieldedExplicit => exact hcontinue fun h => h
    | yieldedAuditQueue => exact hcontinue fun h => h

omit hI in
/-- The notes of the link phase, one after the other. -/
theorem take_all_tallies (notes : List Note) (r : Recorder) (side : Side)
    (resource : BudgetResource) :
    Tallies ((notes.foldl Recorder.take r).delta side resource)
      (r.delta side resource + noteTotals notes side resource) := by
  induction notes generalizing r with
  | nil => exact tallies_refl _
  | cons note notes ih =>
    refine tallies_trans (ih (r.take note)) ?_
    have h := tallies_add (take_tallies side resource r note)
      (noteTotals notes side resource)
    simpa [noteTotals, Nat.add_assoc] using h

/-- The link phase has answered, and its notes are in the recorder. -/
def Begun (core : Core C) (c₀ : C) (answer : BeginAnswer) (c' : C) (st : RunState C S) : Prop :=
  ∃ c notes, core.install c₀ = (false, c) ∧ core.beginExecution c = (notes, answer, c') ∧
    ∀ side resource, Tallies (st.totals side resource) (noteTotals notes side resource)

omit hI in
theorem triple_beginExecution (c₀ : C) :
    Proc.Triple (fun st => core.install c₀ = (false, st.core) ∧ st.totals = 0)
      (beginExecution core : Run C S BeginAnswer)
      fun answer st => answer ≠ .unwinds ∧ Begun core c₀ answer st.core st := by
  refine Proc.triple_bind (triple_of_unmoved (P := fun d c => core.install c₀ = (false, c) ∧ d = 0)
    (unmoved_trace rfl)) fun _ => ?_
  refine Proc.triple_bind (Q := fun begun st => st.totals = 0 ∧ ∃ c,
    core.install c₀ = (false, c) ∧ core.beginExecution c = (begun.1, begun.2, st.core))
    (Proc.triple_update fun st hst => ⟨hst.2, st.core, hst.1, rfl⟩) fun begun => ?_
  obtain ⟨notes, answer⟩ := begun
  refine Proc.triple_bind (Q := fun _ st => Begun core c₀ answer st.core st)
    (Proc.triple_update fun st hst => ?_) fun _ => ?_
  · obtain ⟨hzero, c, hinstall, hbegin⟩ := hst
    refine ⟨c, notes, hinstall, hbegin, fun side resource => ?_⟩
    have hd : appendedDelta side resource st.log + st.recorder.delta side resource = 0 :=
      congrFun (congrFun hzero side) resource
    have htake := take_all_tallies notes st.recorder side resource
    simp only [RunState.totals, RunState.delta, appendedDelta_append, appendedDelta_recorded]
    rw [show appendedDelta side resource st.log = 0 by omega]
    rw [show st.recorder.delta side resource = 0 by omega] at htake
    simpa using htake
  · cases answer with
    | unwinds => exact fun _ _ _ _ hr => by cases hr
    | ok => exact Proc.triple_pure fun st hst => ⟨by simp, hst⟩
    | fails error => exact Proc.triple_pure fun st hst => ⟨by simp, hst⟩

/-- The driver returns an outcome in one of three ways, with the recorder empty. -/
theorem triple_runAuditedDriver (fuel : Nat) (c₀ : C)
    (hbegin : ∀ {c c' notes d}, core.install c₀ = (false, c) →
      core.beginExecution c = (notes, .ok, c') →
      (∀ side resource, Tallies (d side resource) (noteTotals notes side resource)) → J d c') :
    Proc.Triple (fun st => st.core = c₀ ∧ ∀ side resource, appendedDelta side resource st.log = 0)
      (runAuditedDriver rq executionId core sink fuel : Run C S AuditDrive)
      fun drive st => ∀ outcome, drive = .terminal outcome →
        Driven core view J c₀ st outcome ∧ Flushed st := by
  refine Proc.triple_bind (Q := fun cancelled st => core.install c₀ = (cancelled, st.core) ∧
    ∀ side resource, appendedDelta side resource st.log = 0)
    (Proc.triple_update fun st hst => ⟨by rw [← hst.1], hst.2⟩) fun cancelled => ?_
  refine Proc.triple_bind (Q := fun _ st => core.install c₀ = (cancelled, st.core) ∧
    Flushed st ∧ st.totals = 0) (Proc.triple_update fun st hst => ?_) fun _ => ?_
  · have hzero : ∀ side resource, ({} : Recorder).delta side resource = 0 := fun _ _ => rfl
    refine ⟨hst.1, hzero, funext fun side => funext fun resource => ?_⟩
    simp only [RunState.totals, RunState.delta, appendedDelta_append, appendedDelta_recorded,
      hst.2 side resource, hzero]
    rfl
  cases cancelled with
  | true =>
    refine Proc.triple_bind (Q := fun usage st => (core.install c₀ = (true, st.core) ∧
      Flushed st ∧ st.totals = 0) ∧ usage = core.usage st.core)
      (Proc.triple_gets fun st hst => ⟨hst, rfl⟩) fun usage => ?_
    refine Proc.triple_pure fun st hst outcome h => ?_
    cases h
    obtain ⟨⟨hinstall, hflushed, hzero⟩, rfl⟩ := hst
    exact ⟨.cancelled hinstall rfl hzero, hflushed⟩
  | false =>
    refine Proc.triple_bind (Q := fun _ st => core.install c₀ = (false, st.core) ∧ st.totals = 0)
      (Proc.Triple.conseq (triple_of_unmoved (P := fun d c => core.install c₀ = (false, c) ∧ d = 0)
        (unmoved_record fun r side resource => rfl)) (fun st hst => ⟨hst.1, hst.2.2⟩)
        fun _ _ h => h) fun _ => ?_
    refine Proc.triple_bind (triple_beginExecution c₀) fun answer => ?_
    cases answer with
    | unwinds => exact fun st hst => absurd rfl hst.1
    | ok =>
      rintro st ⟨-, c, notes, hinstall, hbegun, htallies⟩ drive t hr outcome houtcome
      obtain ⟨result, c', pendingExit, hsettled, rfl⟩ := triple_pollLoop hI rq executionId sink _
        fuel st (hbegin hinstall hbegun htallies) drive t hr outcome houtcome
      exact ⟨.finished result pendingExit hinstall hbegun hsettled.1 hsettled.2.1, hsettled.2.2⟩
    | fails error =>
      rintro st ⟨-, c, notes, hinstall, hbegun, htallies⟩
      -- the sums stay those of the link phase, and the core looks as it did at its end
      let linked (d : Totals) : Prop :=
        ∀ side resource, Tallies (d side resource) (noteTotals notes side resource)
      refine Proc.triple_bind (triple_terminalFrom hI error st.core
        (Q := fun s : RunState C S => linked s.totals) fun h _ => h) (fun outcome => ?_) st
        ⟨htallies, rfl⟩
      refine Proc.triple_bind (Proc.triple_attempt (Proc.Triple.conseq
        (triple_flushEvents hI rq executionId sink fuel (P := fun d v =>
          (linked d ∧ v = view st.core) ∧ ∃ pendingExit,
            outcome = terminalFromRunError pendingExit (core.usage st.core) error))
        (fun _ h => h) fun _ _ h => h)) fun flushed => ?_
      rcases flushed with failure | ⟨⟩
      · exact Proc.triple_pure fun _ _ outcome' h => by cases h
      refine Proc.triple_bind (Q := fun _ s => (linked s.totals ∧ view s.core = view st.core) ∧
        Flushed s ∧ ∃ pendingExit,
          outcome = terminalFromRunError pendingExit (core.usage st.core) error)
        (Proc.triple_update fun s hs => ?_) fun _ => ?_
      · obtain ⟨⟨⟨hlinked, hview⟩, houtcome⟩, hflushed⟩ := hs () rfl
        exact ⟨⟨hlinked, (hI.clear _).trans hview⟩, hflushed, houtcome⟩
      · refine Proc.triple_pure fun s hs outcome' h => ?_
        cases h
        obtain ⟨⟨hlinked, hview⟩, hflushed, pendingExit, rfl⟩ := hs
        exact ⟨.refused error pendingExit hinstall hbegun hview hlinked, hflushed⟩

end DriveLemmas

end Tsumugi.Audit
