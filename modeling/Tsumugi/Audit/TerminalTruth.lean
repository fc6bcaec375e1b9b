import Tsumugi.Audit.Reconcile

/-!
# What the Terminal says of the run

The Terminal shows an outcome, a usage, and two flags. The resource of a budget stop goes
through a slot that only one of the two conversions writes; where it is empty the
resource is guessed from the error kind.

Results:
1. `tells_truth_iff`: in a run whose driver does not panic, the Terminal is true of the
   run exactly when no effect outlives a run that was not committed, and the run was not
   stopped by the string limit inside `to_str`, `join` or `sort`.
-/

namespace Tsumugi.Audit

open Budget Word Run LedgerLemmas AccountLemmas DriveLemmas LoadingLemmas TallyLemmas ReconcileLemmas

variable {P S : Type}

/-- The Terminal event, against the client at the end of the run. -/
structure TellsTruth (outcome : TerminalOutcome) (usage : BudgetUsage)
    (committed hostEffectsMayRemain : Bool) (c : Client P) : Prop where
  committed : committed = c.committed
  effects : c.effects = true → c.committed = false → hostEffectsMayRemain = true
  resource : ∀ resource, outcome = .budgetExceeded resource →
    ∃ u e, c.unwinding = some u ∧ u.stop = .budgetExceeded e ∧ e.resource = resource
  usage : usage = if c.installed then c.ledger.usage else {}

/-- An effect outside remains, and the run did not commit. -/
def EffectsRemain (c : Client P) : Prop := c.effects = true ∧ c.committed = false

/-- A string builtin has met the limit of a single string. -/
def StoppedInBuiltin (c : Client P) : Prop :=
  ∃ u bytes e, c.unwinding = some u ∧ u.point = some (.builtinRendered bytes) ∧
    u.stop = .budgetExceeded e

/-- The request that was refused has the raw conversion. -/
def Unwinding.isRaw (u : Unwinding) : Bool :=
  match u.point with
  | some point => point.conversion == .raw
  | none => false

namespace TruthLemmas

/-! ## Stops -/

/-- The resource that a request with the raw conversion can run out of. -/
def rawResource : ChargePoint → BudgetResource
  | .builtinFuel => .fuel
  | .builtinRendered _ => .singleStringBytes
  | .collectionSize _ => .collectionElements
  | _ => .heapBytes

/-- A function that, if it meets a limit, meets that of `resource`. -/
def StopsAt (resource : BudgetResource) (m : Charge Unit) : Prop :=
  Proc.Ends (fun r _ _ => ∀ e, r = .error (.budgetExceeded e) → e.resource = resource) m

/-- A function that meets no limit. -/
def StopsNowhere {α : Type} (m : Charge α) : Prop :=
  Proc.Ends (fun r _ _ => ∀ e, r ≠ .error (.budgetExceeded e)) m

theorem stopsNowhere_gets {α : Type} (f : BudgetLedger → α) : StopsNowhere (Proc.gets f) :=
  fun _ _ h => by cases h

theorem stopsAt_of_nowhere {resource : BudgetResource} {m : Charge Unit} (h : StopsNowhere m) :
    StopsAt resource m := fun s e he => absurd he (h s e)

theorem stopsAt_bind {resource : BudgetResource} {α : Type} {m : Charge α} {f : α → Charge Unit}
    (hm : StopsNowhere m) (hf : ∀ a, StopsAt resource (f a)) : StopsAt resource (m >>= f) := by
  intro s e h
  rcases hrun : m.run s with ⟨stop | a, t⟩
  · rw [Proc.bind_run_error hrun] at h
    refine absurd ?_ (hm s e)
    rw [hrun]
    cases h
    rfl
  · rw [Proc.bind_run_ok hrun] at h
    exact hf a t e h

theorem stopsAt_andThen {resource : BudgetResource} {m n : Charge Unit}
    (hm : StopsAt resource m) (hn : StopsNowhere n) : StopsAt resource (m >>= fun _ => n) := by
  intro s e h
  rcases hrun : m.run s with ⟨stop | a, t⟩
  · rw [Proc.bind_run_error hrun] at h
    refine hm s e ?_
    rw [hrun]
    exact h
  · rw [Proc.bind_run_ok hrun] at h
    exact absurd h (hn t e)

theorem stopsNowhere_checkCancel : StopsNowhere Charge.checkCancel := by
  intro s e h
  simp only [Charge.checkCancel, Proc.bind_run, Proc.gets_run, Proc.modify_run] at h
  split at h <;> cases h

theorem stopsNowhere_checkDeadline : StopsNowhere Charge.checkDeadline := by
  intro s e h
  simp only [Charge.checkDeadline, Proc.bind_run, Proc.gets_run] at h
  split at h
  · cases h
  · simp only [Proc.bind_run, Proc.modify_run] at h
    split at h <;> cases h

theorem stopsNowhere_commitAll (requests : List CumulativeRequest) :
    StopsNowhere (Charge.commitAll requests) := by
  induction requests with
  | nil => exact fun _ _ h => by cases h
  | cons q rest ih =>
    intro s e h
    unfold Charge.commitAll Charge.commit at h
    rw [Proc.bind_run_ok (Proc.modify_run _ _)] at h
    exact ih _ e h

/-- A refusal is of one of the requests. -/
theorem refusal_resource {l : BudgetLedger} {phase : ExecutionPhase} {q : CumulativeRequest}
    {e : BudgetExceeded} (h : l.refusal phase [q] = some e) : e.resource = q.resource := by
  have hone : l.refusal phase [q] = l.reserveOne phase q := by
    simp only [BudgetLedger.refusal, List.foldl_cons, List.foldl_nil, BudgetLedger.worse]
    split <;> simp_all
  rw [hone, BudgetLedger.reserveOne] at h
  split at h
  · split at h <;> cases h
    rfl
  · cases h
    rfl

theorem stopsAt_chargeFuel (amount : Nat) (phase : ExecutionPhase) :
    StopsAt .fuel (Charge.chargeFuel amount phase) := by
  refine stopsAt_andThen ?_ (stopsNowhere_commitAll _)
  refine stopsAt_bind stopsNowhere_checkCancel fun _ => ?_
  refine stopsAt_bind stopsNowhere_checkDeadline fun _ => ?_
  intro s e h
  simp only [Proc.bind_run, Proc.gets_run] at h
  split at h
  next exceeded hrefusal =>
    cases h
    exact refusal_resource hrefusal
  next => cases h

theorem stopsAt_checkRendered (rendered : Nat) (phase : ExecutionPhase) :
    StopsAt .singleStringBytes (Charge.checkRendered rendered phase) := by
  refine stopsAt_bind (stopsNowhere_gets _) fun limit => ?_
  intro s e h
  split at h
  · revert h
    refine stopsAt_bind stopsNowhere_checkCancel (fun _ => ?_) s e
    intro _ e h
    cases h
    rfl
  · cases h

theorem stopsAt_checkCollectionSize (size : Nat) :
    StopsAt .collectionElements (ChargePoint.checkCollectionSize size) := by
  refine stopsAt_bind (stopsNowhere_gets _) fun limit => ?_
  intro s e h
  split at h <;> cases h
  rfl

theorem stopsAt_onHeap {f : AllocationLedger → Except ControlStop AllocationLedger}
    (hf : ∀ h e, f h = .error (.budgetExceeded e) → e.resource = .heapBytes) :
    StopsAt .heapBytes (Charge.onHeap f) := by
  intro s e h
  rcases hrun : f s.heap with stop | heap
  · rw [onHeap_error hrun] at h
    cases h
    exact hf _ _ hrun
  · rw [onHeap_ok hrun] at h
    cases h

theorem stopsAt_chargeHeap (bytes : Nat) (phase : ExecutionPhase) :
    StopsAt .heapBytes (Charge.chargeHeap bytes phase) := by
  refine stopsAt_bind stopsNowhere_checkCancel fun _ => ?_
  refine stopsAt_bind stopsNowhere_checkDeadline fun _ => stopsAt_onHeap fun h e he => ?_
  unfold AllocationLedger.charge at he
  split at he
  · split at he <;> cases he
    rfl
  · cases he
    rfl

theorem stopsAt_newTracked (bytes : Nat) (phase : ExecutionPhase) :
    StopsAt .heapBytes (Charge.newTracked bytes phase) := by
  refine stopsAt_andThen (stopsAt_chargeHeap bytes phase) fun s e h => ?_
  unfold Charge.allocateHeapId at h
  rcases hid : s.heap.allocateId with stop | heap
  · rw [onHeap_error hid] at h
    unfold AllocationLedger.allocateId at hid
    split at hid <;> cases hid
    cases h
  · rw [onHeap_ok hid] at h
    cases h

theorem stopsAt_retrack (oldBytes newBytes : Nat) (phase : ExecutionPhase) :
    StopsAt .heapBytes (Charge.retrack oldBytes newBytes phase) := by
  unfold Charge.retrack
  split
  · exact stopsAt_chargeHeap _ _
  · split <;> exact fun _ _ h => by cases h

/-- Where the raw conversion is used, it is known which limit was met. -/
theorem raw_resource {point : ChargePoint} (hraw : point.conversion = .raw) (held : List Nat) :
    StopsAt (rawResource point) (point.ask held) := by
  cases point with
  | detach bytes => exact stopsAt_newTracked bytes _
  | adopt oldBytes newBytes => exact stopsAt_retrack oldBytes newBytes _
  | builtinFuel => exact stopsAt_chargeFuel 1 _
  | builtinRendered bytes => exact stopsAt_checkRendered bytes _
  | collectionSize size => exact stopsAt_checkCollectionSize size
  | resize index newBytes =>
    simp only [ChargePoint.ask]
    split
    · exact stopsAt_retrack _ newBytes _
    · exact fun _ _ h => by cases h
  | _ => cases hraw

/-! ## Errors -/

/-- The resource that is guessed from the kind of a budget stop's error. -/
def guessed : BudgetResource → BudgetResource
  | .fuel => .fuel
  | .collectionElements => .collectionElements
  | .heapBytes => .heapBytes
  | .singleStringBytes | .stringAllocations | .stringBytes => .stringBytes
  | .singleSourceBytes | .sourceCount | .sourceBytes | .importCount | .importBytes => .sourceBytes
  | _ => .inputCalls

/-- An error that comes from a stop. -/
def ComesFrom (error : TsumugiError) (stop : ControlStop) : Prop :=
  ∃ line, error.kind = (stop.toError line).kind

theorem terminal_of_budget {error : TsumugiError} {e : BudgetExceeded}
    (h : ComesFrom error (.budgetExceeded e)) (pendingExit : Option Nat) (usage : BudgetUsage)
    (last : Option BudgetResource) :
    ∃ shown, terminalFromRunError pendingExit usage error = .budgetExceeded shown usage ∧
      terminalOutcomeFrom (.budgetExceeded shown usage) last =
        .budgetExceeded (last.getD (guessed e.resource)) := by
  obtain ⟨line, hkind⟩ := h
  obtain ⟨kind, hk, hguess, hbudget⟩ : ∃ kind, error.kind = some kind ∧
      budgetResourceFromErrorKind kind = some (guessed e.resource) ∧
      ErrorKind.isBudget (some kind) = true := by
    rw [hkind]
    obtain ⟨resource, limit, used, reserved, requested, unit, phase⟩ := e
    cases resource <;> exact ⟨_, rfl, rfl, rfl⟩
  refine ⟨executionErrorFrom error, ?_, ?_⟩
  · unfold terminalFromRunError
    rw [hk]
    cases kind <;> first | rfl | cases hbudget
  · have hcode : (executionErrorFrom error).code = kind := by
      cases error with
      | parse => cases hk
      | runtime => exact Option.some.inj hk
    simp only [terminalOutcomeFrom, hcode, hguess]
    cases last <;> rfl

theorem terminal_of_language {error : TsumugiError} (h : ErrorKind.isBudget error.kind = false)
    (pendingExit : Option Nat) (usage : BudgetUsage) (last : Option BudgetResource)
    (resource : BudgetResource) :
    terminalOutcomeFrom (terminalFromRunError pendingExit usage error) last ≠
      .budgetExceeded resource := by
  unfold terminalFromRunError
  rcases hk : error.kind with _ | kind
  · simp [terminalOutcomeFrom]
  · rw [hk] at h
    cases kind <;> first | (simp [terminalOutcomeFrom]; done) | cases h

theorem language_of_stop {error : TsumugiError} {stop : ControlStop} (h : ComesFrom error stop)
    (hstop : ∀ e, stop ≠ .budgetExceeded e) : ErrorKind.isBudget error.kind = false := by
  obtain ⟨line, hkind⟩ := h
  rw [hkind]
  match stop with
  | .cancelled | .deadlineExceeded .. => rfl
  | .internalFailure .allocationIdExhausted => rfl
  | .internalFailure .cooperativeAdapterYieldInSyncContext => rfl
  | .budgetExceeded e => exact absurd rfl (hstop e)

/-! ## The slot -/

/-- What the slot holds of a stop on its way out. -/
structure Reports (u : Unwinding) (last : Option BudgetResource) : Prop where
  error : ComesFrom u.error u.stop
  raw : u.isRaw = true → last = none ∧ ∀ point e, u.point = some point →
    u.stop = .budgetExceeded e → e.resource = rawResource point
  noting : u.isRaw = false → ∀ e, u.stop = .budgetExceeded e → last = some e.resource

/-- The client of a run that has not ended. -/
structure Honest (c : Client P) : Prop where
  installed : c.installed = true
  uncommitted : c.committed = false
  calm : c.unwinding = none → c.lastBudgetResource = none
  stopped : ∀ u, c.unwinding = some u → Reports u c.lastBudgetResource

/-- All that `Honest` sees. -/
def sameSlot (c c' : Client P) : Prop :=
  c'.installed = c.installed ∧ c'.committed = c.committed ∧
    c'.lastBudgetResource = c.lastBudgetResource ∧ c'.unwinding = c.unwinding

theorem Honest.congr {c c' : Client P} (h : Honest c) (hs : sameSlot c c') : Honest c' := by
  obtain ⟨hinstalled, hcommitted, hlast, hunwinding⟩ := hs
  refine ⟨hinstalled.trans h.installed, hcommitted.trans h.uncommitted, fun hnone => ?_,
    fun u hu => ?_⟩
  · rw [hlast]
    exact h.calm (hunwinding ▸ hnone)
  · rw [hlast]
    exact h.stopped u (hunwinding ▸ hu)

theorem sameSlot_release (c : Client P) (release : Release) : sameSlot c (c.release release) := by
  cases release with
  | drop index =>
    simp only [Client.release]
    split <;> exact ⟨rfl, rfl, rfl, rfl⟩
  | frame =>
    simp only [Client.release]
    split <;> exact ⟨rfl, rfl, rfl, rfl⟩

theorem sameSlot_releases (releases : List Release) (c : Client P) :
    sameSlot c (releases.foldl Client.release c) := by
  induction releases generalizing c with
  | nil => exact ⟨rfl, rfl, rfl, rfl⟩
  | cons release rest ih =>
    obtain ⟨h₁, h₂, h₃, h₄⟩ := ih (c.release release)
    obtain ⟨h₁', h₂', h₃', h₄'⟩ := sameSlot_release c release
    exact ⟨h₁.trans h₁', h₂.trans h₂', h₃.trans h₃', h₄.trans h₄'⟩

theorem sameSlot_hold (c : Client P) (point : ChargePoint) : sameSlot c (c.hold point) := by
  cases point <;> exact ⟨rfl, rfl, rfl, rfl⟩

variable (prog : Program P)

/-- A conversion from a client that is calm. -/
theorem convert_reports {c : Client P} (h : Honest c) (hcalm : c.unwinding = none)
    (point : Option ChargePoint) (stop : ControlStop) (line : Nat) (conversion : Conversion)
    (hpoint : ∀ q, point = some q → q.conversion = conversion)
    (hnone : point = none → conversion = .noting)
    (hraw : conversion = .raw → ∀ q e, point = some q → stop = .budgetExceeded e →
      e.resource = rawResource q) :
    (c.convert prog stop line conversion).2.installed = true ∧
      (c.convert prog stop line conversion).2.committed = false ∧
      (c.convert prog stop line conversion).2.unwinding = none ∧
      Reports ⟨point, stop, (c.convert prog stop line conversion).1⟩
        (c.convert prog stop line conversion).2.lastBudgetResource := by
  have hlast := h.calm hcalm
  cases conversion with
  | raw =>
    refine ⟨h.installed, h.uncommitted, hcalm, ⟨line, rfl⟩, fun _ => ⟨hlast, hraw rfl⟩, fun hno => ?_⟩
    cases point with
    | none => cases hnone rfl
    | some q => simp [Unwinding.isRaw, hpoint q rfl] at hno
  | noting =>
    have hno : Unwinding.isRaw ⟨point, stop, (c.convert prog stop line .noting).1⟩ = false := by
      cases point with
      | none => rfl
      | some q => simp [Unwinding.isRaw, hpoint q rfl]
    have hkind : ComesFrom (c.convert prog stop line .noting).1 stop :=
      ⟨line, TsumugiError.kind_withTrace _ _⟩
    have hsame : (c.convert prog stop line .noting).2.installed = c.installed ∧
        (c.convert prog stop line .noting).2.committed = c.committed ∧
        (c.convert prog stop line .noting).2.unwinding = c.unwinding := by
      cases stop <;> exact ⟨rfl, rfl, rfl⟩
    refine ⟨hsame.1.trans h.installed, hsame.2.1.trans h.uncommitted, hsame.2.2.trans hcalm, hkind,
      fun hyes => ?_, fun _ e he => ?_⟩
    · rw [hno] at hyes
      cases hyes
    · obtain rfl : stop = .budgetExceeded e := he
      rfl

/-- A refused request, from a client that is calm. -/
theorem honest_refuse {c : Client P} (h : Honest c) (hcalm : c.unwinding = none)
    {point : ChargePoint} {stop : ControlStop} {line : Nat}
    (hraw : point.conversion = .raw → ∀ e, stop = .budgetExceeded e →
      e.resource = rawResource point) : Honest (c.refuse prog point stop line) := by
  obtain ⟨hinstalled, hcommitted, hunwinding, hreports⟩ := convert_reports prog h hcalm (some point)
    stop line point.conversion (by simp) (by simp) fun hconv q e hq => by
      cases hq
      exact hraw hconv e
  simp only [Client.refuse]
  split
  · obtain ⟨h₁, h₂, h₃, -⟩ := sameSlot_releases
      (prog.unwind (c.convert prog stop line point.conversion).2.program).1
      (c.convert prog stop line point.conversion).2
    refine ⟨h₁.trans hinstalled, h₂.trans hcommitted, fun hnone => (by cases hnone), fun u hu => ?_⟩
    cases hu
    exact h₃ ▸ hreports
  next hcatchable =>
    -- a budget stop cannot be caught, so nothing was put aside
    refine ⟨hinstalled, hcommitted, fun _ => ?_, fun u hu => ?_⟩
    · have hstop : ∀ e, stop ≠ .budgetExceeded e := by
        rintro e rfl
        obtain ⟨line', hkind⟩ := hreports.error
        refine hcatchable ?_
        rw [hkind]
        exact ControlStop.isUncatchable_toError (by simp) line'
      have hlast := h.calm hcalm
      cases hconv : point.conversion with
      | raw => exact hlast
      | noting =>
        cases stop with
        | budgetExceeded e => exact absurd rfl (hstop e)
        | _ => exact hlast
    · have hsome := hunwinding.symm.trans hu
      cases hsome

theorem honest_charge {c : Client P} (h : Honest c) (hcalm : c.unwinding = none)
    (point : ChargePoint) (line : Nat) : Honest (c.charge prog point line) := by
  have hcase := charge_cases prog c point line
  generalize c.charge prog point line = c' at hcase ⊢
  cases hcase with
  | @granted ledger hask =>
    exact (h.congr ⟨rfl, rfl, rfl, rfl⟩ : Honest { c with ledger }).congr (sameSlot_hold _ point)
  | @refused ledger stop hask =>
    have hc : Honest { c with ledger } := h.congr ⟨rfl, rfl, rfl, rfl⟩
    refine honest_refuse prog hc hcalm fun hraw e he => ?_
    have hstops := raw_resource hraw c.held c.ledger e
    rw [hask] at hstops
    exact hstops (by rw [he])

end TruthLemmas

open TruthLemmas in
/-- Every action of a run that has not ended keeps the client honest. -/
theorem honest_invariant (prog : Program P) (config : BudgetConfig) (interrupts : Interrupts) :
    Invariant (ledgerCore prog config interrupts) Client.view (fun _ c => Honest c) where
  cancel _ := rfl
  deadline _ := rfl
  exit _ := rfl
  clear _ := rfl
  usage h := congrArg (·.ledger.usage) h
  congr h hview := h.congr ⟨(congrArg Client.installed hview).symm,
    (congrArg Client.committed hview).symm, (congrArg Client.lastBudgetResource hview).symm,
    (congrArg Client.unwinding hview).symm⟩
  startSlice _ h := h.congr ⟨rfl, rfl, rfl, rfl⟩
  note := by
    intro d d' c c' n h hnext _
    have hcase := next_cases prog c
    rw [show c.next prog = (.note n, c') from hnext] at hcase
    generalize haction : Action.note n = action at hcase
    cases hcase with
    | taken => exact h.congr ⟨rfl, rfl, rfl, rfl⟩
    | failing => cases haction
    | charged point line program hnoted hcalm =>
      refine honest_charge prog ?_ ?_ point line
      · exact h.congr ⟨rfl, rfl, rfl, rfl⟩
      · exact hcalm
    | released release program =>
      exact (h.congr ⟨rfl, rfl, rfl, rfl⟩ : Honest { c with program }).congr
        (sameSlot_release _ release)
    | hosted call program => exact h.congr ⟨rfl, rfl, rfl, rfl⟩
    | affected program => exact h.congr ⟨rfl, rfl, rfl, rfl⟩
    | idled program hnoted hcalm hne => exact absurd haction.symm (hne n)
  step := by
    intro d c c' action h hnext hne
    have hcase := next_cases prog c
    rw [show c.next prog = (action, c') from hnext] at hcase
    cases hcase with
    | taken => exact absurd rfl (hne _)
    | failing => exact h
    | charged => exact absurd rfl (hne _)
    | released => exact absurd rfl (hne _)
    | hosted => exact absurd rfl (hne _)
    | affected => exact absurd rfl (hne _)
    | idled program => exact h.congr ⟨rfl, rfl, rfl, rfl⟩

namespace TruthLemmas

/-! ## The link phase -/

/-- No error is on its way out. -/
def Calm (c : Client P) : Prop := Honest c ∧ c.unwinding = none

/-- The error is on its way out. -/
def Failing (error : TsumugiError) (c : Client P) : Prop :=
  Honest c ∧ (∃ u, c.unwinding = some u ∧ u.error = error) ∧ error.kind ≠ some .processExit

/-- A part of the link phase stays calm, or fails with the error it shows. -/
def Shows (m : Proc (Client P) TsumugiError Unit) : Prop :=
  ∀ c, Calm c → (∀ t, m.run c = (.ok (), t) → Calm t) ∧
    ∀ error t, m.run c = (.error error, t) → Failing error t

theorem shows_bind {m : Proc (Client P) TsumugiError Unit}
    {f : Unit → Proc (Client P) TsumugiError Unit} (hm : Shows m) (hf : ∀ a, Shows (f a)) :
    Shows (m >>= f) := by
  intro c hc
  obtain ⟨hok, herror⟩ := hm c hc
  rcases hrun : m.run c with ⟨error | ⟨⟩, t⟩
  · rw [Proc.bind_run_error hrun]
    refine ⟨fun _ h => (by cases h), fun e t' h => ?_⟩
    cases h
    exact herror _ _ hrun
  · rw [Proc.bind_run_ok hrun]
    exact hf () t (hok t hrun)

theorem shows_modify {f : Client P → Client P} (hf : ∀ c, sameSlot c (f c)) :
    Shows (Proc.modify f) := by
  intro c hc
  refine ⟨fun t h => ?_, fun _ _ h => by cases h⟩
  cases h
  exact ⟨hc.1.congr (hf c), (hf c).2.2.2.trans hc.2⟩

variable (prog : Program P)

theorem no_exit (stop : ControlStop) (line : Nat) :
    (stop.toError line).kind ≠ some .processExit := by
  match stop with
  | .cancelled | .deadlineExceeded .. => exact nofun
  | .internalFailure .allocationIdExhausted => exact nofun
  | .internalFailure .cooperativeAdapterYieldInSyncContext => exact nofun
  | .budgetExceeded e =>
    obtain ⟨resource, limit, used, reserved, requested, unit, phase⟩ := e
    cases resource <;> exact nofun

theorem shows_asking (m : Charge Unit) (line : Nat) : Shows (Link.asking prog m line) := by
  intro c hc
  rw [asking_run]
  rcases hrun : m.run c.ledger with ⟨stop | ⟨⟩, ledger⟩
  · refine ⟨fun _ h => (by cases h), fun error t h => ?_⟩
    have hc' : Honest { c with ledger } := hc.1.congr ⟨rfl, rfl, rfl, rfl⟩
    obtain ⟨hinstalled, hcommitted, hunwinding, hreports⟩ := convert_reports prog hc' hc.2 none stop
      line .noting (by simp) (by simp) (by simp)
    cases h
    refine ⟨⟨hinstalled, hcommitted, fun h => (by cases h), fun u hu => ?_⟩, ⟨_, rfl, rfl⟩, ?_⟩
    · cases hu
      exact hreports
    · obtain ⟨line', hkind⟩ := hreports.error
      exact fun h => no_exit stop line' (hkind.symm.trans h)
  · refine ⟨fun t h => ?_, fun _ _ h => by cases h⟩
    cases h
    exact ⟨hc.1.congr ⟨rfl, rfl, rfl, rfl⟩, hc.2⟩

theorem shows_chargeModules (modules : List LoadedModule) :
    Shows (Link.chargeModules prog modules) := by
  induction modules with
  | nil => exact shows_modify (f := id) fun _ => ⟨rfl, rfl, rfl, rfl⟩
  | cons m rest ih =>
    refine shows_bind ?_ fun _ => ih
    refine shows_bind (shows_asking prog _ _) fun _ => ?_
    refine shows_bind (shows_asking prog _ _) fun _ => ?_
    exact shows_bind (shows_asking prog _ _) fun _ => shows_modify fun _ => ⟨rfl, rfl, rfl, rfl⟩

theorem shows_chargeToken (bytes : Nat) : Shows (Link.chargeToken prog bytes) :=
  shows_bind (shows_asking prog _ _) fun _ => shows_modify fun _ => ⟨rfl, rfl, rfl, rfl⟩

theorem shows_chargeBodies (bodies : List Nat) : Shows (Link.chargeBodies prog bodies) := by
  induction bodies with
  | nil => exact shows_modify (f := id) fun _ => ⟨rfl, rfl, rfl, rfl⟩
  | cons bytes rest ih => exact shows_bind (shows_chargeToken prog bytes) fun _ => ih

theorem shows_chargeLink (input : LinkInput) : Shows (Link.chargeLink prog input) := by
  refine shows_bind ?_ fun _ => shows_chargeBodies prog _
  refine shows_bind (shows_asking prog _ _) fun _ => ?_
  exact shows_bind (shows_chargeModules prog _) fun _ => shows_chargeToken prog _

/-- An error of a run, against the client that it leaves: a stop on its way out, or an error of
the program. -/
def Accounts (error : TsumugiError) (c : Client P) : Prop :=
  Honest c ∧ ((∃ u, c.unwinding = some u ∧ u.error = error) ∨
    c.unwinding = none ∧ ErrorKind.isBudget error.kind = false)

theorem sameSlot_forget (c : Client P) : sameSlot c (Link.forget c) := ⟨rfl, rfl, rfl, rfl⟩

theorem calm_install (config : BudgetConfig) (interrupts : Interrupts) (program : P) :
    Calm (Client.install config interrupts program) :=
  ⟨⟨rfl, rfl, fun _ => rfl, fun _ h => by cases h⟩, rfl⟩

/-- What the link phase answers. -/
theorem begin_shows {config : BudgetConfig} {interrupts : Interrupts} {program : P}
    {c' : Client P} {notes : List Note} {answer : BeginAnswer}
    (hbegin : Link.beginExecution prog (.install config interrupts program) =
      (notes, answer, c')) :
    (answer = .ok → Calm c') ∧
      ∀ error, answer = .fails error → Accounts error c' ∧ error.kind ≠ some .processExit := by
  have hcalm := calm_install config interrupts program
  generalize Client.install config interrupts program = c at hbegin hcalm
  have hcalm' : ∀ program', Calm { c with program := program' } := fun program' =>
    ⟨hcalm.1.congr ⟨rfl, rfl, rfl, rfl⟩, hcalm.2⟩
  simp only [Link.beginExecution] at hbegin
  rcases hlink : prog.link c.program with ⟨input | error | _, program'⟩ <;>
    simp only [hlink] at hbegin
  · obtain ⟨hok, herror⟩ := shows_chargeLink prog input _ (hcalm' program')
    rcases hrun : (Link.chargeLink prog input).run { c with program := program' }
      with ⟨error | ⟨⟩, t⟩ <;> simp only [hrun] at hbegin
    · cases hbegin
      obtain ⟨hhonest, hunwinding, hexit⟩ := herror _ _ hrun
      refine ⟨fun h => (by cases h), fun e he => ?_⟩
      cases he
      exact ⟨⟨hhonest.congr ⟨rfl, rfl, rfl, rfl⟩, .inl hunwinding⟩, hexit⟩
    · have ht := hok t hrun
      cases hdepth : input.depthError with
      | none =>
        simp only [hdepth] at hbegin
        cases hbegin
        exact ⟨fun _ => ⟨ht.1.congr ⟨rfl, rfl, rfl, rfl⟩, ht.2⟩, fun _ h => by cases h⟩
      | some error =>
        simp only [hdepth] at hbegin
        cases hbegin
        refine ⟨fun h => (by cases h), fun e he => ?_⟩
        cases he
        exact ⟨⟨ht.1.congr ⟨rfl, rfl, rfl, rfl⟩, .inr ⟨ht.2, error.not_budget⟩⟩, error.not_exit⟩
  · cases hbegin
    refine ⟨fun h => (by cases h), fun e he => ?_⟩
    cases he
    exact ⟨⟨hcalm.1.congr ⟨rfl, rfl, rfl, rfl⟩, .inr ⟨hcalm.2, error.not_budget⟩⟩, error.not_exit⟩
  · cases hbegin
    exact ⟨fun h => (by cases h), fun _ h => by cases h⟩

/-! ## Outcomes -/

/-- What an outcome shows of a budget stop, with any content of the slot. -/
inductive ShowsResource (outcome : ExecutionOutcome) (c : Client P) : Prop
  | budget (u : Unwinding) (e : BudgetExceeded) (shown : ExecutionError) (usage : BudgetUsage) :
      c.unwinding = some u → u.stop = .budgetExceeded e → Reports u c.lastBudgetResource →
      outcome = .budgetExceeded shown usage →
      (∀ last, terminalOutcomeFrom outcome last = .budgetExceeded (last.getD (guessed e.resource))) →
      ShowsResource outcome c
  | other : (∀ u e, c.unwinding = some u → u.stop ≠ .budgetExceeded e) →
      (∀ last resource, terminalOutcomeFrom outcome last ≠ .budgetExceeded resource) →
      ShowsResource outcome c

/-- An outcome, against the client that the driver leaves. -/
structure Matches (outcome : ExecutionOutcome) (c : Client P) : Prop where
  installed : c.installed = true
  committed : outcome.committed = c.committed
  resource : ShowsResource outcome c
  usage : outcome.usage = c.ledger.usage

theorem showsResource_of_accounts {error : TsumugiError} {c : Client P} (h : Accounts error c)
    (pendingExit : Option Nat) (usage : BudgetUsage) :
    ShowsResource (terminalFromRunError pendingExit usage error) c := by
  obtain ⟨hhonest, ⟨u, hu, rfl⟩ | ⟨hnone, hbudget⟩⟩ := h
  · have hreports := hhonest.stopped u hu
    by_cases hstop : ∃ e, u.stop = .budgetExceeded e
    · obtain ⟨e, he⟩ := hstop
      have hfrom : ComesFrom u.error (.budgetExceeded e) := he ▸ hreports.error
      obtain ⟨shown, houtcome, -⟩ := terminal_of_budget hfrom pendingExit usage none
      refine .budget u e shown usage hu he hreports houtcome fun last => ?_
      obtain ⟨shown', houtcome', hlast⟩ := terminal_of_budget hfrom pendingExit usage last
      rw [houtcome', hlast]
    · have hno : ∀ e, u.stop ≠ .budgetExceeded e := fun e he => hstop ⟨e, he⟩
      refine .other (fun u' e hu' => ?_) fun last resource =>
        terminal_of_language (language_of_stop hreports.error hno) pendingExit usage last resource
      rw [hu] at hu'
      cases hu'
      exact hno e
  · refine .other (fun u e hu => ?_) fun last resource =>
      terminal_of_language hbudget pendingExit usage last resource
    rw [hnone] at hu
    cases hu

theorem committed_of_error (pendingExit : Option Nat) (usage : BudgetUsage) (error : TsumugiError) :
    (terminalFromRunError pendingExit usage error).committed =
      (error.kind == some .processExit) := by
  unfold terminalFromRunError
  rcases error.kind with _ | kind
  · rfl
  · cases kind <;> rfl

variable {config : BudgetConfig} {interrupts : Interrupts}

/-- The error of a last step. -/
theorem accounts_of_last {d : Totals} {outcome : DriveOutcome} {c : Client P}
    (h : LastStep (ledgerCore prog config interrupts) (fun _ c => Honest c) d outcome c) :
    Honest c ∧ ((∀ error, outcome ≠ .fails error) → c.unwinding = none) ∧
      ∀ error, outcome = .fails error → Accounts error c := by
  have hhonest := LastStep.inv (honest_invariant prog config interrupts) h
  have hcases : ∀ {c c' : Client P} {action : Action}, Honest c' → c.next prog = (action, c') →
      (∀ n, action ≠ .note n) → ((∀ error, action ≠ .fails error) → c'.unwinding = none) ∧
        ∀ error, action = .fails error → Accounts error c' := by
    intro c c' action hc' hnext hne
    have hcase := next_cases prog c
    rw [hnext] at hcase
    cases hcase with
    | taken => exact absurd rfl (hne _)
    | failing hnoted hu =>
      refine ⟨fun h => absurd rfl (h _), fun error he => ?_⟩
      cases he
      exact ⟨hc', .inl ⟨_, hu, rfl⟩⟩
    | charged => exact absurd rfl (hne _)
    | released => exact absurd rfl (hne _)
    | hosted => exact absurd rfl (hne _)
    | affected => exact absurd rfl (hne _)
    | idled program hnoted hcalm hne' hbudget =>
      exact ⟨fun _ => hcalm, fun error he => ⟨hc', .inr ⟨hcalm, hbudget error he⟩⟩⟩
  refine ⟨hhonest, ?_⟩
  cases h with
  | yields _ hnext =>
    exact ⟨fun _ => (hcases hhonest hnext (by simp)).1 (by simp), fun _ h => by cases h⟩
  | boundary _ hnext =>
    exact ⟨fun _ => (hcases hhonest hnext (by simp)).1 (by simp), fun _ h => by cases h⟩
  | done result _ hnext =>
    exact ⟨fun _ => (hcases hhonest hnext (by simp)).1 (by simp), fun _ h => by cases h⟩
  | fails error _ hnext =>
    refine ⟨fun h => absurd rfl (h error), fun e he => ?_⟩
    cases he
    exact (hcases hhonest hnext (by simp)).2 _ rfl

/-- The end of a session writes the commit and nothing else that counts. -/
theorem finalize_slot (config : BudgetConfig) (interrupts : Interrupts) (c : Client P)
    (commit : Bool) :
    ((ledgerCore prog config interrupts).finalizeSession c commit).installed = c.installed ∧
      ((ledgerCore prog config interrupts).finalizeSession c commit).committed =
        (c.committed || commit) ∧
      ((ledgerCore prog config interrupts).finalizeSession c commit).lastBudgetResource =
        c.lastBudgetResource ∧
      ((ledgerCore prog config interrupts).finalizeSession c commit).unwinding = c.unwinding := by
  have hdrops : ∀ (drops : List Nat) (c : Client P),
      sameSlot c (drops.foldl (fun c index => c.release (.drop index)) c) := by
    intro drops
    induction drops with
    | nil => exact fun c => ⟨rfl, rfl, rfl, rfl⟩
    | cons index rest ih =>
      intro c
      obtain ⟨h₁, h₂, h₃, h₄⟩ := ih (c.release (.drop index))
      obtain ⟨h₁', h₂', h₃', h₄'⟩ := sameSlot_release c (.drop index)
      exact ⟨h₁.trans h₁', h₂.trans h₂', h₃.trans h₃', h₄.trans h₄'⟩
  obtain ⟨h₁, -, h₃, h₄⟩ := hdrops (prog.finalizeSession c.program commit).1 c
  exact ⟨h₁, rfl, h₃, h₄⟩

theorem ShowsResource.congr {outcome : ExecutionOutcome} {c c' : Client P}
    (h : ShowsResource outcome c) (hu : c'.unwinding = c.unwinding)
    (hlast : c'.lastBudgetResource = c.lastBudgetResource) : ShowsResource outcome c' := by
  cases h with
  | budget u e shown usage hsome hstop hreports houtcome hshown =>
    exact .budget u e shown usage (hu.trans hsome) hstop (by rw [hlast]; exact hreports) houtcome
      hshown
  | other hno hshown => exact .other (fun u e hsome => hno u e (hu.symm.trans hsome)) hshown

/-- A session that was finalized, against its outcome. -/
theorem matches_finalize {c : Client P} (hc : Honest c) (result : Except TsumugiError Unit)
    (commit : Bool) (pendingExit : Option Nat)
    (hcommit : ∀ usage, (outcomeOf pendingExit usage result).committed = commit)
    (hresource : ∀ usage, ShowsResource (outcomeOf pendingExit usage result) c) :
    Matches (outcomeOf pendingExit ((ledgerCore prog config interrupts).usage
      ((ledgerCore prog config interrupts).finalizeSession c commit)) result)
      ((ledgerCore prog config interrupts).finalizeSession c commit) := by
  obtain ⟨hinstalled, hcommitted, hlast, hunwinding⟩ :=
    finalize_slot prog config interrupts c commit
  refine ⟨hinstalled.trans hc.installed, ?_, (hresource _).congr hunwinding hlast,
    outcomeOf_usage _ _ _⟩
  rw [hcommit, hcommitted, hc.uncommitted, Bool.false_or]

theorem matches_of_finished {d : Totals} {result : Except TsumugiError Unit} {c : Client P}
    (h : Finished (ledgerCore prog config interrupts) (fun _ c => Honest c) d result c)
    (pendingExit : Option Nat) :
    Matches (outcomeOf pendingExit ((ledgerCore prog config interrupts).usage c) result) c := by
  cases h with
  | done result hlast =>
    obtain ⟨hc, hcalm, -⟩ := accounts_of_last prog hlast
    refine matches_finalize prog hc _ _ pendingExit (fun usage => ?_) fun usage => ?_
    · cases result <;> rfl
    · have hnone := hcalm (by simp)
      rcases hr : finalResult result with error | ⟨⟩
      · have hbudget : ErrorKind.isBudget error.kind = false := by
          cases result <;> simp only [finalResult, Except.error.injEq, reduceCtorEq] at hr <;>
            subst hr <;> rfl
        have haccounts : Accounts error _ := ⟨hc, .inr ⟨hnone, hbudget⟩⟩
        exact showsResource_of_accounts haccounts pendingExit usage
      · refine .other (fun u e hu => ?_) (by simp [outcomeOf, terminalOutcomeFrom])
        rw [hnone] at hu
        cases hu
  | fails error hlast =>
    obtain ⟨hc, -, haccounts⟩ := accounts_of_last prog hlast
    exact matches_finalize prog hc (.error error) _ pendingExit
      (fun usage => committed_of_error pendingExit usage error)
      fun usage => showsResource_of_accounts (haccounts error rfl) pendingExit usage
  | exhausted hlast =>
    obtain ⟨hc, hcalm, -⟩ := accounts_of_last prog hlast
    have haccounts : Accounts pollIndexError _ := ⟨hc, .inr ⟨hcalm (by simp), rfl⟩⟩
    exact matches_finalize prog hc (.error pollIndexError) _ pendingExit (fun usage => rfl)
      fun usage => showsResource_of_accounts haccounts pendingExit usage

theorem Matches.congr {outcome : ExecutionOutcome} {c c' : Client P} (h : Matches outcome c)
    (hview : c'.view = c.view) : Matches outcome c' := by
  have hinstalled : c'.view.installed = c.view.installed := by rw [hview]
  have hcommitted : c'.view.committed = c.view.committed := by rw [hview]
  have hunwinding : c'.view.unwinding = c.view.unwinding := by rw [hview]
  have hlast : c'.view.lastBudgetResource = c.view.lastBudgetResource := by rw [hview]
  have hledger : c'.view.ledger = c.view.ledger := by rw [hview]
  refine ⟨hinstalled.trans h.installed, h.committed.trans hcommitted.symm,
    h.resource.congr hunwinding hlast, ?_⟩
  rw [h.usage, ← show c'.ledger = c.ledger from hledger]

/-- An outcome that the driver returns matches the client it leaves. -/
theorem matches_of_driven {c₀ : Client P} {st : RunState (Client P) S} {outcome : ExecutionOutcome}
    (h : Driven (ledgerCore prog config interrupts) Client.view (fun _ c => Honest c) c₀ st
      outcome) : Matches outcome st.core := by
  cases h with
  | cancelled hinstall hview htotals =>
    obtain ⟨-, rfl⟩ := Prod.mk.inj hinstall
    refine Matches.congr ⟨rfl, rfl, .other (fun u e hu => ?_) ?_, rfl⟩ hview
    · cases hu
    · simp [terminalOutcomeFrom]
  | refused error pendingExit hinstall hbegin hview htotals =>
    obtain ⟨-, rfl⟩ := Prod.mk.inj hinstall
    obtain ⟨haccounts, hexit⟩ := (begin_shows prog hbegin).2 error rfl
    refine Matches.congr ⟨haccounts.1.installed, ?_, showsResource_of_accounts haccounts _ _,
      terminalFromRunError_usage _ _ _⟩ hview
    rw [committed_of_error, haccounts.1.uncommitted]
    simpa using hexit
  | finished result pendingExit hinstall hbegin hfinished hview =>
    exact (matches_of_finished prog hfinished pendingExit).congr hview

/-- The resource that is shown is the one that ran out, except after a stop in a string
builtin. -/
theorem resource_iff {outcome : ExecutionOutcome} {c : Client P} (h : ShowsResource outcome c)
    {exceeded : Option BudgetResource}
    (hexceeded : ∀ shown usage, outcome = .budgetExceeded shown usage →
      exceeded = c.lastBudgetResource) :
    (∀ resource, terminalOutcomeFrom outcome exceeded = .budgetExceeded resource →
      ∃ u e, c.unwinding = some u ∧ u.stop = .budgetExceeded e ∧ e.resource = resource) ↔
      ¬ StoppedInBuiltin c := by
  cases h with
  | other hno hshown =>
    refine ⟨fun _ hbuiltin => ?_, fun _ resource h => absurd h (hshown _ _)⟩
    obtain ⟨u, bytes, e, hu, -, hstop⟩ := hbuiltin
    exact hno u e hu hstop
  | budget u e shown usage hu hstop hreports houtcome hshown =>
    rw [hshown, hexceeded shown usage houtcome]
    have hbuiltin : StoppedInBuiltin c ↔ ∃ bytes, u.point = some (.builtinRendered bytes) := by
      refine ⟨?_, fun ⟨bytes, hpoint⟩ => ⟨u, bytes, e, hu, hpoint, hstop⟩⟩
      rintro ⟨u', bytes, e', hu', hpoint, -⟩
      rw [hu] at hu'
      cases hu'
      exact ⟨bytes, hpoint⟩
    have htruth : (∀ resource, TerminalOutcome.budgetExceeded
        (c.lastBudgetResource.getD (guessed e.resource)) = .budgetExceeded resource →
          ∃ u e, c.unwinding = some u ∧ u.stop = .budgetExceeded e ∧ e.resource = resource) ↔
        e.resource = c.lastBudgetResource.getD (guessed e.resource) := by
      refine ⟨fun h => ?_, fun h resource hr => ?_⟩
      · obtain ⟨u', e', hu', hstop', hr⟩ := h _ rfl
        rw [hu] at hu'
        cases hu'
        rw [hstop] at hstop'
        cases hstop'
        exact hr
      · cases hr
        exact ⟨u, e, hu, hstop, h⟩
    rw [htruth, hbuiltin]
    cases hraw : u.isRaw with
    | false =>
      rw [hreports.noting hraw e hstop]
      refine ⟨fun _ ⟨bytes, hpoint⟩ => ?_, fun _ => rfl⟩
      simp [Unwinding.isRaw, hpoint, ChargePoint.conversion] at hraw
    | true =>
      obtain ⟨hlast, hresource⟩ := hreports.raw hraw
      rw [hlast, Option.getD_none]
      rcases hpoint : u.point with _ | point
      · simp [Unwinding.isRaw, hpoint] at hraw
      · rw [hresource point e hpoint hstop]
        cases point <;> simp [rawResource, guessed]

/-- What the Terminal step takes from the core, and what it leaves. -/
theorem taken_slot {outcome : ExecutionOutcome} {st : RunState (Client P) S} {c : Client P}
    {exceeded : Option BudgetResource}
    (h : (exceededResource (ledgerCore prog config interrupts) outcome).run st =
      (.ok exceeded, { st with core := c })) :
    (∀ shown usage, outcome = .budgetExceeded shown usage →
      exceeded = st.core.lastBudgetResource) ∧
      { c.view with lastBudgetResource := none } =
        { st.core.view with lastBudgetResource := none } := by
  have hcore := congrArg (fun p => p.2.core) h
  cases outcome with
  | budgetExceeded shown usage =>
    obtain rfl : _ = c := hcore
    exact ⟨fun _ _ _ => (Except.ok.inj (congrArg Prod.fst h)).symm, rfl⟩
  | _ =>
    obtain rfl : st.core = c := hcore
    exact ⟨fun _ _ h => (by cases h), rfl⟩

theorem same_of_view {c c' : Client P} (h : { c'.view with lastBudgetResource := none } =
      { c.view with lastBudgetResource := none }) :
    c'.installed = c.installed ∧ c'.committed = c.committed ∧ c'.effects = c.effects ∧
      c'.unwinding = c.unwinding ∧ c'.ledger = c.ledger := by
  simp only [Client.view, Client.mk.injEq] at h
  exact ⟨h.2.2.1, h.2.2.2.2.2.2.2.2.1, h.2.2.2.2.2.2.2.2.2, h.2.2.2.2.2.2.2.1, h.2.1⟩

end TruthLemmas

open TruthLemmas in
/-- In a run whose driver does not panic, the Terminal is true of the run exactly when no
effect outlives a run that did not commit, and the run was not stopped by the limit of a
single string inside a string builtin. -/
theorem tells_truth_iff (prog : Program P) (config : BudgetConfig) (interrupts : Interrupts)
    (rq : AuditedRequest) (sink : AuditSink S) (reentered : Bool) (fuel : Nat) (program : P)
    (ledger : BudgetLedger) (s : S) (r : Recorder) (poisoned running : Bool)
    {result : Except Stop AuditedOutcome} {t : RunState (Client P) S}
    (hrun : (runAudited rq (ledgerCore prog config interrupts) sink reentered fuel).run
      (.initial rq (.initial program ledger) s r poisoned running) = (result, t))
    (hquiet : ∀ site ∈ panicsOf t.log, site.inDriver = false)
    {env : AuditEnvelope} (henv : env ∈ appendedOf t.log) {outcome : TerminalOutcome}
    {error : Option AuditErrorPayload} {usage : BudgetUsage} {hash : Option (List UInt8)}
    {committed effects : Bool}
    (hevent : env.event = .terminal outcome error usage hash committed effects) :
    TellsTruth outcome usage committed effects t.core ↔
      ¬ EffectsRemain t.core ∧ ¬ StoppedInBuiltin t.core := by
  have hI := honest_invariant prog config interrupts
  obtain ⟨executionId, hid, hcomes⟩ := terminal_comes rq (ledgerCore prog config interrupts) sink
    reentered fuel hI.cancel hI.deadline rfl hrun hquiet henv (by rw [hevent]; rfl)
  rw [hevent] at hcomes
  generalize hterm : AuditEvent.terminal outcome error usage hash committed effects = event
    at hcomes
  cases hcomes with
  | emergency hno hcore hdelta =>
    cases hterm
    rw [hcore]
    refine ⟨fun _ => ⟨fun h => ?_, fun ⟨u, bytes, e, hu, _⟩ => ?_⟩, fun _ => ?_⟩
    · cases h.1
    · cases hu
    · exact ⟨rfl, fun h => (by cases h), fun resource h => (by cases h), rfl⟩
  | @delivered u v c outcome' exceeded hyes hstart hdriven hexceeded hview hdelta =>
    cases hterm
    have hdrive := (triple_runAuditedDriver hI rq executionId sink fuel _
      (fun hinstall hbegin _ => by
        obtain ⟨-, rfl⟩ := Prod.mk.inj hinstall
        exact ((begin_shows prog hbegin).1 rfl).1) _ hstart _ _ hdriven outcome' rfl).1
    have hmatches := matches_of_driven prog hdrive
    obtain ⟨hslot, hview'⟩ := taken_slot prog hexceeded
    obtain ⟨hinstalled, hcommitted, heffects, hunwinding, hledger⟩ := same_of_view
      ((congrArg (fun c : Client Unit => { c with lastBudgetResource := none }) hview).trans hview')
    have hbuiltin : StoppedInBuiltin t.core ↔ StoppedInBuiltin v.core := by
      simp only [StoppedInBuiltin, hunwinding]
    have hresource := resource_iff hmatches.resource hslot
    rw [hbuiltin, ← hresource]
    refine ⟨fun h => ⟨fun hremain => ?_, fun resource hr => ?_⟩, fun h => ⟨?_, ?_, ?_, ?_⟩⟩
    · exact absurd (h.effects hremain.1 hremain.2) (by simp)
    · obtain ⟨u, e, hu, he⟩ := h.resource resource hr
      exact ⟨u, e, hunwinding ▸ hu, he⟩
    · rw [hcommitted]
      exact hmatches.committed
    · exact fun heff hcom => absurd ⟨heff, hcom⟩ h.1
    · intro resource hr
      obtain ⟨u, e, hu, he⟩ := h.2 resource hr
      exact ⟨u, e, hunwinding.trans hu, he⟩
    · rw [hinstalled, hmatches.installed, if_pos rfl, hledger]
      exact hmatches.usage

/-! ## Concrete runs -/

/-- The Terminal of a program that runs to its end is true. -/
theorem completed_tells_truth :
    ∃ env ∈ appendedOf (scriptedRun false ampleConfig [] 5).2.log,
      ∃ outcome error usage hash committed effects,
        env.event = .terminal outcome error usage hash committed effects ∧
        TellsTruth outcome usage committed effects (scriptedRun false ampleConfig [] 5).2.core := by
  have hlast : (appendedOf (scriptedRun false ampleConfig [] 5).2.log).getLast?.map (·.event) =
      some (.terminal .completed none rootUsage (some []) true false) := by cbv
  have hpanics : panicsOf (scriptedRun false ampleConfig [] 5).2.log = [] := by cbv
  have heffects : (scriptedRun false ampleConfig [] 5).2.core.effects = false := by cbv
  have hunwinding : (scriptedRun false ampleConfig [] 5).2.core.unwinding.isNone = true := by cbv
  obtain ⟨env, henv, hevent⟩ := Option.map_eq_some_iff.mp hlast
  rcases hrun : scriptedRun false ampleConfig [] 5 with ⟨result, t⟩
  rw [hrun] at henv hpanics heffects hunwinding
  have hmem := List.mem_of_getLast? henv
  refine ⟨env, hmem, _, _, _, _, _, _, hevent, (tells_truth_iff (scripted false) ampleConfig
    undisturbed (requestOf budget100KiB) syncSink false 5 [] _ () {} false false hrun ?_ hmem
    hevent).mpr ⟨fun h => ?_, ?_⟩⟩
  · simp [hpanics]
  · exact absurd (heffects.symm.trans h.1) (by simp)
  · rintro ⟨u, bytes, e, hu, -⟩
    simp [hu] at hunwinding

/-- Something is printed, and then the program fails. -/
def printThenFail : List Step :=
  [.effect, .fails ⟨.runtimeWithKind 1 .zeroDivision "0 で割ることはできません", rfl⟩]

/-- `to_str` of a value that takes five bytes where a string may have four. -/
def renderPastLimit : List Step := [.charge (.builtinRendered 5) 1]

/-- Two Terminals that are not true: one denies the effect of a run that did not commit, the
other names `StringBytes` for the limit of a single string. -/
theorem terminal_misleads :
    (∀ outcome usage committed effects error hash,
      (appendedOf (scriptedRun false ampleConfig printThenFail 9).2.log).getLast?.map (·.event) =
          some (.terminal outcome error usage hash committed effects) →
        ¬ TellsTruth outcome usage committed effects
          (scriptedRun false ampleConfig printThenFail 9).2.core) ∧
    (appendedOf (scriptedRun false { ampleConfig with maxSingleStringBytes := 4 } renderPastLimit
      9).2.log).getLast?.map (fun env => match env.event with
        | .terminal outcome .. => some outcome
        | _ => none) = some (some (.budgetExceeded .stringBytes)) ∧
    (scriptedRun false { ampleConfig with maxSingleStringBytes := 4 } renderPastLimit
      9).2.core.unwinding.map (·.stop) =
        some (.budgetExceeded ⟨.singleStringBytes, 4, 0, 0, 5, .bytes, .run⟩) := by
  refine ⟨fun outcome usage committed effects error hash hlast htruth => ?_, by cbv, by cbv⟩
  have heffects : (scriptedRun false ampleConfig printThenFail 9).2.core.effects = true := by cbv
  have hcommitted : (scriptedRun false ampleConfig printThenFail 9).2.core.committed = false := by
    cbv
  have hremain : (appendedOf (scriptedRun false ampleConfig printThenFail
      9).2.log).getLast?.map (fun env => match env.event with
        | .terminal _ _ _ _ _ effects => some effects
        | _ => none) = some (some false) := by cbv
  obtain ⟨env, henv, hevent⟩ := Option.map_eq_some_iff.mp hlast
  rw [henv, Option.map_some, hevent] at hremain
  have := htruth.effects heffects hcommitted
  simp_all

end Tsumugi.Audit
