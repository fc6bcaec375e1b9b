import Tsumugi.Budget.Conservation
import Tsumugi.Budget.StopOrder
import Tsumugi.Capability.Projection

/-!
# What `print` charges and writes (`builtin.rs`, `vm.rs`)

`print` joins its rendered arguments, charges the bytes of the joined text, and hands them to
the output adapter with a line terminator. A run of either backend is any order of charges and
prints over one ledger.

Results:
1. `print_cases`: a print is refused, denied, or writes one byte more than it has charged.
2. `undercharged_by_one`: the bytes written exceed the bytes charged by at most one for each
   write.
3. `output_charged_iff`: output is charged in full exactly in the runs that write nothing.
-/

namespace Tsumugi.Capability

open Budget Transition LedgerLemmas ConservationLemmas StopOrderLemmas

variable {σ : Type}

/-! ## Printing -/

/-- An `Output` adapter over the states of the host: `write_all`. -/
abbrev OutputAdapter (σ : Type) : Type := List UInt8 → σ → Except AdapterError Unit × σ

/-- What happened to a print, in order. -/
inductive OutputEvent
  | charged (bytes : Nat)
  | refused (stop : ControlStop)
  | wrote (bytes : List UInt8)

/-- What printing works on, with a log that nothing reads. -/
structure Printing (σ : Type) where
  ledger : BudgetLedger
  stdout : Option (OutputAdapter σ)
  host : σ
  log : List OutputEvent

/-- The adapter that also writes the log. -/
def OutputAdapter.logged (writeAll : OutputAdapter σ) : OutputAdapter (σ × List OutputEvent) :=
  fun bytes s ↦ ((writeAll bytes s.1).1, (writeAll bytes s.1).2, s.2 ++ [.wrote bytes])

/-- The charge of a payload and, if it is granted, `resolve_print`. -/
def chargeAndPrint (payload : String) (line : Nat) (st : Printing σ) :
    Except (ControlStop ⊕ TsumugiError) Unit × Printing σ :=
  match (Charge.chargeOutput payload.utf8ByteSize .run).run st.ledger with
  | (.error stop, ledger) =>
    (.error (.inl stop), { st with ledger, log := st.log ++ [.refused stop] })
  | (.ok (), ledger) =>
    let log := st.log ++ [.charged payload.utf8ByteSize]
    match resolvePrint (st.stdout.map OutputAdapter.logged) payload line (st.host, log) with
    | (result, host, log) => (result.mapError .inr, { st with ledger, host, log })

/-- `apply_print` of the tree backend; a refused charge carries the trace of the call stack. -/
def applyPrint (callStack : List TraceFrame) (parts : List String) (line : Nat)
    (st : Printing σ) : Except TsumugiError Value × Printing σ :=
  match chargeAndPrint (" ".intercalate parts) line st with
  | (.ok (), st) => (.ok .null, st)
  | (.error (.inl stop), st) => (.error ((stop.toError line).withTrace callStack), st)
  | (.error (.inr error), st) => (.error error, st)

/-- The end of `OpCode::Print`, after its arguments are rendered. -/
def opPrint (output : List String) (line : Nat) (st : Printing σ) :
    Except TsumugiError Unit × Printing σ :=
  match chargeAndPrint (" ".intercalate output) line st with
  | (.ok (), st) => (.ok (), st)
  | (.error (.inl stop), st) => (.error (stop.toError line), st)
  | (.error (.inr error), st) => (.error error, st)

/-! ## Runs -/

/-- An action of a run. -/
inductive PrintAction
  | charge (call : ChargeCall) (phase : ExecutionPhase)
  | print (backend : Audit.Backend) (callStack : List TraceFrame) (parts : List String)
      (line : Nat)

/-- `charge_output` is called by `print` only. -/
def isOutputCharge : ChargeCall → Bool
  | .output _ => true
  | _ => false

/-- A step of a run; what an action raises is handled elsewhere. -/
def Printing.step (st : Printing σ) : PrintAction → Option (Printing σ)
  | .charge call phase =>
    if isOutputCharge call then none
    else some { st with ledger := ((call.run phase).run st.ledger).2 }
  | .print .treeWalk callStack parts line => some (applyPrint callStack parts line st).2
  | .print .vmExperimental _ parts line => some (opPrint parts line st).2

/-- Runs begin with a fresh ledger. -/
def printing (σ : Type) : System (Printing σ) (PrintAction) where
  init st := st.log = [] ∧ ∃ config cancellation clock,
    st.ledger = .fresh config cancellation clock
  step := Printing.step

/-! ## The law and its condition -/

/-- The bytes that the adapter was given. -/
def written : List OutputEvent → Nat
  | [] => 0
  | .wrote bytes :: log => bytes.length + written log
  | _ :: log => written log

/-- How often the adapter was called. -/
def writes : List OutputEvent → Nat
  | [] => 0
  | .wrote _ :: log => 1 + writes log
  | _ :: log => writes log

/-- Output is charged before it is written: in total, and each write right before it and for
all its bytes. -/
structure OutputCharged (st : Printing σ) : Prop where
  written_le : written st.log ≤ st.ledger.committed.outputBytes
  committed_le : st.ledger.committed.outputBytes ≤ st.ledger.config.maxOutputBytes
  charged : ∀ before bytes after, st.log = before ++ .wrote bytes :: after →
    ∃ earlier n, before = earlier ++ [.charged n] ∧ bytes.length ≤ n

/-- A charge for output that does not pass: the token or the clock stops it, or a limit. -/
def BudgetLedger.RefusesOutput (l : BudgetLedger) (payloadBytes : Nat) : Prop :=
  l.Due ∨ ∃ q ∈ (ChargeCall.output payloadBytes).requests, l.reserveOne .run q ≠ none

/-- An action that does not reach the output adapter. -/
def Quiet (st : Printing σ) : PrintAction → Prop
  | .print _ _ parts _ =>
    st.stdout = none ∨
      BudgetLedger.RefusesOutput st.ledger (" ".intercalate parts).utf8ByteSize
  | .charge .. => True

namespace OutputLemmas

/-! ## One print -/

theorem chargeOutput_ok_iff (l : BudgetLedger) (payloadBytes : Nat) :
    ((Charge.chargeOutput payloadBytes .run).run l).1 = .ok () ↔
      ¬ BudgetLedger.RefusesOutput l payloadBytes := by
  unfold BudgetLedger.RefusesOutput
  set requests := (ChargeCall.output payloadBytes).requests with hrequests
  have hcharge : Charge.chargeOutput payloadBytes .run = Charge.chargeAll requests .run := rfl
  have hreserves := reserves_reserveAll requests .run l
  rw [hcharge, Charge.chargeAll]
  rcases hrun : (Charge.reserveAll requests .run).run l with ⟨stop | ⟨⟩, t⟩ <;>
    rw [hrun] at hreserves
  · rw [Proc.bind_run_error hrun]
    refine iff_of_false (by simp) (not_not.mpr ?_)
    by_contra hno
    obtain ⟨hdue, hnone⟩ := not_or.mp hno
    obtain ⟨u, hgranted⟩ := reserveAll_granted hdue
      (refusal_eq_none fun q hq ↦ by_contra fun h ↦ hnone ⟨q, hq, h⟩)
    rw [hrun] at hgranted
    cases hgranted
  · obtain ⟨u, hcommit⟩ := commitAll_run requests t
    rw [Proc.bind_run_ok hrun, hcommit]
    refine iff_of_true rfl (not_or.mpr ⟨fun hdue ↦ ?_, fun hrefused ↦ ?_⟩)
    · obtain ⟨stop, v, hstop⟩ := reserveAll_due hdue requests .run
      rw [hrun] at hstop
      cases hstop
    · obtain ⟨q, hq, hone⟩ := hrefused
      exact hone (refusal_none hreserves.1 q hq)

/-- What a charge for output does to the counter. -/
theorem chargeOutput_counts {l : BudgetLedger} (h : l.Within) (payloadBytes : Nat) :
    ((Charge.chargeOutput payloadBytes .run).run l).2.Within ∧
      ((Charge.chargeOutput payloadBytes .run).run l).2.committed.outputBytes =
        l.committed.outputBytes +
          if ((Charge.chargeOutput payloadBytes .run).run l).1 = .ok () then payloadBytes
          else 0 := by
  have hcharged := charges_run (.output payloadBytes) .run l h
  refine ⟨hcharged.within, ?_⟩
  have hcommitted := hcharged.committed .outputBytes
  rcases hrun : (Charge.chargeOutput payloadBytes .run).run l with ⟨stop | ⟨⟩, t⟩
  · rw [show (ChargeCall.output payloadBytes).run .run = Charge.chargeOutput payloadBytes .run
      from rfl, hrun] at hcommitted
    simpa [granted, BudgetCounters.of] using hcommitted
  · rw [show (ChargeCall.output payloadBytes).run .run = Charge.chargeOutput payloadBytes .run
      from rfl, hrun] at hcommitted
    simpa [granted, BudgetCounters.of, asked, ChargeCall.requests] using hcommitted

/-- No other charge counts for output. -/
theorem otherCharge_counts {l : BudgetLedger} (h : l.Within) {call : ChargeCall}
    (hcall : isOutputCharge call = false) (phase : ExecutionPhase) :
    ((call.run phase).run l).2.Within ∧
      ((call.run phase).run l).2.committed.outputBytes = l.committed.outputBytes := by
  have hcharged := charges_run call phase l h
  have hcommitted := hcharged.committed .outputBytes
  have hnone : granted ((call.run phase).run l).1 call.requests .outputBytes = 0 := by
    unfold granted
    split
    · cases call <;> simp_all [asked, ChargeCall.requests, isOutputCharge]
    · rfl
  rw [hnone] at hcommitted
  exact ⟨hcharged.within, hcommitted⟩

/-- What a print does: its charge is refused, or the output is denied, or the adapter gets one
byte more than was charged. -/
theorem print_cases (payload : String) (line : Nat) {st : Printing σ} (h : st.ledger.Within) :
    let st' := (chargeAndPrint payload line st).2
    st'.ledger.Within ∧
      ((BudgetLedger.RefusesOutput st.ledger payload.utf8ByteSize ∧
          st'.ledger.committed.outputBytes = st.ledger.committed.outputBytes ∧
          ∃ stop, st'.log = st.log ++ [.refused stop]) ∨
        (¬ BudgetLedger.RefusesOutput st.ledger payload.utf8ByteSize ∧
          st'.ledger.committed.outputBytes =
            st.ledger.committed.outputBytes + payload.utf8ByteSize ∧
          (st.stdout = none ∧ st'.log = st.log ++ [.charged payload.utf8ByteSize] ∨
            st.stdout.isSome ∧ ∃ bytes, bytes.length = payload.utf8ByteSize + 1 ∧
              st'.log = st.log ++ [.charged payload.utf8ByteSize] ++ [.wrote bytes]))) := by
  obtain ⟨hwithin, hcounts⟩ := chargeOutput_counts h payload.utf8ByteSize
  have hiff := chargeOutput_ok_iff st.ledger payload.utf8ByteSize
  unfold chargeAndPrint
  rcases hrun : (Charge.chargeOutput payload.utf8ByteSize .run).run st.ledger with
    ⟨stop | ⟨⟩, ledger⟩
  · rw [hrun] at hwithin hcounts hiff
    have hrefuses : BudgetLedger.RefusesOutput st.ledger payload.utf8ByteSize := by
      by_contra hno
      cases hiff.mpr hno
    exact ⟨hwithin, .inl ⟨hrefuses, by simpa using hcounts, stop, rfl⟩⟩
  · rw [hrun] at hwithin hcounts hiff
    have hpasses := hiff.mp rfl
    cases hstdout : st.stdout with
    | none => exact ⟨hwithin, .inr ⟨hpasses, by simpa using hcounts, .inl ⟨rfl, rfl⟩⟩⟩
    | some writeAll =>
      have hlength : (payload.toUTF8.data.toList ++ [10]).length = payload.utf8ByteSize + 1 := by
        rw [List.length_append]
        rfl
      rcases hwrite : (writeAll (payload.toUTF8.data.toList ++ [10]) st.host).1 with e | ⟨⟩
      · simp only [Option.map_some, resolvePrint, OutputAdapter.logged, hwrite]
        exact ⟨hwithin, .inr ⟨hpasses, by simpa using hcounts, .inr ⟨rfl, _, hlength, rfl⟩⟩⟩
      · simp only [Option.map_some, resolvePrint, OutputAdapter.logged, hwrite]
        exact ⟨hwithin, .inr ⟨hpasses, by simpa using hcounts, .inr ⟨rfl, _, hlength, rfl⟩⟩⟩

/-- Both backends leave what `chargeAndPrint` leaves. -/
theorem applyPrint_state (callStack : List TraceFrame) (parts : List String) (line : Nat)
    (st : Printing σ) :
    (applyPrint callStack parts line st).2 = (chargeAndPrint (" ".intercalate parts) line st).2 := by
  unfold applyPrint
  rcases chargeAndPrint (" ".intercalate parts) line st with ⟨(stop | error) | ⟨⟩, st'⟩ <;> rfl

theorem opPrint_state (output : List String) (line : Nat) (st : Printing σ) :
    (opPrint output line st).2 = (chargeAndPrint (" ".intercalate output) line st).2 := by
  unfold opPrint
  rcases chargeAndPrint (" ".intercalate output) line st with ⟨(stop | error) | ⟨⟩, st'⟩ <;> rfl

/-- A step is a charge or a print of one of the backends. -/
theorem step_cases {st st' : Printing σ} {action : PrintAction}
    (h : st.step action = some st') :
    (∃ call phase, action = .charge call phase ∧ isOutputCharge call = false ∧
      st' = { st with ledger := ((call.run phase).run st.ledger).2 }) ∨
    ∃ backend callStack parts line, action = .print backend callStack parts line ∧
      st' = (chargeAndPrint (" ".intercalate parts) line st).2 := by
  cases action with
  | charge call phase =>
    cases hcall : isOutputCharge call with
    | true => simp [Printing.step, hcall] at h
    | false =>
      simp only [Printing.step, hcall] at h
      exact .inl ⟨call, phase, rfl, hcall, (Option.some.inj h).symm⟩
  | print backend callStack parts line =>
    refine .inr ⟨backend, callStack, parts, line, rfl, ?_⟩
    cases backend with
    | treeWalk => exact (Option.some.inj h).symm.trans (applyPrint_state callStack parts line st)
    | vmExperimental => exact (Option.some.inj h).symm.trans (opPrint_state parts line st)

/-! ## Runs -/

theorem written_append (log log' : List OutputEvent) :
    written (log ++ log') = written log + written log' := by
  induction log with
  | nil => simp [written]
  | cons event log ih =>
    cases event <;> simp only [List.cons_append, written, ih]
    omega

theorem writes_append (log log' : List OutputEvent) :
    writes (log ++ log') = writes log + writes log' := by
  induction log with
  | nil => simp [writes]
  | cons event log ih =>
    cases event <;> simp only [List.cons_append, writes, ih]
    omega

/-- The bytes written exceed the bytes charged by at most one for each write. -/
structure Undercharged (st : Printing σ) : Prop where
  within : st.ledger.Within
  written_le : written st.log ≤ st.ledger.committed.outputBytes + writes st.log

theorem undercharged_step {st st' : Printing σ} {action : PrintAction} (h : Undercharged st)
    (hstep : st.step action = some st') : Undercharged st' := by
  obtain ⟨hwithin, hle⟩ := h
  obtain ⟨call, phase, -, hcall, rfl⟩ | ⟨backend, callStack, parts, line, -, rfl⟩ :=
    step_cases hstep
  · obtain ⟨hwithin', hcommitted⟩ := otherCharge_counts hwithin hcall phase
    exact ⟨hwithin', by rw [hcommitted]; exact hle⟩
  · obtain ⟨hwithin', ⟨-, hcommitted, stop, hlog⟩ | ⟨-, hcommitted, ⟨-, hlog⟩ |
      ⟨-, bytes, hlength, hlog⟩⟩⟩ := print_cases (" ".intercalate parts) line hwithin
    · refine ⟨hwithin', ?_⟩
      rw [hlog, hcommitted, written_append, writes_append]
      simpa [written, writes] using hle
    · refine ⟨hwithin', ?_⟩
      rw [hlog, hcommitted, written_append, writes_append]
      simp only [written, writes]
      omega
    · refine ⟨hwithin', ?_⟩
      rw [hlog, hcommitted, written_append, written_append, writes_append, writes_append]
      simp only [written, writes]
      omega

theorem undercharged_by_one {st : Printing σ} (h : Reach (printing σ) anyStep st) :
    Undercharged st := by
  refine Reach.invariant (P := Undercharged) ?_ ?_ h
  · rintro st ⟨hlog, config, cancellation, clock, hledger⟩
    refine ⟨hledger ▸ within_fresh config cancellation clock, ?_⟩
    rw [hlog]
    exact Nat.zero_le _
  · intro st action st' hst _ hstep
    exact undercharged_step hst hstep

/-- In a quiet run nothing is written. -/
theorem quiet_unwritten {st : Printing σ} (h : Reach (printing σ) Quiet st) :
    writes st.log = 0 := by
  induction h with
  | init hst =>
    rw [hst.1]
    rfl
  | @step st st' action hrun hquiet hstep ih =>
    have hwithin := (undercharged_by_one (hrun.mono fun _ _ _ ↦ trivial)).within
    obtain ⟨call, phase, -, -, rfl⟩ | ⟨backend, callStack, parts, line, rfl, rfl⟩ :=
      step_cases hstep
    · exact ih
    · obtain ⟨-, ⟨-, -, stop, hlog⟩ | ⟨hpasses, -, ⟨-, hlog⟩ | ⟨hsome, -⟩⟩⟩ :=
        print_cases (" ".intercalate parts) line hwithin
      · rw [hlog, writes_append, ih]
        rfl
      · rw [hlog, writes_append, ih]
        rfl
      · rcases hquiet with hnone | hrefuses
        · rw [hnone] at hsome
          cases hsome
        · exact absurd hrefuses hpasses

theorem mem_of_wrote {log before after : List OutputEvent} {bytes : List UInt8}
    (h : log = before ++ .wrote bytes :: after) : 0 < writes log := by
  rw [h, writes_append]
  simp only [writes]
  omega

end OutputLemmas

open OutputLemmas

/-- Where no print reaches the output adapter, output is charged before it is written. A print
that does reach it writes a byte that was not charged. In any run the bytes written exceed the
bytes charged by at most one for each write, and the bytes charged keep the limit. -/
theorem output_charged_iff :
    (∀ st : Printing σ, Reach (printing σ) Quiet st → OutputCharged st) ∧
    (∀ (st st' : Printing σ) action, Reach (printing σ) anyStep st →
      (printing σ).step st action = some st' → ¬ Quiet st action → ¬ OutputCharged st') ∧
    (∀ st : Printing σ, Reach (printing σ) anyStep st →
      written st.log ≤ st.ledger.committed.outputBytes + writes st.log ∧
      st.ledger.committed.outputBytes ≤ st.ledger.config.maxOutputBytes) := by
  have hlimit (st : Printing σ) (h : st.ledger.Within) :
      st.ledger.committed.outputBytes ≤ st.ledger.config.maxOutputBytes :=
    (Nat.le_add_right _ _).trans (h.limit .outputBytes)
  refine ⟨fun st hrun ↦ ?_, fun st st' action hrun hstep hloud hcharged ↦ ?_, fun st hrun ↦ ?_⟩
  · have hunder := undercharged_by_one (hrun.mono fun _ _ _ ↦ trivial)
    have hnone := quiet_unwritten hrun
    refine ⟨?_, hlimit st hunder.within, fun before bytes after hlog ↦ ?_⟩
    · have := hunder.written_le
      omega
    · have := mem_of_wrote hlog
      omega
  · obtain ⟨call, phase, rfl, -, -⟩ | ⟨backend, callStack, parts, line, rfl, rfl⟩ :=
      step_cases hstep
    · exact hloud trivial
    · have hwithin := (undercharged_by_one hrun).within
      obtain ⟨hgranted, hpasses⟩ := not_or.mp hloud
      obtain ⟨-, ⟨hrefuses, -⟩ | ⟨-, -, ⟨hnone, -⟩ | ⟨-, bytes, hlength, hlog⟩⟩⟩ :=
        print_cases (" ".intercalate parts) line hwithin
      · exact hpasses hrefuses
      · exact hgranted hnone
      · obtain ⟨earlier, n, hbefore, hle⟩ := hcharged.charged _ bytes [] hlog
        have hn := List.append_inj_right' hbefore rfl
        simp only [List.cons.injEq, OutputEvent.charged.injEq, and_true] at hn
        omega
  · have hunder := undercharged_by_one hrun
    exact ⟨hunder.written_le, hlimit st hunder.within⟩

/-- A run with a granted output, before it prints. -/
def grantedOutput : Printing Unit where
  ledger := .fresh tenOfEach (fun _ ↦ false) none
  stdout := some fun _ s ↦ (.ok (), s)
  host := ()
  log := []

/-- `print("a")` writes two bytes and charges one. -/
theorem newline_uncharged :
    ¬ ∀ st : Printing Unit, Reach (printing Unit) anyStep st → OutputCharged st := by
  intro h
  let printed := (applyPrint [] ["a"] 1 grantedOutput).2
  have hinit : (printing Unit).init grantedOutput := ⟨rfl, tenOfEach, _, none, rfl⟩
  have hreach : Reach (printing Unit) anyStep printed :=
    (Reach.init hinit).step (a := .print .treeWalk [] ["a"] 1) trivial rfl
  have hle := (h printed hreach).written_le
  revert hle
  decide

end Tsumugi.Capability
