import Tsumugi.Audit.Loading
import Tsumugi.Audit.TerminalStep

/-!
# The audit stream against the usage of the Terminal

The ledger of a run starts at zero. Its cumulative counters are what the
BudgetCharged events of the stream add up to. Live heap is not: the heap is charged
without telling the stream, and the tokens of the program are alive to the end.

Results:
1. `counters_reconcile`: the counters of the usage are the sums of the stream.
2. `reconciles_iff`: the whole usage is, exactly when the root of the program was not
   charged.
-/

namespace Tsumugi.Audit

open Budget Word Run AccountLemmas DriveLemmas LoadingLemmas TallyLemmas

variable {P S : Type}

/-- A Terminal of the log shows this usage. -/
def TerminalUsage (log : List LogEntry) (usage : BudgetUsage) : Prop :=
  ∃ env ∈ appendedOf log, ∃ outcome error hash committed effects,
    env.event = .terminal outcome error usage hash committed effects

/-- The cumulative counters are the sums of the stream. -/
def CountersReconcile (log : List LogEntry) (usage : BudgetUsage) : Prop :=
  ∀ r, r ≠ .heapBytes → appendedDelta .committed r log = usage.committed.of r

/-- What is charged to the heap less what is released is live heap. -/
def HeapReconciles (log : List LogEntry) (usage : BudgetUsage) : Prop :=
  (appendedDelta .committed .heapBytes log : Int) - appendedDelta .released .heapBytes log =
    usage.liveHeapBytes

/-- The stream reconciles with the usage; the run's ledger starts at zero. -/
def Reconciles (log : List LogEntry) (usage : BudgetUsage) : Prop :=
  CountersReconcile log usage ∧ HeapReconciles log usage

/-- The run comes as far as the charge of the program's root: Started is acknowledged, the
run is not cancelled before, and the link phase has a program to charge. -/
def RootCharged (prog : Program P) (config : BudgetConfig) (interrupts : Interrupts)
    (rq : AuditedRequest) (sink : AuditSink S) (s : S) (program : P) : Prop :=
  (∃ executionId, rq.executionId = some executionId ∧
    answersStarted rq executionId sink s = true) ∧
    (prog.install program).1 = false ∧
    ChargesRoot prog (.install config interrupts (prog.install program).2)

namespace ReconcileLemmas

variable {prog : Program P} {config : BudgetConfig} {interrupts : Interrupts}

/-- What the stream holds of a client whose notes have all been taken. -/
structure Settles (log : List LogEntry) (usage : BudgetUsage) (rooted : Prop) : Prop where
  counters : ∀ r, appendedDelta .committed r log = usage.committed.of r
  charged : rooted → appendedDelta .released .heapBytes log = 0 → 64 ≤ usage.liveHeapBytes
  uncharged : ¬ rooted → appendedDelta .released .heapBytes log = 0 ∧ usage.liveHeapBytes = 0

theorem Settles.reconciles {log : List LogEntry} {usage : BudgetUsage} {rooted : Prop}
    (h : Settles log usage rooted) : Reconciles log usage ↔ ¬ rooted := by
  have hcommitted : appendedDelta .committed .heapBytes log = 0 := h.counters .heapBytes
  refine ⟨fun hr hrooted => ?_, fun hrooted => ⟨fun r _ => h.counters r, ?_⟩⟩
  · have hheap := hr.2
    have hlive := h.charged hrooted
    unfold HeapReconciles at hheap
    omega
  · obtain ⟨hreleased, hlive⟩ := h.uncharged hrooted
    simp [HeapReconciles, hcommitted, hreleased, hlive]

theorem Settles.congr {log log' : List LogEntry} {usage : BudgetUsage} {p q : Prop}
    (h : Settles log usage p) (hd : ∀ side r, appendedDelta side r log' = appendedDelta side r log)
    (hpq : p ↔ q) : Settles log' usage q := by
  refine ⟨fun r => (hd _ r).trans (h.counters r), fun hq hreleased => ?_, fun hq => ?_⟩
  · exact h.charged (hpq.mpr hq) ((hd _ _).symm.trans hreleased)
  · obtain ⟨hreleased, hlive⟩ := h.uncharged fun hp => hq (hpq.mp hp)
    exact ⟨(hd _ _).trans hreleased, hlive⟩

/-- A client whose notes have been taken, with what the stream says. -/
theorem settles_of_account {tokens : List Nat} {log : List LogEntry} {d : Totals} {c : Client P}
    {rooted : Prop} (h : ClientAccount tokens d c) (hnoted : c.ledger.noted = [])
    (hd : ∀ side r, appendedDelta side r log = d side r) (htokens : rooted → 64 ≤ tokens.sum)
    (hunrooted : ¬ rooted → d .released .heapBytes = 0 ∧ c.ledger.heap.liveBytes = 0) :
    Settles log c.ledger.usage rooted := by
  refine ⟨fun r => ?_, fun hrooted hreleased => ?_, fun hrooted => ?_⟩
  · have hr := h.committed r
    rw [notedDelta, hnoted, List.map_nil, List.sum_nil, Nat.add_zero] at hr
    exact (hd _ r).trans hr
  · have hquiet : c.ledger.Quiet := by simp [BudgetLedger.Quiet, notedDelta, hnoted]
    have hlive := h.heap (by rw [← hd, hreleased]) hquiet
    have := htokens hrooted
    rw [h.tokens] at hlive
    exact le_trans this (le_trans (Nat.le_add_left _ _) hlive)
  · obtain ⟨hreleased, hlive⟩ := hunrooted hrooted
    exact ⟨by rw [hd, hreleased], hlive⟩

/-- Before a last step all notes have been taken, and it makes none. -/
theorem lastStep_noted {J : Totals → Client P → Prop} {d : Totals} {outcome : DriveOutcome}
    {c : Client P} (h : LastStep (ledgerCore prog config interrupts) J d outcome c) :
    c.ledger.noted = [] := by
  have hnoted : ∀ {c : Client P} {action : Action} {c' : Client P}, c.next prog = (action, c') →
      (∀ n, action ≠ .note n) → c'.ledger.noted = [] := by
    intro c action c' hnext hne
    have hcase := next_cases prog c
    rw [hnext] at hcase
    cases hcase with
    | taken => exact absurd rfl (hne _)
    | failing hnoted => exact hnoted
    | charged => exact absurd rfl (hne _)
    | released => exact absurd rfl (hne _)
    | hosted => exact absurd rfl (hne _)
    | affected => exact absurd rfl (hne _)
    | idled program hnoted => exact hnoted
  cases h with
  | yields _ hnext => exact hnoted hnext (by simp)
  | boundary _ hnext => exact hnoted hnext (by simp)
  | done result _ hnext => exact hnoted hnext (by simp)
  | fails error _ hnext => exact hnoted hnext (by simp)

/-- The drops at the end of a session keep the account, and no one is told. -/
theorem account_finalize {tokens : List Nat} {d : Totals} {c : Client P}
    (h : ClientAccount tokens d c) (hnoted : c.ledger.noted = []) (commit : Bool) :
    ClientAccount tokens d ((ledgerCore prog config interrupts).finalizeSession c commit) ∧
      ((ledgerCore prog config interrupts).finalizeSession c commit).ledger.noted = [] := by
  have hdrops : ∀ (drops : List Nat) {c : Client P}, ClientAccount tokens d c →
      c.ledger.noted = [] →
      ClientAccount tokens d (drops.foldl (fun c index => c.release (.drop index)) c) ∧
        (drops.foldl (fun c index => c.release (.drop index)) c).ledger.noted = [] := by
    intro drops
    induction drops with
    | nil => exact fun h hnoted => ⟨h, hnoted⟩
    | cons index rest ih =>
      refine fun h hnoted => ih (account_release h (.drop index)) ?_
      simp only [Client.release]
      split <;> exact hnoted
  obtain ⟨h', hnoted'⟩ := hdrops (prog.finalizeSession c.program commit).1 h hnoted
  exact ⟨⟨h'.idle, h'.committed, h'.heap, h'.tokens⟩, hnoted'⟩

theorem finished_account {tokens : List Nat} {d : Totals} {result : Except TsumugiError Unit}
    {c : Client P} (h : Finished (ledgerCore prog config interrupts) (ClientAccount tokens) d
      result c) : ClientAccount tokens d c ∧ c.ledger.noted = [] := by
  have hI := account_invariant prog config interrupts tokens
  cases h with
  | done result hlast => exact account_finalize (LastStep.inv hI hlast) (lastStep_noted hlast) _
  | fails error hlast => exact account_finalize (LastStep.inv hI hlast) (lastStep_noted hlast) _
  | exhausted hlast => exact account_finalize (LastStep.inv hI hlast) (lastStep_noted hlast) _

theorem totals_of_flushed {st : RunState (Client P) S} (h : Flushed st) (side : Side)
    (r : BudgetResource) : appendedDelta side r st.log = st.totals side r := by
  rw [RunState.totals, RunState.delta, h side r, Nat.add_zero]

/-- What the driver settles, for an outcome that it returns. -/
theorem driven_settles {program : P} {c₀ : Client P} {tokens : List Nat}
    (hc₀ : c₀.program = program)
    (hlinked : ∀ {c' notes answer}, Link.beginExecution prog
        (.install config interrupts (prog.install program).2) = (notes, answer, c') →
      answer ≠ .unwinds → c'.ledger.noted = [] ∧
        Linked prog (.install config interrupts (prog.install program).2) answer c' notes tokens)
    {st : RunState (Client P) S} {outcome : ExecutionOutcome}
    (h : Driven (ledgerCore prog config interrupts) Client.view (ClientAccount tokens) c₀ st
      outcome) (hflushed : Flushed st) :
    Settles st.log outcome.usage ((prog.install program).1 = false ∧
      ChargesRoot prog (.install config interrupts (prog.install program).2)) := by
  have hd := totals_of_flushed hflushed
  cases h with
  | cancelled hinstall hview htotals =>
    obtain ⟨hcancelled, rfl⟩ := Prod.mk.inj hinstall
    rw [hc₀] at hcancelled
    refine ⟨fun r => ?_, fun h => ?_, fun _ => ⟨?_, rfl⟩⟩
    · rw [hd, htotals]
      cases r <;> rfl
    · rw [hcancelled] at h
      exact absurd h.1 (by simp)
    · rw [hd, htotals]
      rfl
  | refused error pendingExit hinstall hbegin hview htotals =>
    obtain ⟨hinstalled, rfl⟩ := Prod.mk.inj hinstall
    rw [hc₀] at hinstalled hbegin
    obtain ⟨hnoted, hlink⟩ := hlinked hbegin (by simp)
    rw [terminalFromRunError_usage]
    refine settles_of_account (hlink.told _ htotals) hnoted hd (fun h => hlink.rooted h.2)
      fun h => ?_
    obtain ⟨hreleased, hlive, -⟩ := hlink.unrooted fun hroot => h ⟨hinstalled, hroot⟩
    have hr := htotals .released .heapBytes
    rw [hreleased] at hr
    refine ⟨?_, hlive⟩
    unfold Tallies maxU64 at hr
    omega
  | finished result pendingExit hinstall hbegin hfinished hview =>
    obtain ⟨hinstalled, rfl⟩ := Prod.mk.inj hinstall
    rw [hc₀] at hinstalled hbegin
    obtain ⟨-, hlink⟩ := hlinked hbegin (by simp)
    have hroot : ChargesRoot prog (.install config interrupts (prog.install program).2) :=
      by_contra fun h => (hlink.unrooted h).2.2 rfl
    obtain ⟨haccount, hnoted⟩ := finished_account hfinished
    rw [outcomeOf_usage]
    exact settles_of_account haccount hnoted hd (fun _ => hlink.rooted hroot)
      fun h => absurd ⟨hinstalled, hroot⟩ h

end ReconcileLemmas

section

variable (prog : Program P) (config : BudgetConfig) (interrupts : Interrupts)
  (rq : AuditedRequest) (sink : AuditSink S) (reentered : Bool) (fuel : Nat) (c : Client P)
  (s : S) (r : Recorder) (poisoned running : Bool) {result : Except Stop AuditedOutcome}
  {t : RunState (Client P) S} {usage : BudgetUsage}

open ReconcileLemmas in
theorem ReconcileLemmas.terminal_settles
    (hrun : (runAudited rq (ledgerCore prog config interrupts) sink reentered fuel).run
      (.initial rq c s r poisoned running) = (result, t))
    (hquiet : ∀ site ∈ panicsOf t.log, site.inDriver = false)
    (hterminal : TerminalUsage t.log usage) :
    Settles t.log usage (RootCharged prog config interrupts rq sink s c.program) := by
  obtain ⟨env, henv, outcome, error, hash, committed, effects, hevent⟩ := hterminal
  have hkind : env.event.isTerminal = true := by rw [hevent]; rfl
  -- the tokens of the program, if the link phase answers at all
  obtain ⟨tokens, hlinked⟩ : ∃ tokens, ∀ {c' notes answer}, Link.beginExecution prog
        (.install config interrupts (prog.install c.program).2) = (notes, answer, c') →
      answer ≠ .unwinds → c'.ledger.noted = [] ∧ Linked prog
        (.install config interrupts (prog.install c.program).2) answer c' notes tokens := by
    rcases hbegin : Link.beginExecution prog
      (.install config interrupts (prog.install c.program).2) with ⟨notes, answer, c'⟩
    by_cases hanswer : answer = .unwinds
    · refine ⟨[], fun h hne => ?_⟩
      cases h
      exact absurd hanswer hne
    · obtain ⟨hnoted, tokens, hlink⟩ := begin_linked prog hbegin hanswer
      refine ⟨tokens, fun h _ => ?_⟩
      cases h
      exact ⟨hnoted, hlink⟩
  have hI := account_invariant prog config interrupts tokens
  obtain ⟨executionId, hid, hcomes⟩ := terminal_comes rq (ledgerCore prog config interrupts) sink
    reentered fuel hI.cancel hI.deadline rfl hrun hquiet henv hkind
  rw [hevent] at hcomes
  generalize hterm : AuditEvent.terminal outcome error usage hash committed effects = event
    at hcomes
  cases hcomes with
  | emergency hno hcore hdelta =>
    cases hterm
    refine ⟨fun r => ?_, fun h => ?_, fun _ => ⟨hdelta _ _, rfl⟩⟩
    · rw [hdelta]
      cases r <;> rfl
    · obtain ⟨⟨executionId', hid', hyes⟩, -⟩ := h
      rw [hid] at hid'
      cases hid'
      exact absurd (hno.symm.trans hyes) (by simp)
  | delivered outcome' exceeded hyes hstart hdriven hexceeded hview hdelta =>
    cases hterm
    have hdrive := triple_runAuditedDriver hI rq executionId sink fuel c (fun hinstall hbegin hd => by
      obtain ⟨-, rfl⟩ := Prod.mk.inj hinstall
      exact (hlinked hbegin (by simp)).2.told _ hd) _ hstart _ _ hdriven outcome' rfl
    refine (driven_settles rfl hlinked hdrive.1 hdrive.2).congr hdelta ⟨fun h => ?_, fun h => h.2⟩
    exact ⟨⟨executionId, hid, hyes⟩, h⟩

/-- The counters of a Terminal's usage are the sums of the stream. -/
theorem counters_reconcile
    (hrun : (runAudited rq (ledgerCore prog config interrupts) sink reentered fuel).run
      (.initial rq c s r poisoned running) = (result, t))
    (hquiet : ∀ site ∈ panicsOf t.log, site.inDriver = false)
    (hterminal : TerminalUsage t.log usage) : CountersReconcile t.log usage := fun resource _ =>
  (ReconcileLemmas.terminal_settles prog config interrupts rq sink reentered fuel c s r poisoned
    running hrun hquiet hterminal).counters resource

/-- In a run whose driver does not panic, the stream reconciles with the usage of the
Terminal exactly when the run ends before the program's root is charged to the heap. -/
theorem reconciles_iff
    (hrun : (runAudited rq (ledgerCore prog config interrupts) sink reentered fuel).run
      (.initial rq c s r poisoned running) = (result, t))
    (hquiet : ∀ site ∈ panicsOf t.log, site.inDriver = false)
    (hterminal : TerminalUsage t.log usage) :
    Reconciles t.log usage ↔ ¬ RootCharged prog config interrupts rq sink s c.program :=
  (ReconcileLemmas.terminal_settles prog config interrupts rq sink reentered fuel c s r poisoned
    running hrun hquiet hterminal).reconciles

end

/-! ## Concrete runs -/

/-- The run of a scripted program with a sink that acknowledges at once. -/
def scriptedRun (cancelled : Bool) (config : BudgetConfig) (steps : List Step) (fuel : Nat) :
    Except Stop AuditedOutcome × RunState (Client (List Step)) Unit :=
  (runAudited (requestOf budget100KiB) (ledgerCore (scripted cancelled) config undisturbed) syncSink
    false fuel).run (.initial (requestOf budget100KiB)
      (.initial steps (.fresh config undisturbed.cancellation none)) () {} false false)

/-- A limit of everything that is enough. -/
def ampleConfig : BudgetConfig := (requestOf budget100KiB).budget

theorem terminalUsage_of_last {log : List LogEntry} {outcome : TerminalOutcome}
    {error : Option AuditErrorPayload} {usage : BudgetUsage} {hash : Option (List UInt8)}
    {committed effects : Bool} (h : (appendedOf log).getLast?.map (·.event) =
      some (.terminal outcome error usage hash committed effects)) : TerminalUsage log usage := by
  obtain ⟨env, henv, hevent⟩ := Option.map_eq_some_iff.mp h
  exact ⟨env, List.mem_of_getLast? henv, _, _, _, _, _, hevent⟩

/-- A run that is cancelled before it starts reconciles. -/
theorem cancelled_reconciles :
    TerminalUsage (scriptedRun true ampleConfig [] 5).2.log {} ∧
      Reconciles (scriptedRun true ampleConfig [] 5).2.log {} := by
  have hterminal : TerminalUsage (scriptedRun true ampleConfig [] 5).2.log {} :=
    terminalUsage_of_last (by cbv)
  have hpanics : panicsOf (scriptedRun true ampleConfig [] 5).2.log = [] := by cbv
  rcases hrun : scriptedRun true ampleConfig [] 5 with ⟨result, t⟩
  rw [hrun] at hterminal hpanics
  refine ⟨hterminal, (reconciles_iff _ _ _ _ _ _ _ _ _ _ _ _ hrun ?_ hterminal).mpr fun h => ?_⟩
  · simp [hpanics]
  · cases h.2.1

/-- The usage of a program that does nothing. -/
def rootUsage : BudgetUsage where
  committed := { sourceCount := 1 }
  liveHeapBytes := 64
  peakHeapBytes := 64

/-- A program that does nothing completes with the 64 bytes of its root alive, and the stream
has no event of the heap. -/
theorem root_is_unrecorded :
    TerminalUsage (scriptedRun false ampleConfig [] 5).2.log rootUsage ∧
      appendedDelta .committed .heapBytes (scriptedRun false ampleConfig [] 5).2.log = 0 ∧
      appendedDelta .released .heapBytes (scriptedRun false ampleConfig [] 5).2.log = 0 ∧
      ¬ Reconciles (scriptedRun false ampleConfig [] 5).2.log rootUsage := by
  have hcommitted :
      appendedDelta .committed .heapBytes (scriptedRun false ampleConfig [] 5).2.log = 0 := by cbv
  have hreleased :
      appendedDelta .released .heapBytes (scriptedRun false ampleConfig [] 5).2.log = 0 := by cbv
  refine ⟨terminalUsage_of_last (by cbv), hcommitted, hreleased, fun h => ?_⟩
  have hheap := h.2
  rw [HeapReconciles, hcommitted, hreleased] at hheap
  cases hheap

end Tsumugi.Audit
