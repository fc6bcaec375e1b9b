import Tsumugi.Audit.FailClosed
import Tsumugi.Lib.Bracket

/-!
# The yields of a run

A Yielded opens a bracket, the Resumed with its reason and poll index closes it.
Yields have two levels: those between two slices, and those of a wait for an ack,
which can stand inside one of the others. An event does not show its level; the log
does, because a wait is between a submit and its ack.

Results:
1. `yieldsOf_append`: the yields of a log, piece by piece.
2. `recordBackpressureYield_spec`, `recordBackpressureResume_spec`: what a wait does
   to the recorder.
-/

namespace Tsumugi.Audit

open Budget Word Bracket

/-! ## Marks -/

/-- The reason and the poll index that a Yielded and its Resumed share. -/
abbrev Yield := AuditYieldReason × Nat

/-- Where a yield is recorded. -/
inductive YieldLevel
  | slice
  | delivery
deriving DecidableEq, Repr

/-- What an event opens or closes. -/
def AuditEvent.yieldMark : AuditEvent → Option (Mark Yield)
  | .yielded reason pollIndex _ => some (.opens (reason, pollIndex))
  | .resumed reason pollIndex _ => some (.closes (reason, pollIndex))
  | _ => none

def marksOf (events : List AuditEvent) : List (Mark Yield) := events.filterMap (·.yieldMark)

/-- The marks of the events that the journal has accepted. -/
def journalMarks (log : List LogEntry) : List (Mark Yield) :=
  marksOf ((appendedOf log).map (·.event))

/-- The level of a yield that is recorded after this entry. -/
def LogEntry.level (level : YieldLevel) : LogEntry → YieldLevel
  | .submitted _ => .delivery
  | .acked _ => .slice
  | _ => level

def levelAfter (level : YieldLevel) (log : List LogEntry) : YieldLevel :=
  log.foldl LogEntry.level level

/-- The marks of a log, each with its level. -/
def yieldsFrom : YieldLevel → List LogEntry → List (Mark (YieldLevel × Yield))
  | _, [] => []
  | level, .recorded event :: log =>
    (event.yieldMark.map (·.map (Prod.mk level))).toList ++ yieldsFrom level log
  | level, entry :: log => yieldsFrom (entry.level level) log

/-- The yields that a run has recorded, in order. -/
def yieldsOf (log : List LogEntry) : List (Mark (YieldLevel × Yield)) := yieldsFrom .slice log

/-- Poll indices increase. A yield between slices opens when nothing is open, a yield of a
wait when no other wait is open. -/
def yieldDiscipline : Discipline (YieldLevel × Yield) where
  serial y := y.2.2
  nests stack y :=
    match y.1 with
    | .slice => stack.isEmpty
    | .delivery => stack.all fun open' => open'.1 = .slice

/-- The yields that are open, when the marks are those of a lawful sequence. -/
def openYields (marks : List (Mark (YieldLevel × Yield))) :
    Option (Reading (YieldLevel × Yield)) := readAll yieldDiscipline {} marks

/-- The yields are well bracketed. -/
def YieldsBracketed (marks : List (Mark (YieldLevel × Yield))) : Prop :=
  Bracketed yieldDiscipline marks

instance (marks : List (Mark (YieldLevel × Yield))) : Decidable (YieldsBracketed marks) :=
  inferInstanceAs (Decidable (Bracketed yieldDiscipline marks))

/-- The envelope was submitted and has no ack yet, and a yield has been recorded since. -/
def AwaitsAck (env : AuditEnvelope) (log : List LogEntry) : Prop :=
  ∃ before after, log = before ++ .submitted env :: after ∧ .acked env ∉ after ∧
    ∃ reason pollIndex usage, .recorded (.yielded reason pollIndex usage) ∈ after

/-- The host has panicked while an ack was awaited. -/
def WaitPanicked (log : List LogEntry) : Prop :=
  ∃ before env after, log = before ++ .panicked (.delivery env.event) :: after ∧
    AwaitsAck env before

/-- The journal has accepted the yields up to some moment, and they are well bracketed. -/
def JournalReads (log : List LogEntry) (o : Reading (YieldLevel × Yield)) : Prop :=
  ∃ marks, marks <+: yieldsOf log ∧ marks.map (·.map Prod.snd) = journalMarks log ∧
    openYields marks = some o

namespace BracketsLemmas

open StreamLawLemmas

@[simp] theorem marksOf_nil : marksOf [] = [] := rfl

@[simp] theorem marksOf_append (events events' : List AuditEvent) :
    marksOf (events ++ events') = marksOf events ++ marksOf events' := List.filterMap_append

@[simp] theorem journalMarks_append (log log' : List LogEntry) :
    journalMarks (log ++ log') = journalMarks log ++ journalMarks log' := by
  simp [journalMarks]

theorem journalMarks_quiet {entries : List LogEntry}
    (h : ∀ entry ∈ entries, entry.isQuiet = true) : journalMarks entries = [] := by
  rw [journalMarks, appendedOf_quiet h]
  rfl

@[simp] theorem levelAfter_append (level : YieldLevel) (log log' : List LogEntry) :
    levelAfter level (log ++ log') = levelAfter (levelAfter level log) log' := List.foldl_append

theorem yieldsFrom_append (level : YieldLevel) (log log' : List LogEntry) :
    yieldsFrom level (log ++ log') =
      yieldsFrom level log ++ yieldsFrom (levelAfter level log) log' := by
  induction log generalizing level with
  | nil => rfl
  | cons entry log ih =>
    cases entry with
    | recorded event =>
      simp only [List.cons_append, yieldsFrom, ih, List.append_assoc]
      rfl
    | _ => exact ih _

/-- The yields of a log, piece by piece. -/
theorem yieldsOf_append (log log' : List LogEntry) :
    yieldsOf (log ++ log') = yieldsOf log ++ yieldsFrom (levelAfter .slice log) log' :=
  yieldsFrom_append _ log log'

theorem yieldsFrom_recorded (level : YieldLevel) (events : List AuditEvent) :
    yieldsFrom level (events.map .recorded) = (marksOf events).map (·.map (Prod.mk level)) := by
  induction events with
  | nil => rfl
  | cons event events ih =>
    simp only [List.map_cons, yieldsFrom, ih, marksOf, List.filterMap_cons]
    cases event.yieldMark <;> rfl

theorem levelAfter_recorded (level : YieldLevel) (events : List AuditEvent) :
    levelAfter level (events.map .recorded) = level := by
  induction events with
  | nil => rfl
  | cons event events ih => exact ih

/-- The levels can be forgotten. -/
theorem forget_levels (level : YieldLevel) (marks : List (Mark Yield)) :
    (marks.map (·.map (Prod.mk level))).map (·.map Prod.snd) = marks := by
  rw [List.map_map]
  exact List.map_id'' (fun mark => by cases mark <;> rfl) marks

theorem awaitsAck_append {env : AuditEnvelope} {log entries : List LogEntry}
    (h : AwaitsAck env log) (hentries : .acked env ∉ entries) :
    AwaitsAck env (log ++ entries) := by
  obtain ⟨before, after, rfl, hacked, reason, pollIndex, usage, hmem⟩ := h
  exact ⟨before, after ++ entries, by simp, by simp [hacked, hentries], reason, pollIndex, usage,
    by simp [hmem]⟩

theorem waitPanicked_append {log : List LogEntry} (h : WaitPanicked log)
    (entries : List LogEntry) : WaitPanicked (log ++ entries) := by
  obtain ⟨before, env, after, rfl, hawaits⟩ := h
  exact ⟨before, env, after ++ entries, by simp, hawaits⟩

theorem journalReads_append {log entries : List LogEntry} {o : Reading (YieldLevel × Yield)}
    (h : JournalReads log o) (hentries : journalMarks entries = []) :
    JournalReads (log ++ entries) o := by
  obtain ⟨marks, hstart, hmarks, hread⟩ := h
  refine ⟨marks, hstart.trans ?_, by simp [hmarks, hentries], hread⟩
  rw [yieldsOf_append]
  exact List.prefix_append _ _

end BracketsLemmas

/-! ## The recorder -/

/-- No charge that waits is a yield. -/
def BudgetChargeAccumulator.Unmarked (acc : BudgetChargeAccumulator) : Prop :=
  marksOf acc.finalized = []

/-- The last yield that has no Resumed. -/
def Recorder.outer (r : Recorder) : Option Yield :=
  r.lastYieldReason.map fun reason => (reason, r.lastYieldPollIndex)

/-- A note that reports no yield. -/
def Note.Unmarked : Note → Prop
  | .hostCall events => marksOf events = []
  | _ => True

namespace BracketsLemmas

open Recorder DeliveryLemmas

theorem unmarked_empty : ({} : BudgetChargeAccumulator).Unmarked := rfl

theorem unmarked_note {acc : BudgetChargeAccumulator} (h : acc.Unmarked) (fresh : ChargeGroup)
    (add : ChargeGroup → ChargeGroup) : (acc.note fresh add).Unmarked := by
  simp only [BudgetChargeAccumulator.note]
  split
  · exact h
  · split
    · exact h
    · split
      · simpa [BudgetChargeAccumulator.Unmarked, BudgetChargeAccumulator.pushFinalized,
          marksOf, ChargeGroup.intoEvent, AuditEvent.yieldMark] using h
      · exact h

theorem marksOf_flush {acc : BudgetChargeAccumulator} (h : acc.Unmarked) :
    marksOf acc.flush.1 = [] := by
  have hgroups : ∀ groups : List ChargeGroup, marksOf (groups.map ChargeGroup.intoEvent) = [] := by
    intro groups
    simp [marksOf, ChargeGroup.intoEvent, AuditEvent.yieldMark]
  rw [BudgetChargeAccumulator.flush, marksOf_append, h, hgroups]
  rfl

/-- What a call of the recorder puts into the buffer. -/
structure Records (r r' : Recorder) (events : List AuditEvent) : Prop where
  buffer : r'.auditEvents = r.auditEvents ++ events
  unmarked : r.accumulator.Unmarked → r'.accumulator.Unmarked
  pollIndex : r.pollIndex ≤ r'.pollIndex

theorem Records.trans {r r' r'' : Recorder} {events events' : List AuditEvent}
    (h : Records r r' events) (h' : Records r' r'' events') :
    Records r r'' (events ++ events') :=
  ⟨by rw [h'.buffer, h.buffer, List.append_assoc], h'.unmarked ∘ h.unmarked,
    h.pollIndex.trans h'.pollIndex⟩

theorem records_pushAuditEvents (r : Recorder) (events : List AuditEvent) :
    Records r (r.pushAuditEvents events) events := by
  refine ⟨pushAuditEvents_auditEvents r events, ?_, ?_⟩
  · rw [pushAuditEvents_frame]
    exact id
  · rw [pushAuditEvents_frame]

theorem take_spec {r : Recorder} {note : Note} (hnote : note.Unmarked) :
    ∃ events, Records r (r.take note) events ∧ marksOf events = [] ∧
      (r.take note).outer = r.outer := by
  cases note with
  | charge resource reason delta usageAfter =>
    exact ⟨[], ⟨(List.append_nil _).symm, fun h => unmarked_note h _ _, Nat.le_refl _⟩, rfl, rfl⟩
  | release resource reason delta usageAfter peakAfter =>
    exact ⟨[], ⟨(List.append_nil _).symm, fun h => unmarked_note h _ _, Nat.le_refl _⟩, rfl, rfl⟩
  | hostCall events =>
    refine ⟨events, records_pushAuditEvents r events, hnote, ?_⟩
    rw [Recorder.take, pushAuditEvents_frame]
    rfl

theorem takes_spec {notes : List Note} (hnotes : ∀ note ∈ notes, note.Unmarked) (r : Recorder) :
    ∃ events, Records r (notes.foldl Recorder.take r) events ∧ marksOf events = [] ∧
      (notes.foldl Recorder.take r).outer = r.outer := by
  induction notes generalizing r with
  | nil => exact ⟨[], ⟨(List.append_nil _).symm, id, Nat.le_refl _⟩, rfl, rfl⟩
  | cons note notes ih =>
    obtain ⟨events, hrec, hmarks, houter⟩ := take_spec (r := r) (hnotes note (by simp))
    obtain ⟨events', hrec', hmarks', houter'⟩ :=
      ih (fun note hmem => hnotes note (by simp [hmem])) (r.take note)
    exact ⟨events ++ events', hrec.trans hrec', by simp [hmarks, hmarks'], houter'.trans houter⟩

/-- A flush of the charges records no yield. -/
theorem flushCharges_spec {r : Recorder} (h : r.accumulator.Unmarked) :
    ∃ events, Records r r.flushChargesIntoAuditEvents events ∧ marksOf events = [] ∧
      r.flushChargesIntoAuditEvents.pollIndex = r.pollIndex ∧
      r.flushChargesIntoAuditEvents.outer = r.outer ∧
      r.flushChargesIntoAuditEvents.savedYieldBeforeBackpressure =
        r.savedYieldBeforeBackpressure := by
  have hpush := records_pushAuditEvents r.drainBudgetCharges.2 r.drainBudgetCharges.1
  refine ⟨r.drainBudgetCharges.1, ⟨hpush.buffer, fun _ => hpush.unmarked unmarked_empty,
    hpush.pollIndex⟩, marksOf_flush h, flushCharges_pollIndex r, ?_, ?_⟩ <;>
    rw [flushChargesIntoAuditEvents, pushAuditEvents_frame] <;> rfl

/-- The event of a new yield takes the poll index that was allocated. -/
theorem recordYield_spec {r r' : Recorder} {pollIndex : Nat}
    (halloc : r.allocPollIndex = some (pollIndex, r')) (reason : AuditYieldReason)
    (usage : BudgetUsage) :
    pollIndex = r.pollIndex ∧
      Records r (r'.recordYield reason pollIndex usage) [.yielded reason pollIndex usage] ∧
      (r'.recordYield reason pollIndex usage).pollIndex = r.pollIndex + 1 ∧
      (r'.recordYield reason pollIndex usage).outer = some (reason, pollIndex) ∧
      (r'.recordYield reason pollIndex usage).savedYieldBeforeBackpressure =
        r.savedYieldBeforeBackpressure := by
  simp only [allocPollIndex, checkedAdd] at halloc
  split at halloc
  · simp only [Option.map_some, Option.some.injEq, Prod.mk.injEq] at halloc
    obtain ⟨rfl, rfl⟩ := halloc
    exact ⟨rfl, ⟨rfl, id, Nat.le_succ _⟩, rfl, rfl, rfl⟩
  · cases halloc

theorem restoreSavedYield_spec (r : Recorder) (h : r.outer = none) :
    Records r r.restoreSavedYield [] ∧
      r.restoreSavedYield.outer = r.savedYieldBeforeBackpressure := by
  unfold restoreSavedYield
  split
  next reason index hsaved =>
    exact ⟨⟨(List.append_nil _).symm, id, Nat.le_refl _⟩, hsaved.symm⟩
  next hsaved => exact ⟨⟨(List.append_nil _).symm, id, Nat.le_refl _⟩, h.trans hsaved.symm⟩

/-- A wait begins: its yield is recorded and the outer one put aside, or no poll index is
left and nothing changes. -/
theorem recordBackpressureYield_spec {r : Recorder} (usage : BudgetUsage)
    (h : r.accumulator.Unmarked) :
    (∃ events r', r.recordBackpressureYield usage = (true, r') ∧
      Records r r' (events ++ [.yielded .auditBackpressure r.pollIndex usage]) ∧
      marksOf events = [] ∧ r'.pollIndex = r.pollIndex + 1 ∧
      r'.outer = some (.auditBackpressure, r.pollIndex) ∧
      r'.savedYieldBeforeBackpressure = r.outer) ∨
    ∃ events r', r.recordBackpressureYield usage = (false, r') ∧ Records r r' events ∧
      marksOf events = [] ∧ r'.outer = r.outer := by
  let r₀ : Recorder := { r with
    savedYieldBeforeBackpressure := r.outer
    lastYieldReason := none }
  obtain ⟨events, hrec, hmarks, hpoll, houter, hsaved⟩ :=
    flushCharges_spec (r := r₀) h
  have hrec₀ : Records r r₀.flushChargesIntoAuditEvents events :=
    ⟨hrec.buffer, hrec.unmarked, hrec.pollIndex⟩
  rcases halloc : r₀.flushChargesIntoAuditEvents.allocPollIndex with _ | ⟨pollIndex, r₁⟩
  · obtain ⟨hrestored, hback⟩ := restoreSavedYield_spec r₀.flushChargesIntoAuditEvents houter
    refine .inr ⟨events, r₀.flushChargesIntoAuditEvents.restoreSavedYield, ?_, ?_, hmarks,
      hback.trans hsaved⟩
    · simp only [recordBackpressureYield]
      simp only [r₀, Recorder.outer] at halloc
      rw [halloc]
      rfl
    · simpa using hrec₀.trans hrestored
  · obtain ⟨hindex, hyield, hnext, hlast, hkept⟩ :=
      recordYield_spec halloc .auditBackpressure usage
    rw [hpoll] at hindex hnext
    subst hindex
    refine .inl ⟨events, r₁.recordYield .auditBackpressure r.pollIndex usage, ?_,
      hrec₀.trans hyield, hmarks, hnext, hlast, hkept.trans hsaved⟩
    simp only [recordBackpressureYield]
    simp only [r₀, Recorder.outer] at halloc
    rw [halloc]

/-- A wait ends: its Resumed is recorded and the outer yield put back. -/
theorem recordBackpressureResume_spec {r : Recorder} {pollIndex : Nat} (usage : BudgetUsage)
    (h : r.outer = some (.auditBackpressure, pollIndex)) :
    Records r (r.recordBackpressureResume usage) [.resumed .auditBackpressure pollIndex usage] ∧
      (r.recordBackpressureResume usage).outer = r.savedYieldBeforeBackpressure := by
  obtain ⟨reason, hreason, hpair⟩ := Option.map_eq_some_iff.mp h
  simp only [Prod.mk.injEq] at hpair
  obtain ⟨rfl, rfl⟩ := hpair
  let r₀ := ({ r with lastYieldReason := none } : Recorder).pushAuditEvent
    (.resumed .auditBackpressure r.lastYieldPollIndex usage)
  obtain ⟨hrestored, hback⟩ := restoreSavedYield_spec r₀ rfl
  have hpush : Records r r₀ [.resumed .auditBackpressure r.lastYieldPollIndex usage] :=
    ⟨rfl, id, Nat.le_refl _⟩
  have heq : r.recordBackpressureResume usage = r₀.restoreSavedYield := by
    simp only [recordBackpressureResume, hreason]
    rfl
  rw [heq]
  exact ⟨by simpa using hpush.trans hrestored, hback⟩

/-- A slice begins: the Resumed of the slice before it, if that one yielded. -/
theorem recordResume_spec (r : Recorder) (usage : BudgetUsage) :
    Records r (r.recordResume usage)
        (r.outer.map fun y => AuditEvent.resumed y.1 y.2 usage).toList ∧
      (r.recordResume usage).outer = none := by
  rcases hreason : r.lastYieldReason with _ | reason
  · simp only [recordResume, hreason, Recorder.outer, Option.map_none, Option.toList_none]
    exact ⟨⟨(List.append_nil _).symm, id, Nat.le_refl _⟩, trivial⟩
  · simp only [recordResume, hreason, Recorder.outer, Option.map_some, Option.toList_some]
    exact ⟨⟨rfl, id, Nat.le_refl _⟩, rfl⟩

end BracketsLemmas

end Tsumugi.Audit
