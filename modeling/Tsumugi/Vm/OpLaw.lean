import Tsumugi.Vm.Machine
import Tsumugi.Budget.LedgerLaw

/-!
# What an operation does, whatever the chunk

No assumption is made about the code: jumps, slots, constants and arities may be
malformed. Every operation of the machine keeps the contract `conduct`:

* the limits of the budget stay;
* it does not panic: no access leaves the code, the stack or a table;
* either the watchdog has counted, or the frames are those from before, some of them
  dropped, with their chunks (`Advance`);
* what an open submission has overwritten or dropped is in its journal (`Journaled`).

Results:
1. `Op.checkpointStackSlot_run`, `Op.checkpointCell_run`: a checkpoint saves what may be
   overwritten next, and touches nothing else.
2. `Op.ends_pushCallFrame`: a frame is added with a tick.
3. `Op.meets_setLocal` and its siblings: every write of a variable comes after its
   checkpoint.
-/

namespace Tsumugi.Bytecode

open Budget (BudgetLedger BudgetConfig Charge ControlStop)
open Word
open Proc (Meets MeetsFrom Triple)

variable {W : Type}

/-! ## The journal of a submission -/

/-- The journal and the present contents give back the contents at the beginning. -/
structure Covers (before : Vm W) (cp : ReplStackCheckpoint) (s : Vm W) : Prop where
  stackLen : cp.stackLen = before.stack.length
  originals : ∀ o ∈ cp.originals, before.stack[o.1]? = some o.2
  slots : ∀ i slot, before.stack[i]? = some slot →
    (∃ x, (i, x) ∈ cp.originals) ∨ s.stack[i]? = some slot
  cellsLen : before.cells.length ≤ s.cells.length
  cellOriginals : ∀ o ∈ cp.cellOriginals, ∀ v, before.cells[o.1]? = some v → o.2 = v
  cells : ∀ a v, before.cells[a]? = some v →
    (∃ x, (a, x) ∈ cp.cellOriginals) ∨ s.cells[a]? = some v

/-- A submission that began in `before` is open, and it can be rolled back. -/
def Journaled (before s : Vm W) : Prop := ∃ cp ∈ s.replStackCheckpoint, Covers before cp s

/-- The stack entry may be overwritten or dropped. -/
def SlotSaved (i : Nat) (s : Vm W) : Prop :=
  ∀ cp ∈ s.replStackCheckpoint, i < cp.stackLen → ∃ x, (i, x) ∈ cp.originals

/-- The cell may be overwritten. -/
def CellSaved (a : Addr) (s : Vm W) : Prop :=
  ∀ cp ∈ s.replStackCheckpoint, ∃ x, (a, x) ∈ cp.cellOriginals

/-- Nothing is lost that has not been saved. -/
theorem Journaled.mono {before s t : Vm W} (h : Journaled before s)
    (hcp : t.replStackCheckpoint = s.replStackCheckpoint)
    (hslots : ∀ i slot, s.stack[i]? = some slot → SlotSaved i s ∨ t.stack[i]? = some slot)
    (hlen : s.cells.length ≤ t.cells.length)
    (hcells : ∀ a v, s.cells[a]? = some v → CellSaved a s ∨ t.cells[a]? = some v) :
    Journaled before t := by
  obtain ⟨cp, hm, hc⟩ := h
  refine ⟨cp, hcp ▸ hm, hc.stackLen, hc.originals, fun i slot hi => ?_,
    Nat.le_trans hc.cellsLen hlen, hc.cellOriginals, fun a v ha => ?_⟩
  · have hlt : i < cp.stackLen := hc.stackLen ▸ (List.getElem?_eq_some_iff.mp hi).1
    rcases hc.slots i slot hi with hsaved | hs
    · exact .inl hsaved
    · exact (hslots i slot hs).imp_left fun hsaved => hsaved cp hm hlt
  · rcases hc.cells a v ha with hsaved | hs
    · exact .inl hsaved
    · exact (hcells a v hs).imp_left fun hsaved => hsaved cp hm

theorem Journaled.congr {before s t : Vm W} (h : Journaled before s)
    (hcp : t.replStackCheckpoint = s.replStackCheckpoint) (hstack : t.stack = s.stack)
    (hcells : t.cells = s.cells) : Journaled before t :=
  h.mono hcp (fun _ _ h => .inr (hstack ▸ h)) (Nat.le_of_eq (by rw [hcells]))
    fun _ _ h => .inr (hcells ▸ h)

/-! ## The contract -/

/-- The chunks of the frames, innermost first. -/
def Vm.chunks (s : Vm W) : List Chunk := s.frames.map (·.chunk)

/-- The watchdog has counted: it is within its limit, or its stop is on the way. -/
def Ticked (o : Option VmStop) (s t : Vm W) : Prop :=
  s.watchdogTicks < t.watchdogTicks ∧ (t.watchdogTicks ≤ Op.watchdogLimit s ∨
    ∃ e, o = some (.watchdog e) ∧ ErrorKind.isUncatchable e.kind = true)

/-- Without a tick no frame is added. -/
def Advance (o : Option VmStop) (s t : Vm W) : Prop :=
  (t.watchdogTicks = s.watchdogTicks ∧ t.chunks <:+ s.chunks) ∨ Ticked o s t

/-- The counter of the watchdog can pass its limit. It cannot when the limit saturates. -/
structure Paced (s : Vm W) : Prop where
  limit : Op.watchdogLimit s < maxU64
  ticks : s.watchdogTicks ≤ maxU64

/-- What an operation does to the machine, with the stop it ends with, if it does. -/
structure Does (o : Option VmStop) (s t : Vm W) : Prop where
  config : t.outer.budget.config = s.outer.budget.config
  advance : Paced s → Paced t ∧ Advance o s t
  journal : ∀ before, Journaled before s → Journaled before t
  safe : o ≠ some .panic

theorem watchdogLimit_congr {s t : Vm W}
    (h : t.outer.budget.config = s.outer.budget.config) :
    Op.watchdogLimit t = Op.watchdogLimit s := by
  unfold Op.watchdogLimit
  rw [h]

theorem no_panic : (none : Option VmStop) ≠ some .panic := nofun

namespace Does

variable {o : Option VmStop} {s t u : Vm W}

/-- An operation that leaves the watchdog and the journal alone. -/
theorem quiet (hsafe : o ≠ some .panic)
    (hconfig : t.outer.budget.config = s.outer.budget.config)
    (hticks : t.watchdogTicks = s.watchdogTicks) (hchunks : t.chunks <:+ s.chunks)
    (hcp : t.replStackCheckpoint = s.replStackCheckpoint)
    (hslots : ∀ i slot, s.stack[i]? = some slot → SlotSaved i s ∨ t.stack[i]? = some slot)
    (hlen : s.cells.length ≤ t.cells.length)
    (hcells : ∀ a v, s.cells[a]? = some v → CellSaved a s ∨ t.cells[a]? = some v) :
    Does o s t where
  config := hconfig
  advance h := ⟨⟨watchdogLimit_congr hconfig ▸ h.limit, hticks ▸ h.ticks⟩, .inl ⟨hticks, hchunks⟩⟩
  journal _ h := h.mono hcp hslots hlen hcells
  safe := hsafe

/-- An operation that only touches other parts of the machine. -/
theorem still (hsafe : o ≠ some .panic)
    (hconfig : t.outer.budget.config = s.outer.budget.config)
    (hticks : t.watchdogTicks = s.watchdogTicks) (hchunks : t.chunks <:+ s.chunks)
    (hcp : t.replStackCheckpoint = s.replStackCheckpoint) (hstack : t.stack = s.stack)
    (hcells : t.cells = s.cells) : Does o s t :=
  quiet hsafe hconfig hticks hchunks hcp (fun _ _ h => .inr (hstack ▸ h))
    (Nat.le_of_eq (by rw [hcells])) fun _ _ h => .inr (hcells ▸ h)

theorem refl (hsafe : o ≠ some .panic) : Does o s s :=
  still hsafe rfl rfl (List.suffix_refl _) rfl rfl rfl

theorem trans (h : Does none s t) (h' : Does o t u) : Does o s u where
  config := h'.config.trans h.config
  advance hs := by
    have hsame := watchdogLimit_congr h.config
    obtain ⟨ht, hst⟩ := h.advance hs
    obtain ⟨hu, htu⟩ := h'.advance ht
    refine ⟨hu, ?_⟩
    rcases hst with ⟨hticks, hchunks⟩ | ⟨hlt, hle⟩
    · rcases htu with ⟨hticks', hchunks'⟩ | ⟨hlt', hle'⟩
      · exact .inl ⟨hticks'.trans hticks, hchunks'.trans hchunks⟩
      · exact .inr ⟨hticks ▸ hlt', hsame ▸ hle'⟩
    · have hle : t.watchdogTicks ≤ Op.watchdogLimit s := hle.resolve_right nofun
      rcases htu with ⟨hticks', -⟩ | ⟨hlt', hle'⟩
      · exact .inr ⟨hticks' ▸ hlt, .inl (hticks' ▸ hle)⟩
      · exact .inr ⟨Nat.lt_trans hlt hlt', hsame ▸ hle'⟩
  journal before hj := h'.journal before (h.journal before hj)
  safe := h'.safe

/-- A stop that can be caught came before the watchdog reached its limit. -/
theorem caught {stop : VmStop} {e : TsumugiError} (h : Does (some stop) s t)
    (he : stop.error? = some e) (hc : ErrorKind.isUncatchable e.kind = false) :
    Does none s t where
  config := h.config
  advance hs := by
    refine (h.advance hs).imp_right fun ha => ha.imp_right fun ⟨hlt, hle⟩ =>
      ⟨hlt, .inl (hle.resolve_right ?_)⟩
    rintro ⟨e', hstop, hkind⟩
    cases hstop
    cases he
    rw [hc] at hkind
    cases hkind
  journal := h.journal
  safe := nofun

/-- A tick that comes after other operations. -/
theorem ticked (h : Does none s t) (hs : Paced s) (ht : Ticked o t u) : Ticked o s u := by
  have hsame := watchdogLimit_congr h.config
  rcases (h.advance hs).2 with ⟨hticks, -⟩ | ⟨hlt, -⟩
  · exact ⟨hticks ▸ ht.1, hsame ▸ ht.2⟩
  · exact ⟨Nat.lt_trans hlt ht.1, hsame ▸ ht.2⟩

end Does

/-- The contract of every operation. -/
def conduct : Proc.Contract (Vm W) VmStop where
  rel := Does
  refl _ := .refl nofun
  trans := Does.trans

/-! ## Operations that keep the journal and the watchdog as they are -/

namespace Op

variable {α β : Type} (natives : Natives W)

theorem meets_raise (e : TsumugiError) : Meets conduct (raise e : Op W α) :=
  Proc.meets_stop fun _ => .refl nofun

theorem meets_internalError (line : Nat) (message : String) :
    Meets conduct (internalError line message : Op W α) :=
  Proc.meets_stop fun _ => .refl nofun

theorem meets_check (r : Except TsumugiError α) : Meets conduct (check r : Op W α) := by
  cases r with
  | ok a => exact Proc.meets_pure a
  | error e => exact meets_raise e

theorem meets_expect (o : Option α) (line : Nat) (message : String) :
    Meets conduct (expect o line message : Op W α) := by
  cases o with
  | some a => exact Proc.meets_pure a
  | none => exact meets_internalError line message

/-- Work outside of the machine that keeps the limits. -/
theorem meets_host {m : Host W α} (hm : ∀ o, (m.run o).2.budget.config = o.budget.config)
    (line : Nat) : Meets conduct (host m line) := by
  intro s
  have hconfig := hm s.outer
  rcases h : m.run s.outer with ⟨e | a, o⟩ <;> rw [h] at hconfig <;> simp only [host, h]
  · exact .still nofun hconfig rfl (List.suffix_refl _) rfl rfl rfl
  · exact .still nofun hconfig rfl (List.suffix_refl _) rfl rfl rfl

theorem meets_native {m : Proc (Outer W) TsumugiError α}
    (hm : ∀ o, (m.run o).2.budget.config = o.budget.config) : Meets conduct (native m) := by
  intro s
  have hconfig := hm s.outer
  rcases h : m.run s.outer with ⟨e | a, o⟩ <;> rw [h] at hconfig <;> simp only [native, h]
  · exact .still nofun hconfig rfl (List.suffix_refl _) rfl rfl rfl
  · exact .still nofun hconfig rfl (List.suffix_refl _) rfl rfl rfl

theorem meets_onBudget {m : Charge α} (hm : m.Meets Budget.limited) (line : Nat) :
    Meets conduct (host (onBudget m : Host W α) line) :=
  meets_host (m := onBudget m) (fun o => hm o.budget) line

/-- The frugal operations among them. -/
theorem meets_frugal {m : Host W α} (hm : m.Meets (frugal W ControlStop)) (line : Nat) :
    Meets conduct (host m line) :=
  meets_host (fun o => (hm o).1) line

theorem meets_frameOr (line : Nat) (message : String) :
    Meets conduct (frameOr line message : Op W CallFrame) :=
  Proc.meets_bind (Proc.meets_gets _) fun _ => meets_expect _ _ _

theorem meets_frame (line : Nat) : Meets conduct (frame line : Op W CallFrame) :=
  meets_frameOr _ _

theorem meets_onFrame {f : CallFrame → CallFrame} (hf : ∀ x, (f x).chunk = x.chunk) :
    Meets conduct (onFrame f : Op W Unit) := by
  refine Proc.meets_modify fun s => ?_
  cases hfr : s.frames with
  | nil => exact .refl nofun
  | cons top rest =>
    refine .still nofun rfl rfl ?_ rfl rfl rfl
    show (f top :: rest).map (·.chunk) <:+ s.frames.map (·.chunk)
    rw [hfr, List.map_cons, hf]
    exact List.suffix_refl _

theorem stack_onFrame (f : CallFrame → CallFrame) (s : Vm W) :
    ((onFrame f : Op W Unit).run s).2.stack = s.stack := by
  simp only [onFrame, Proc.modify_run]
  split <;> rfl

theorem meets_setIp (target line : Nat) : Meets conduct (setIp target line : Op W Unit) :=
  Proc.meets_bind (meets_frame line) fun _ => meets_onFrame fun _ => rfl

theorem meets_push (v : Value) : Meets conduct (push v : Op W Unit) :=
  Proc.meets_modify fun _ => .quiet nofun rfl rfl (List.suffix_refl _) rfl
    (fun _ _ hi => .inr ((List.getElem?_append_left
      (List.getElem?_eq_some_iff.mp hi).1).trans hi)) (Nat.le_refl _) fun _ _ h => .inr h

theorem meets_surfacePendingHeapStop (line : Nat) :
    Meets conduct (surfacePendingHeapStop line : Op W Unit) := by
  refine Proc.meets_bind (Proc.meets_gets _) fun s => ?_
  cases s.pendingHeapStop with
  | none => exact Proc.meets_pure ()
  | some stop =>
    refine Proc.meets_bind (Proc.meets_modify fun s => ?_) fun _ => meets_raise _
    exact .still nofun rfl rfl (List.suffix_refl _) rfl rfl rfl

theorem meets_countStep (line : Nat) : Meets conduct (countStep line : Op W Unit) :=
  Proc.meets_bind (meets_surfacePendingHeapStop line) fun _ =>
    meets_onBudget (Budget.LedgerLemmas.limited_chargeAll _ _) line

theorem meets_checkCollection (size line : Nat) :
    Meets conduct (checkCollection size line : Op W Unit) :=
  meets_onBudget (Budget.LedgerLemmas.limited_checkCollectionElements _ _) line

theorem meets_checkCallDepth (line : Nat) : Meets conduct (checkCallDepth line : Op W Unit) :=
  Proc.meets_bind (Proc.meets_gets _) fun _ =>
    Proc.meets_ite (meets_raise _) (Proc.meets_pure ())

theorem meets_requireStackLen (count line : Nat) :
    Meets conduct (requireStackLen count line : Op W Unit) :=
  Proc.meets_bind (Proc.meets_gets _) fun _ =>
    Proc.meets_ite (meets_internalError _ _) (Proc.meets_pure ())

theorem meets_peek (line : Nat) (message : String) :
    Meets conduct (peek line message : Op W Value) := by
  refine Proc.meets_bind (Proc.meets_gets _) fun s => ?_
  cases s.stack.getLast? with
  | some slot => exact Proc.meets_pure _
  | none => exact meets_internalError _ _

/-! ## The journal -/

/-- A checkpoint only touches the journal and what lies outside of the machine. -/
structure Notes (s t : Vm W) : Prop where
  eq : t = { s with
    outer := t.outer, pendingHeapStop := t.pendingHeapStop,
    replStackCheckpoint := t.replStackCheckpoint }
  config : t.outer.budget.config = s.outer.budget.config
  fuel : s.outer.budget.committed.fuel ≤ t.outer.budget.committed.fuel
  saved : ∀ i, SlotSaved i s → SlotSaved i t
  journal : ∀ before, Journaled before s → Journaled before t

namespace Notes

variable {s t u : Vm W}

theorem refl : Notes s s := ⟨rfl, rfl, Nat.le_refl _, fun _ h => h, fun _ h => h⟩

theorem trans (h : Notes s t) (h' : Notes t u) : Notes s u where
  eq := by rw [h'.eq, h.eq]
  config := h'.config.trans h.config
  fuel := Nat.le_trans h.fuel h'.fuel
  saved i hi := h'.saved i (h.saved i hi)
  journal before hj := h'.journal before (h.journal before hj)

theorem stack (h : Notes s t) : t.stack = s.stack := by rw [h.eq]

theorem frames (h : Notes s t) : t.frames = s.frames := by rw [h.eq]

theorem does (h : Notes s t) : Does none s t where
  config := h.config
  advance hs :=
    have hticks : t.watchdogTicks = s.watchdogTicks := by rw [h.eq]
    ⟨⟨watchdogLimit_congr h.config ▸ hs.limit, hticks ▸ hs.ticks⟩,
      .inl ⟨hticks, by rw [Vm.chunks, h.frames]; exact List.suffix_refl _⟩⟩
  journal := h.journal
  safe := nofun

end Notes

/-- The state after `charge_journal_entry`. -/
theorem chargeJournalEntry_run (s : Vm W) : ∃ o p,
    (chargeJournalEntry natives).run s = (.ok (), { s with outer := o, pendingHeapStop := p }) ∧
    o.budget.config = s.outer.budget.config ∧
    s.outer.budget.committed.fuel ≤ o.budget.committed.fuel := by
  have hfrugal := natives.frugal_journalEntry s.outer
  rcases h : natives.journalEntry.run s.outer with ⟨e | ⟨⟩, o⟩ <;> rw [h] at hfrugal
  · exact ⟨o, s.pendingHeapStop <|> some e, by simp only [chargeJournalEntry, h], hfrugal⟩
  · exact ⟨o, s.pendingHeapStop, by simp only [chargeJournalEntry, h], hfrugal⟩

/-- A journal entry that is found has been made. -/
theorem exists_of_lookup {β : Type} {entries : List (Nat × β)} {i : Nat}
    (h : (entries.lookup i).isSome = true) : ∃ x, (i, x) ∈ entries := by
  obtain ⟨⟨j, x⟩, hm, heq⟩ := List.lookup_isSome_iff.mp h
  exact ⟨x, (beq_iff_eq.mp heq) ▸ hm⟩

/-- A journal entry that is not found has not been made. -/
theorem not_mem_of_lookup {β : Type} {entries : List (Nat × β)} {i : Nat}
    (h : (entries.lookup i).isNone = true) (x : β) : (i, x) ∉ entries := fun hm => by
  have hne := List.lookup_eq_none_iff.mp (Option.isNone_iff_eq_none.mp h) _ hm
  exact absurd hne (by simp)

theorem checkpointStackSlot_run (index : Nat) (s : Vm W) : ∃ t,
    (checkpointStackSlot natives index).run s = (.ok (), t) ∧ Notes s t ∧
    (index < s.stack.length → SlotSaved index t) := by
  unfold checkpointStackSlot
  cases hcp : s.replStackCheckpoint with
  | none =>
    refine ⟨s, by simp only [Proc.bind_run, Proc.gets_run, id, hcp, Proc.pure_run], .refl, ?_⟩
    intro _ cp hm
    rw [hcp] at hm
    cases hm
  | some cp =>
    by_cases hc : index < cp.stackLen ∧ (cp.originals.lookup index).isNone
    · rcases hslot : s.stack[index]? with _ | slot
      · refine ⟨s, by simp only [Proc.bind_run, Proc.gets_run, id, hcp, if_pos hc, hslot,
          Proc.pure_run], .refl, fun hlt => ?_⟩
        rw [List.getElem?_eq_none_iff] at hslot
        exact absurd hlt (Nat.not_lt.mpr hslot)
      · obtain ⟨o, p, hrun, hconfig, hfuel⟩ := chargeJournalEntry_run natives s
        let cp' : ReplStackCheckpoint := { cp with originals := (index, slot) :: cp.originals }
        let t : Vm W := { s with outer := o, pendingHeapStop := p, replStackCheckpoint := cp' }
        have heq : t.replStackCheckpoint = some cp' := rfl
        refine ⟨t, ?_, ⟨rfl, hconfig, hfuel, fun i hi => ?_, fun before hj => ?_⟩, ?_⟩
        · simp only [Proc.bind_run, Proc.gets_run, id, hcp, if_pos hc, hslot, hrun, onCheckpoint,
            Proc.modify_run, Option.map_some, t, cp']
        · intro cp'' hm hlt
          cases hm
          obtain ⟨x, hx⟩ := hi cp hcp hlt
          exact ⟨x, List.mem_cons_of_mem _ hx⟩
        · obtain ⟨cp₀, hm, hcov⟩ := hj
          rw [hcp] at hm
          cases hm
          refine ⟨cp', rfl, hcov.stackLen, fun e he => ?_, fun i slot' hi => ?_,
            hcov.cellsLen, hcov.cellOriginals, hcov.cells⟩
          · rcases List.mem_cons.mp he with rfl | he
            · -- what is saved now is still what it was
              have hlt : index < before.stack.length := hcov.stackLen ▸ hc.1
              have hbefore := List.getElem?_eq_getElem hlt
              rcases hcov.slots index _ hbefore with ⟨x, hx⟩ | hs
              · exact absurd hx (not_mem_of_lookup hc.2 x)
              · rw [hbefore, ← hs, hslot]
            · exact hcov.originals e he
          · exact (hcov.slots i slot' hi).imp_left fun ⟨x, hx⟩ => ⟨x, List.mem_cons_of_mem _ hx⟩
        · intro _ cp'' hm _
          cases hm
          exact ⟨slot, List.mem_cons_self⟩
    · refine ⟨s, by simp only [Proc.bind_run, Proc.gets_run, id, hcp, if_neg hc, Proc.pure_run],
        .refl, fun _ cp' hm hlt => ?_⟩
      rw [hcp] at hm
      cases hm
      have hfound : ¬ (cp.originals.lookup index).isNone = true := fun h => hc ⟨hlt, h⟩
      exact exists_of_lookup (by simpa using hfound)

theorem checkpointCell_run (a : Addr) (s : Vm W) : ∃ t,
    (checkpointCell natives a).run s = (.ok (), t) ∧ Notes s t ∧ CellSaved a t := by
  unfold checkpointCell
  cases hcp : s.replStackCheckpoint with
  | none =>
    refine ⟨s, by simp only [Proc.bind_run, Proc.gets_run, id, hcp, Proc.pure_run], .refl, ?_⟩
    intro cp hm
    rw [hcp] at hm
    cases hm
  | some cp =>
    by_cases hc : (cp.cellOriginals.lookup a).isSome
    · refine ⟨s, by simp only [Proc.bind_run, Proc.gets_run, id, hcp, if_pos hc, Proc.pure_run],
        .refl, fun cp' hm => ?_⟩
      rw [hcp] at hm
      cases hm
      exact exists_of_lookup hc
    · obtain ⟨o, p, hrun, hconfig, hfuel⟩ := chargeJournalEntry_run natives s
      let cp' : ReplStackCheckpoint :=
        { cp with cellOriginals := (a, readCell s a) :: cp.cellOriginals }
      let t : Vm W := { s with outer := o, pendingHeapStop := p, replStackCheckpoint := cp' }
      refine ⟨t, ?_, ⟨rfl, hconfig, hfuel, fun i hi => ?_, fun before hj => ?_⟩, ?_⟩
      · simp only [Proc.bind_run, Proc.gets_run, id, hcp, if_neg hc, hrun, onCheckpoint,
          Proc.modify_run, Option.map_some, t, cp']
      · intro cp'' hm hlt
        cases hm
        exact hi cp hcp hlt
      · obtain ⟨cp₀, hm, hcov⟩ := hj
        rw [hcp] at hm
        cases hm
        refine ⟨cp', rfl, hcov.stackLen, hcov.originals, hcov.slots, hcov.cellsLen, fun e he v hv => ?_,
          fun b v hb => ?_⟩
        · rcases List.mem_cons.mp he with rfl | he
          · -- what is saved now is still what it was
            rcases hcov.cells a v hv with ⟨x, hx⟩ | hs
            · exact absurd hx (not_mem_of_lookup (by
              rw [Option.isNone_iff_eq_none, ← Option.not_isSome_iff_eq_none]; exact hc) x)
            · show readCell s a = v
              rw [readCell, List.getD_eq_getElem?_getD, hs]
              rfl
          · exact hcov.cellOriginals e he v hv
        · exact (hcov.cells b v hb).imp_left fun ⟨x, hx⟩ => ⟨x, List.mem_cons_of_mem _ hx⟩
      · intro cp'' hm
        cases hm
        exact ⟨_, List.mem_cons_self⟩

theorem meets_checkpointStackSlot (index : Nat) :
    Meets conduct (checkpointStackSlot natives index) := fun s => by
  obtain ⟨t, hrun, hnotes, -⟩ := checkpointStackSlot_run natives index s
  rw [hrun]
  exact hnotes.does

theorem meets_checkpointCell (a : Addr) : Meets conduct (checkpointCell natives a) := fun s => by
  obtain ⟨t, hrun, hnotes, -⟩ := checkpointCell_run natives a s
  rw [hrun]
  exact hnotes.does

theorem checkpointSlots_run (positions : List Nat) (s : Vm W) : ∃ t,
    (checkpointSlots natives positions).run s = (.ok (), t) ∧ Notes s t ∧
    ∀ i ∈ positions, i < s.stack.length → SlotSaved i t := by
  induction positions generalizing s with
  | nil => exact ⟨s, rfl, .refl, fun _ hm => by cases hm⟩
  | cons i rest ih =>
    obtain ⟨t, hrun, hnotes, hsaved⟩ := checkpointStackSlot_run natives i s
    obtain ⟨u, hrun', hnotes', hsaved'⟩ := ih t
    refine ⟨u, (Proc.bind_run_ok hrun).trans hrun', hnotes.trans hnotes', fun j hj hlt => ?_⟩
    rcases List.mem_cons.mp hj with rfl | hj
    · exact hnotes'.saved _ (hsaved hlt)
    · exact hsaved' j hj (hnotes.stack ▸ hlt)

theorem checkpointStackRange_run (start stop : Nat) (s : Vm W) : ∃ t,
    (checkpointStackRange natives start stop).run s = (.ok (), t) ∧ Notes s t ∧
    ∀ i, start ≤ i → i < stop → i < s.stack.length → SlotSaved i t := by
  obtain ⟨t, hrun, hnotes, hsaved⟩ := checkpointSlots_run natives
    (List.range' (min start (min stop s.stack.length))
      (min stop s.stack.length - min start (min stop s.stack.length))) s
  refine ⟨t, hrun, hnotes, fun i hi hstop hlt => hsaved i ?_ hlt⟩
  rw [List.mem_range'_1]
  omega

theorem meets_checkpointStackRange (start stop : Nat) :
    Meets conduct (checkpointStackRange natives start stop) := fun s => by
  obtain ⟨t, hrun, hnotes, -⟩ := checkpointStackRange_run natives start stop s
  rw [hrun]
  exact hnotes.does

/-! ## The stack -/

/-- The stack is `S`, and it may be written at the positions in `X`. -/
def Held (S : List Slot) (X : Nat → Prop) (s : Vm W) : Prop :=
  s.stack = S ∧ ∀ i, X i → SlotSaved i s

theorem Held.mono {S : List Slot} {X Y : Nat → Prop} {s : Vm W} (h : Held S X s)
    (hXY : ∀ i, Y i → X i) : Held S Y s := ⟨h.1, fun i hi => h.2 i (hXY i hi)⟩

/-- Entries may be dropped that are saved. -/
theorem meetsFrom_take {S : List Slot} {X : Nat → Prop} {n : Nat}
    (hX : ∀ i, n ≤ i → i < S.length → X i) :
    MeetsFrom (Held S X) conduct
      (Proc.modify fun s => { s with stack := s.stack.take n } : Op W Unit) := by
  rintro s ⟨rfl, hsaved⟩
  refine .quiet nofun rfl rfl (List.suffix_refl _) rfl (fun i slot hi => ?_) (Nat.le_refl _)
    fun _ _ h => .inr h
  by_cases hlt : i < n
  · exact .inr ((List.getElem?_take_of_lt hlt).trans hi)
  · exact .inl (hsaved i (hX i (Nat.not_lt.mp hlt) (List.getElem?_eq_some_iff.mp hi).1))

/-- The last entry may be dropped when it is saved. -/
theorem meetsFrom_dropLast {S : List Slot} {X : Nat → Prop} (hX : ∀ i, i + 1 = S.length → X i) :
    MeetsFrom (Held S X) conduct
      (Proc.modify fun s => { s with stack := s.stack.dropLast } : Op W Unit) := by
  rintro s ⟨rfl, hsaved⟩
  refine .quiet nofun rfl rfl (List.suffix_refl _) rfl (fun i slot hi => ?_) (Nat.le_refl _)
    fun _ _ h => .inr h
  have hlt := (List.getElem?_eq_some_iff.mp hi).1
  by_cases hlast : i + 1 = s.stack.length
  · exact .inl (hsaved i (hX i hlast))
  · refine .inr ?_
    show s.stack.dropLast[i]? = some slot
    rw [List.getElem?_dropLast, if_pos (by omega), hi]

/-- An entry may be overwritten that is saved. -/
theorem quiet_set {s : Vm W} {i : Nat} {slot : Slot} {o : Option VmStop} {outer : Outer W}
    (hsafe : o ≠ some .panic) (hconfig : outer.budget.config = s.outer.budget.config)
    (hsaved : SlotSaved i s) : Does o s { s with outer, stack := s.stack.set i slot } := by
  refine .quiet hsafe hconfig rfl (List.suffix_refl _) rfl (fun j x hj => ?_) (Nat.le_refl _)
    fun _ _ h => .inr h
  by_cases hij : i = j
  · exact .inl (hij ▸ hsaved)
  · exact .inr ((List.getElem?_set_ne hij).trans hj)

theorem meetsFrom_writeStack {S : List Slot} {X : Nat → Prop} {i : Nat} (v : Value)
    (hi : i < S.length) (hX : X i) : MeetsFrom (Held S X) conduct (writeStack i v : Op W Unit) := by
  rintro s ⟨rfl, hsaved⟩
  have hslot := List.getElem?_eq_getElem hi
  simp only [writeStack, hslot]
  exact quiet_set nofun rfl (hsaved i hX)

/-- Work in place keeps the limits. -/
def placeLimits : Proc.Contract (Value × Outer W) TsumugiError where
  rel _ s t := t.2.budget.config = s.2.budget.config
  refl _ := rfl
  trans h h' := h'.trans h

theorem meetsFrom_atStack {S : List Slot} {X : Nat → Prop} {i : Nat} {m : InPlace W Unit}
    (hm : m.Meets placeLimits) (hi : i < S.length) (hX : X i) :
    MeetsFrom (Held S X) conduct (atStack i m) := by
  rintro s ⟨rfl, hsaved⟩
  have hslot := List.getElem?_eq_getElem hi
  have hconfig := hm (s.stack[i].value, s.outer)
  rcases h : m.run (s.stack[i].value, s.outer) with ⟨e | ⟨⟩, v, o⟩ <;> rw [h] at hconfig <;>
    simp only [atStack, hslot, h]
  · exact quiet_set nofun hconfig (hsaved i hX)
  · exact quiet_set nofun hconfig (hsaved i hX)

/-- After a checkpoint the entry may be written. -/
theorem triple_checkpointStackSlot {S : List Slot} {i : Nat} (hi : i < S.length) :
    Triple (fun s => s.stack = S) (checkpointStackSlot natives i) fun _ => Held S (· = i) := by
  rintro s rfl a t hr
  obtain ⟨u, hrun, hnotes, hsaved⟩ := checkpointStackSlot_run natives i s
  rw [hrun] at hr
  cases hr
  exact ⟨hnotes.stack, fun j hj => hj ▸ hsaved hi⟩

/-- After a checkpoint of a range its entries may be written. -/
theorem triple_checkpointStackRange {S : List Slot} {start : Nat} :
    Triple (fun s => s.stack = S) (checkpointStackRange natives start S.length)
      fun _ => Held S fun i => start ≤ i ∧ i < S.length := by
  rintro s rfl a t hr
  obtain ⟨u, hrun, hnotes, hsaved⟩ := checkpointStackRange_run natives start s.stack.length s
  rw [hrun] at hr
  cases hr
  exact ⟨hnotes.stack, fun i ⟨hi, hlt⟩ => hsaved i hi hlt hlt⟩

/-- Work outside of the machine does not change what is held. -/
theorem keeps_held_host {S : List Slot} {X : Nat → Prop} (m : Host W α) (line : Nat) :
    Proc.Keeps (Held S X) (host m line) := by
  intro s hs
  rcases h : m.run s.outer with ⟨e | a, o⟩ <;> simp only [host, h] <;> exact hs

theorem keeps_held_check {S : List Slot} {X : Nat → Prop} (r : Except TsumugiError α) :
    Proc.Keeps (Held S X) (check r : Op W α) := by
  cases r with
  | ok a => exact Proc.keeps_pure a
  | error e => exact Proc.keeps_stop _

/-- The state after `truncate_stack`. -/
theorem truncateStack_run (len : Nat) (s : Vm W) : ∃ t,
    (truncateStack natives len).run s = (.ok (), { t with stack := t.stack.take len }) ∧
    Notes s t := by
  unfold truncateStack
  rw [Proc.bind_run_ok (Proc.gets_run _ _)]
  by_cases h : len < s.stack.length
  · obtain ⟨t, hrun, hnotes, -⟩ := checkpointStackRange_run natives len s.stack.length s
    refine ⟨t, ?_, hnotes⟩
    rw [id, Proc.when, if_pos h, Proc.bind_run_ok hrun]
    rfl
  · refine ⟨s, ?_, .refl⟩
    rw [id, Proc.when, if_neg h]
    rfl

theorem meets_truncateStack (len : Nat) : Meets conduct (truncateStack natives len) := by
  refine Proc.meets_read fun s => ?_
  refine Proc.meetsFrom_bind (Q := fun _ => Held s.stack fun i => len ≤ i ∧ i < s.stack.length)
    ?_ ?_ fun _ => meetsFrom_take fun i hi hlt => ⟨hi, hlt⟩
  · exact (Proc.meets_when (meets_checkpointStackRange natives _ _)).meetsFrom
  · refine Proc.triple_when (fun hlt => ?_) fun hlt t ht => ?_
    · exact (triple_checkpointStackRange natives).conseq (fun t ht => by rw [ht]) fun _ _ h => h
    · exact ⟨by rw [ht], fun i hi => absurd (Nat.lt_of_le_of_lt hi.1 hi.2) hlt⟩

/-- The checkpoint of the top of the stack, if there is one. -/
theorem triple_checkpointTop {S : List Slot} :
    Triple (fun s => s.stack = S)
      (Proc.when (0 < S.length) (checkpointStackSlot natives (S.length - 1)))
      fun _ => Held S (· + 1 = S.length) := by
  refine Proc.triple_when (fun hlt => ?_) fun hlt t ht => ⟨ht, fun i hi => ?_⟩
  · exact (triple_checkpointStackSlot natives (Nat.sub_lt hlt Nat.one_pos)).conseq
      (fun _ h => h) fun _ _ h => h.mono fun i hi => by omega
  · omega

theorem meets_pop (line : Nat) : Meets conduct (pop natives line) := by
  refine Proc.meets_read fun s => ?_
  refine Proc.meetsFrom_bind (Q := fun _ => Held s.stack (· + 1 = s.stack.length)) ?_
    ((triple_checkpointTop natives).conseq (fun t ht => by rw [ht]) fun _ _ h => h) fun _ => ?_
  · exact (Proc.meets_when (meets_checkpointStackSlot natives _)).meetsFrom
  · cases s.stack.getLast? with
    | none => exact (meets_internalError _ _).meetsFrom
    | some slot =>
      exact Proc.meetsFrom_bind (meetsFrom_dropLast fun _ hi => hi)
        (fun _ _ _ _ _ => trivial) fun _ => (Proc.meets_pure _).meetsFrom

theorem meets_popMany (line n : Nat) : Meets conduct (popMany natives line n) := by
  induction n with
  | zero => exact Proc.meets_pure _
  | succ n ih =>
    refine Proc.meets_bind (meets_pop natives line) fun v => ?_
    exact Proc.meets_bind ih fun rest => Proc.meets_pure _

/-! ## Cells -/

/-- A cell may be overwritten that is saved. -/
theorem quiet_setCell {s : Vm W} {a : Addr} {v : Value} {o : Option VmStop} {outer : Outer W}
    (hsafe : o ≠ some .panic) (hconfig : outer.budget.config = s.outer.budget.config)
    (hsaved : CellSaved a s) : Does o s { s with outer, cells := s.cells.set a v } := by
  refine .quiet hsafe hconfig rfl (List.suffix_refl _) rfl (fun _ _ h => .inr h)
    (Nat.le_of_eq (List.length_set ..).symm) fun b x hb => ?_
  by_cases hab : a = b
  · exact .inl (hab ▸ hsaved)
  · exact .inr ((List.getElem?_set_ne hab).trans hb)

theorem triple_checkpointCell {P : Vm W → Prop} (a : Addr) :
    Triple P (checkpointCell natives a) fun _ => CellSaved a := by
  intro s _ r t hr
  obtain ⟨u, hrun, -, hsaved⟩ := checkpointCell_run natives a s
  rw [hrun] at hr
  cases hr
  exact hsaved

theorem meetsFrom_atCell {a : Addr} {m : InPlace W Unit} (hm : m.Meets placeLimits) :
    MeetsFrom (CellSaved a) conduct (atCell a m) := by
  intro s hsaved
  have hconfig := hm (readCell s a, s.outer)
  rcases h : m.run (readCell s a, s.outer) with ⟨e | ⟨⟩, v, o⟩ <;> rw [h] at hconfig <;>
    simp only [atCell, h]
  · exact quiet_setCell nofun hconfig hsaved
  · exact quiet_setCell nofun hconfig hsaved

theorem meets_assignCell (a : Addr) (v : Value) : Meets conduct (assignCell natives a v) := by
  have hwrite : MeetsFrom (CellSaved a) conduct (writeCell a v : Op W Unit) :=
    fun s hs => quiet_setCell (o := none) nofun rfl hs
  exact fun s => Proc.meetsFrom_bind (P := fun _ => True) (meets_checkpointCell natives a).meetsFrom
    (triple_checkpointCell natives a) (fun _ => hwrite) s trivial

/-! ## The watchdog -/

/-- A tick stops when the counter passes the limit. -/
theorem watchdogTick_run (line : Nat) (s : Vm W) :
    (watchdogTick line).run s =
      (if watchdogLimit s < satAdd s.watchdogTicks 1 then
        .error (.watchdog (stepLimit line s.outer.budget.config.totalFuel)) else .ok (),
        { s with watchdogTicks := satAdd s.watchdogTicks 1 }) := by
  let t : Vm W := { s with watchdogTicks := satAdd s.watchdogTicks 1 }
  have hsame : watchdogLimit t = watchdogLimit s := rfl
  unfold watchdogTick
  by_cases h : watchdogLimit s < satAdd s.watchdogTicks 1
  · simp only [Proc.bind_run, Proc.modify_run, Proc.gets_run, id]
    rw [if_pos h, if_pos (hsame ▸ h)]
    rfl
  · simp only [Proc.bind_run, Proc.modify_run, Proc.gets_run, id]
    rw [if_neg h, if_neg (hsame ▸ h)]
    rfl

/-- The counter is exact until it passes a limit that it can pass. -/
theorem satAdd_of_not_lt {s : Vm W} (hs : Paced s)
    (h : ¬ watchdogLimit s < satAdd s.watchdogTicks 1) :
    satAdd s.watchdogTicks 1 = s.watchdogTicks + 1 := by
  have := hs.limit
  unfold satAdd at h ⊢
  omega

/-- What a tick does, and that it is one. -/
theorem ends_watchdogTick (line : Nat) :
    Proc.Ends (fun r s t => Does (Proc.stopOf r) s t ∧ (r = .ok () → Paced s → Ticked none s t))
      (watchdogTick line : Op W Unit) := by
  intro s
  rw [watchdogTick_run]
  have hle := satAdd_le s.watchdogTicks 1
  by_cases h : watchdogLimit s < satAdd s.watchdogTicks 1
  · rw [if_pos h]
    refine ⟨⟨rfl, fun hs => ⟨⟨hs.limit, hle⟩, ?_⟩, fun _ hj => hj.congr rfl rfl rfl, nofun⟩, nofun⟩
    -- a counter at the end of its range does not move
    by_cases hmax : s.watchdogTicks = maxU64
    · refine .inl ⟨?_, List.suffix_refl _⟩
      show satAdd s.watchdogTicks 1 = s.watchdogTicks
      unfold satAdd
      omega
    · refine .inr ⟨?_, .inr ⟨_, rfl, rfl⟩⟩
      show s.watchdogTicks < satAdd s.watchdogTicks 1
      have := hs.ticks
      unfold satAdd
      omega
  · rw [if_neg h]
    have hticked : Paced s → Ticked none s { s with watchdogTicks := satAdd s.watchdogTicks 1 } :=
      fun hs => ⟨by
        show s.watchdogTicks < satAdd s.watchdogTicks 1
        rw [satAdd_of_not_lt hs h]
        exact Nat.lt_succ_self _, .inl (Nat.not_lt.mp h)⟩
    exact ⟨⟨rfl, fun hs => ⟨⟨hs.limit, hle⟩, .inr (hticked hs)⟩,
      fun _ hj => hj.congr rfl rfl rfl, nofun⟩,
      fun _ => hticked⟩

theorem meets_watchdogTick (line : Nat) : Meets conduct (watchdogTick line : Op W Unit) :=
  fun s => (ends_watchdogTick line s).1

/-- A frame is added with a tick. -/
theorem ends_pushCallFrame (f : CallFrame) (line : Nat) :
    Proc.Ends (fun r s t => Does (Proc.stopOf r) s t ∧ (r = .ok () → Paced s → Ticked none s t))
      (pushCallFrame f line : Op W Unit) := by
  intro s
  obtain ⟨hdoes, hticked⟩ := ends_watchdogTick line s
  unfold pushCallFrame
  rcases h : (watchdogTick line).run s with ⟨e | ⟨⟩, t⟩ <;> rw [h] at hdoes hticked
  · rw [Proc.bind_run_error h]
    exact ⟨hdoes, nofun⟩
  · rw [Proc.bind_run_ok h]
    have hticked := hticked rfl
    refine ⟨⟨hdoes.config, fun hs => ⟨?_, .inr (hticked hs)⟩, fun before hj =>
      (hdoes.journal before hj).congr rfl rfl rfl, nofun⟩, fun _ => hticked⟩
    obtain ⟨hlimit, hticks⟩ := (hdoes.advance hs).1
    exact ⟨hlimit, hticks⟩

theorem meets_pushCallFrame (f : CallFrame) (line : Nat) :
    Meets conduct (pushCallFrame f line : Op W Unit) :=
  fun s => (ends_pushCallFrame f line s).1

/-! ## Variables -/

theorem meets_constant (index line : Nat) : Meets conduct (constant index line : Op W Value) :=
  Proc.meets_bind (meets_frame line) fun _ => meets_expect _ _ _

theorem meets_upvalueCell (index line : Nat) : Meets conduct (upvalueCell index line : Op W Addr) :=
  Proc.meets_bind (meets_frame line) fun _ => meets_expect _ _ _

theorem meets_localStackIndex (base slot line : Nat) :
    Meets conduct (localStackIndex base slot line : Op W Nat) :=
  Proc.meets_bind (Proc.meets_gets _) fun _ =>
    Proc.meets_ite (meets_internalError _ _) (Proc.meets_pure _)

theorem meets_readSlot (f : CallFrame) (slot line : Nat) (message : String) :
    Meets conduct (readSlot f slot line message : Op W Value) := by
  refine Proc.meets_bind (Proc.meets_gets _) fun s => ?_
  cases cellOf f slot with
  | some a => exact Proc.meets_pure _
  | none =>
    dsimp only
    cases s.stack[f.base + slot]? with
    | some entry => exact Proc.meets_pure _
    | none => exact meets_internalError _ _

theorem meets_getLocal (slot line : Nat) : Meets conduct (getLocal slot line : Op W Value) :=
  Proc.meets_bind (meets_frame line) fun _ => meets_readSlot _ _ _ _

theorem meets_withLocalRef (slot line : Nat) :
    Meets conduct (withLocalRef slot line : Op W Value) :=
  Proc.meets_bind (meets_frameOr _ _) fun _ => meets_readSlot _ _ _ _

/-- A position that has been found is in the stack. -/
theorem triple_localStackIndex {S : List Slot} (base slot line : Nat) :
    Triple (fun s => s.stack = S) (localStackIndex base slot line : Op W Nat)
      fun index s => s.stack = S ∧ index < S.length := by
  rintro s rfl index t hr
  unfold localStackIndex at hr
  simp only [Proc.bind_run, Proc.gets_run, id] at hr
  split at hr
  · cases hr
  · cases hr
    exact ⟨rfl, Nat.not_le.mp ‹_›⟩

/-- The checkpoint of an entry and the write. -/
theorem meetsFrom_overwrite {S : List Slot} {index : Nat} (v : Value) (hi : index < S.length) :
    MeetsFrom (fun s => s.stack = S) conduct (do
      checkpointStackSlot natives index
      writeStack index v : Op W Unit) :=
  Proc.meetsFrom_bind (meets_checkpointStackSlot natives index).meetsFrom
    (triple_checkpointStackSlot natives hi) fun _ => meetsFrom_writeStack v hi rfl

theorem meets_setLocal (slot : Nat) (v : Value) (line : Nat) :
    Meets conduct (setLocal natives slot v line) := by
  refine Proc.meets_bind (meets_frame line) fun f => ?_
  cases cellOf f slot with
  | some a => exact meets_assignCell natives a v
  | none =>
    intro s
    refine Proc.meetsFrom_bind (P := (·.stack = s.stack))
      (meets_localStackIndex f.base slot line).meetsFrom (triple_localStackIndex f.base slot line)
      (fun index t ht => ?_) s rfl
    exact meetsFrom_overwrite natives v ht.2 t ht.1

theorem meets_ensureLocalCell (slot line : Nat) :
    Meets conduct (ensureLocalCell natives slot line) := by
  refine Proc.meets_bind (meets_frame line) fun f => fun s => ?_
  refine Proc.meetsFrom_bind (P := (·.stack = s.stack))
    (meets_localStackIndex f.base slot line).meetsFrom (triple_localStackIndex f.base slot line)
    (fun index => ?_) s rfl
  refine Proc.meetsFrom_bind (Q := fun _ t => t.stack = s.stack ∧ index < s.stack.length)
    (Proc.Meets.meetsFrom ?_) (fun t ht a u hr => ⟨?_, ht.2⟩) fun _ => ?_
  · exact meets_onFrame fun _ => rfl
  · exact (hr ▸ stack_onFrame _ t :).trans ht.1
  cases cellOf f slot with
  | some a => exact (Proc.meets_pure _).meetsFrom
  | none =>
    refine Proc.meetsFrom_read fun t ht => Proc.Meets.meetsFrom ?_
    refine Proc.meets_bind (meets_frugal natives.frugal_newCell line) fun _ => ?_
    have hslot : t.stack[index]? = some s.stack[index] := by
      rw [ht.1, List.getElem?_eq_getElem ht.2]
    simp only [hslot]
    refine Proc.meets_bind (Proc.meets_modify fun u => ?_) fun _ => ?_
    · exact .quiet nofun rfl rfl (List.suffix_refl _) rfl (fun _ _ h => .inr h)
        (by simp) fun _ _ h =>
        .inr ((List.getElem?_append_left (List.getElem?_eq_some_iff.mp h).1).trans h)
    · exact Proc.meets_bind (meets_onFrame fun _ => rfl) fun _ => Proc.meets_pure _

theorem meets_globalSlot (name : String) (line : Nat) (undefined : TsumugiError)
    (message : String) :
    Meets conduct (globalSlot name line undefined message : Op W (CallFrame × Nat)) := by
  refine Proc.meets_bind (Proc.meets_gets _) fun s => ?_
  cases s.globals.lookup name with
  | none => exact meets_raise _
  | some slot => exact Proc.meets_bind (meets_expect _ _ _) fun _ => Proc.meets_pure _

theorem meets_getGlobal (name : String) (line : Nat) :
    Meets conduct (getGlobal name line : Op W Value) :=
  Proc.meets_bind (meets_globalSlot _ _ _ _) fun _ => meets_readSlot _ _ _ _

theorem meets_requireGlobal (name : String) (line : Nat) :
    Meets conduct (requireGlobal name line : Op W Unit) :=
  Proc.meets_bind (Proc.meets_gets _) fun _ =>
    Proc.meets_ite (Proc.meets_pure _) (meets_raise _)

/-- A checkpoint leaves the stack as it is. -/
theorem triple_stack_checkpointStackSlot {S : List Slot} (index : Nat) :
    Triple (fun s => s.stack = S) (checkpointStackSlot natives index) fun _ s => s.stack = S := by
  rintro s rfl a t hr
  obtain ⟨u, hrun, hnotes, -⟩ := checkpointStackSlot_run natives index s
  rw [hrun] at hr
  cases hr
  exact hnotes.stack

/-- The checkpoint of a position that may be too high, and a write that is only done when it is
not. -/
theorem meets_guarded {index line : Nat} {message : String} {write : Op W Unit}
    (hwrite : ∀ S, index < S.length → MeetsFrom (Held S (· = index)) conduct write) :
    Meets conduct (do
      checkpointStackSlot natives index
      let s ← Proc.gets id
      if index < s.stack.length then write else internalError line message : Op W Unit) := by
  intro s
  by_cases hi : index < s.stack.length
  · refine Proc.meetsFrom_bind (P := (·.stack = s.stack))
      (meets_checkpointStackSlot natives index).meetsFrom (triple_checkpointStackSlot natives hi)
      (fun _ => Proc.meetsFrom_read fun t ht => ?_) s rfl
    rw [if_pos (by rw [ht.1]; exact hi)]
    rintro u rfl
    exact hwrite s.stack hi u ht
  · refine Proc.meetsFrom_bind (P := (·.stack = s.stack))
      (meets_checkpointStackSlot natives index).meetsFrom
      (triple_stack_checkpointStackSlot natives index)
      (fun _ => Proc.meetsFrom_read fun t ht => ?_) s rfl
    rw [if_neg (by rw [ht]; exact hi)]
    exact (meets_internalError _ _).meetsFrom

theorem meets_setGlobal (name : String) (v : Value) (line : Nat) :
    Meets conduct (setGlobal natives name v line) := by
  refine Proc.meets_bind (meets_globalSlot _ _ _ _) fun found => ?_
  obtain ⟨f, slot⟩ := found
  dsimp only
  cases cellOf f slot with
  | some a => exact meets_assignCell natives a v
  | none => exact meets_guarded natives fun S hi => meetsFrom_writeStack v hi rfl

theorem meets_registerGlobal (name : String) (slot line : Nat) :
    Meets conduct (registerGlobal name slot line : Op W Unit) := by
  refine Proc.meets_bind (Proc.meets_gets _) fun s => ?_
  split
  · refine Proc.meets_ite (meets_internalError _ _) (Proc.meets_modify fun s => ?_)
    exact .still nofun rfl rfl (List.suffix_refl _) rfl rfl rfl
  · exact meets_internalError _ _

theorem meets_resolveBindingStorage (target : MutationTarget) (line : Nat) :
    Meets conduct (resolveBindingStorage target line : Op W BindingStorage) := by
  cases target with
  | localSlot slot => exact Proc.meets_bind (meets_frameOr _ _) fun _ => Proc.meets_pure _
  | upvalue index =>
    exact Proc.meets_bind (meets_frameOr _ _) fun _ =>
      Proc.meets_bind (meets_expect _ _ _) fun _ => Proc.meets_pure _
  | globalName name =>
    exact Proc.meets_bind (meets_globalSlot _ _ _ _) fun _ => Proc.meets_pure _

/-! ## Work in place -/

theorem limits_check (r : Except TsumugiError α) :
    (InPlace.check r : InPlace W α).Meets placeLimits := by
  cases r with
  | ok a => exact Proc.meets_pure a
  | error e => exact Proc.meets_stop fun _ => rfl

theorem limits_host {m : Host W α} (hm : m.Meets (frugal W ControlStop)) (line : Nat) :
    (InPlace.host m line).Meets placeLimits := by
  intro s
  have hconfig := (hm s.2).1
  rcases h : m.run s.2 with ⟨e | a, o⟩ <;> rw [h] at hconfig <;> simp only [InPlace.host, h]
  · exact hconfig
  · exact hconfig

theorem limits_resize (old new : Value) (line : Nat) :
    (InPlace.resize natives old new line).Meets placeLimits := by
  refine Proc.meets_bind (limits_host (natives.frugal_detach old) line) fun _ => ?_
  refine Proc.meets_bind (Proc.meets_modify fun _ => rfl) fun _ => ?_
  exact limits_host (natives.frugal_retrack old new) line

theorem limits_listPushTracked (item : Value) (line : Nat) :
    (listPushTracked natives item line).Meets placeLimits := by
  refine Proc.meets_bind (Proc.meets_gets _) fun s => ?_
  split
  · exact limits_resize natives _ _ line
  · exact Proc.meets_pure ()

theorem limits_listPopTracked (line : Nat) :
    (listPopTracked natives line).Meets placeLimits := by
  refine Proc.meets_bind (Proc.meets_gets _) fun s => ?_
  split
  · exact Proc.meets_ite (Proc.meets_pure ()) (limits_resize natives _ _ line)
  · exact Proc.meets_pure ()

theorem limits_indexSetTracked (target : IndexTarget) (value : Value) (line : Nat) :
    (indexSetTracked natives target value line).Meets placeLimits := by
  refine Proc.meets_bind (Proc.meets_gets _) fun s => ?_
  split
  · exact limits_resize natives _ _ line
  · exact limits_resize natives _ _ line
  · exact Proc.meets_pure ()

theorem limits_assignIndex (index value : Value) (line : Nat) :
    (assignIndex natives index value line).Meets placeLimits := by
  refine Proc.meets_bind (Proc.meets_gets _) fun s => ?_
  refine Proc.meets_bind (limits_check _) fun place => ?_
  exact Proc.meets_bind (limits_check _) fun _ => limits_indexSetTracked natives _ _ _

theorem meets_assignIndexBinding (target : MutationTarget) (index value : Value) (line : Nat) :
    Meets conduct (assignIndexBinding natives target index value line) := by
  refine Proc.meets_bind (meets_resolveBindingStorage target line) fun storage => ?_
  cases storage with
  | cell a =>
    exact fun s => Proc.meetsFrom_bind (P := fun _ => True)
      (meets_checkpointCell natives a).meetsFrom (triple_checkpointCell natives a)
      (fun _ => meetsFrom_atCell (limits_assignIndex natives index value line)) s trivial
  | stack at' =>
    exact meets_guarded natives fun S hi =>
      meetsFrom_atStack (limits_assignIndex natives index value line) hi rfl

theorem meets_checkPushTarget (target : Value) (line : Nat) :
    Meets conduct (checkPushTarget target line : Op W Unit) := by
  unfold checkPushTarget
  split
  · exact meets_checkCollection _ _
  · exact meets_raise _

theorem keeps_held_checkPushTarget {S : List Slot} {X : Nat → Prop} (target : Value) (line : Nat) :
    Proc.Keeps (Held S X) (checkPushTarget target line : Op W Unit) := by
  unfold checkPushTarget
  split
  · exact keeps_held_host _ _
  · exact Proc.keeps_stop _

/-- A check of an entry that may be written. -/
theorem meetsFrom_held_check {S : List Slot} {X : Nat → Prop} {m : Op W Unit}
    (r : Except TsumugiError Unit) (hm : MeetsFrom (Held S X) conduct m) :
    MeetsFrom (Held S X) conduct (do check r; m) :=
  Proc.meetsFrom_bind (meets_check r).meetsFrom (Proc.triple_of_keeps (keeps_held_check r))
    fun _ => hm

theorem meets_listPushBinding (target : MutationTarget) (value : Value) (line : Nat) :
    Meets conduct (listPushBinding natives target value line) := by
  refine Proc.meets_bind (meets_resolveBindingStorage target line) fun storage => ?_
  cases storage with
  | cell a =>
    refine Proc.meets_bind (Proc.meets_gets _) fun s => ?_
    refine Proc.meets_bind (meets_checkPushTarget _ line) fun _ => ?_
    refine Proc.meets_bind (meets_check _) fun _ => ?_
    exact fun s => Proc.meetsFrom_bind (P := fun _ => True)
      (meets_checkpointCell natives a).meetsFrom (triple_checkpointCell natives a)
      (fun _ => meetsFrom_atCell (limits_listPushTracked natives value line)) s trivial
  | stack at' =>
    refine Proc.meets_read fun s => ?_
    rcases hslot : s.stack[at']? with _ | entry
    · exact (meets_internalError _ _).meetsFrom
    · have hi := (List.getElem?_eq_some_iff.mp hslot).1
      refine Proc.meetsFrom_bind (Q := fun _ t => t.stack = s.stack)
        (meets_checkPushTarget _ line).meetsFrom
        ((Proc.triple_of_keeps (keeps_held_checkPushTarget (X := fun _ => False) _ line)).conseq
          (fun t ht => ⟨by rw [ht], nofun⟩) fun _ _ h => h.1) fun _ => ?_
      · refine Proc.meetsFrom_bind (meets_checkpointStackSlot natives at').meetsFrom
          (triple_checkpointStackSlot natives hi) fun _ => ?_
        exact meetsFrom_held_check _
          (meetsFrom_atStack (limits_listPushTracked natives value line) hi rfl)

end Op

end Tsumugi.Bytecode
