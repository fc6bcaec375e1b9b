import Tsumugi.Eval.Flow

/-!
# The flow of values through cells and operators

What the environment holds is what was put there; an operator gives a number in
canonical form or a part of its operands; `track_result` changes backings only.

Results:
1. `flows_set`, `flows_assignExisting`, `flows_readCell`: the cells.
2. `flows_evalBinop`, `flows_finishIndexAssign`: operators.
3. `yields_trackResult`, `flows_newList`, `flows_newDict`: values that are charged.
-/

namespace Tsumugi.Eval

open Budget (Charge ControlStop)
open Bytecode (IndexTarget)

variable {E H α : Type} {rt : Runtime E H} {p : Tracking H} {b : List FnValue}

/-! ## The environment -/

section Env

variable {Ok : Value → Prop} {env : Env}

theorem EnvHolds.newCell (h : EnvHolds Ok env) {v : Value} (hv : Ok v) :
    EnvHolds Ok (env.newCell v).2 :=
  ⟨List.forall_mem_append.mpr ⟨h.cells, List.forall_mem_singleton.mpr hv⟩, h.journal⟩

theorem EnvHolds.write (h : EnvHolds Ok env) (cell : Addr) {v : Value} (hv : Ok v) :
    EnvHolds Ok (env.write cell v) := by
  refine ⟨fun w hw => ?_, h.journal⟩
  rcases List.mem_or_eq_of_mem_set hw with hw | rfl
  · exact h.cells w hw
  · exact hv

theorem EnvHolds.read (h : EnvHolds Ok env) {cell : Addr} {v : Value}
    (hv : env.read cell = some v) : Ok v :=
  h.cells v (List.mem_of_getElem? hv)

theorem EnvHolds.get (h : EnvHolds Ok env) {name : String} {v : Value}
    (hv : env.get name = some v) : Ok v := by
  obtain ⟨cell, -, hcell⟩ := Option.bind_eq_some_iff.mp hv
  exact h.read hcell

theorem EnvHolds.read_getD (h : EnvHolds Ok env) (hnull : Ok .null) (cell : Addr) :
    Ok ((env.read cell).getD .null) := by
  cases hv : env.read cell with
  | none => exact hnull
  | some v => exact h.read hv

/-- A record in the journal, if a submission is open. -/
theorem EnvHolds.record (h : EnvHolds Ok env) {f : SubmissionJournal → SubmissionJournal}
    {entry : UndoEntry} (hentry : UndoEntry.Holds Ok entry)
    (hf : ∀ j, (f j).undoLog = entry :: j.undoLog) :
    EnvHolds Ok { env with journal := env.journal.map f } := by
  refine ⟨h.cells, fun j' hj' e he => ?_⟩
  obtain ⟨j, hj, rfl⟩ := Option.map_eq_some_iff.mp hj'
  rw [hf] at he
  rcases List.mem_cons.mp he with rfl | he
  · exact hentry
  · exact h.journal j hj e he

theorem EnvHolds.recordScopeEntry (h : EnvHolds Ok env) (name : String) :
    EnvHolds Ok (env.recordScopeEntry name) := by
  refine h.record ?_ fun _ => rfl
  trivial

theorem EnvHolds.recordCell (h : EnvHolds Ok env) (hnull : Ok .null) (cell : Addr) :
    EnvHolds Ok (env.recordCell cell) := by
  refine h.record ?_ fun _ => rfl
  exact h.read_getD hnull cell

theorem EnvHolds.undo (h : EnvHolds Ok env) {e : UndoEntry} (he : UndoEntry.Holds Ok e) :
    EnvHolds Ok (env.undo e) := by
  cases e with
  | scopeEntry => exact ⟨h.cells, h.journal⟩
  | cellValue cell original => exact h.write cell he

theorem EnvHolds.undoAll {log : List UndoEntry} (hlog : ∀ e ∈ log, UndoEntry.Holds Ok e)
    (h : EnvHolds Ok env) : EnvHolds Ok (log.foldl Env.undo env) := by
  induction log generalizing env with
  | nil => exact h
  | cons e rest ih =>
    rw [List.forall_mem_cons] at hlog
    exact ih hlog.2 (h.undo hlog.1)

theorem EnvHolds.beginSubmission (h : EnvHolds Ok env) : EnvHolds Ok env.beginSubmission :=
  ⟨h.cells, fun j hj => by cases hj; exact nofun⟩

theorem EnvHolds.commitSubmission (h : EnvHolds Ok env) : EnvHolds Ok env.commitSubmission :=
  ⟨h.cells, nofun⟩

/-- What a rollback puts back was there before. -/
theorem EnvHolds.rollbackSubmission (h : EnvHolds Ok env) : EnvHolds Ok env.rollbackSubmission := by
  unfold Env.rollbackSubmission
  cases hj : env.journal with
  | none => exact h
  | some j =>
    have hundone := h.commitSubmission.undoAll (h.journal j hj)
    exact ⟨fun v hv => hundone.cells v (List.mem_of_mem_take hv), hundone.journal⟩

end Env

/-- A change of the environment. -/
theorem flows_env (f : Env → Env)
    (h : ∀ s : Evaluator E H, s.Holds p → b ⊆ s.born → EnvHolds (p.value s.born) (f s.env)) :
    Flows p b (Proc.modify fun s => { s with env := f s.env } : Ev E H Unit) Any :=
  flows_modify (fun s hs hb => { hs with env := h s hs hb }) fun _ => rfl

/-- A change of the scopes. -/
theorem flows_scopes (f : Env → Env) (hcells : ∀ env, (f env).cells = env.cells)
    (hjournal : ∀ env, (f env).journal = env.journal) :
    Flows p b (Proc.modify fun s => { s with env := f s.env } : Ev E H Unit) Any :=
  flows_env f fun s hs _ =>
    ⟨(hcells s.env).symm ▸ hs.env.cells, (hjournal s.env).symm ▸ hs.env.journal⟩

theorem flows_truncateScopes (depth : Nat) :
    Flows p b (Proc.modify fun s => { s with env := s.env.truncateScopes depth } : Ev E H Unit)
      Any :=
  flows_scopes (·.truncateScopes depth) (fun _ => rfl) fun _ => rfl

theorem flows_popCallFrame (saved : CallFrame) :
    Flows p b (Proc.modify fun s => { s with env := s.env.popCallFrame saved } : Ev E H Unit)
      Any :=
  flows_scopes (·.popCallFrame saved) (fun _ => rfl) fun _ => rfl

/-- A charge that may be refused. -/
theorem flows_refusable (m : Tracked E α) :
    Flows p b (tracked m : Ev E H (Except ControlStop α)) Any :=
  (flows_tracked (yields_any m)).any

theorem flows_journalScopeEntry (name : String) :
    Flows p b (journalScopeEntry rt name : Ev E H (Except ControlStop Unit)) Any := by
  refine (flows_read _).seq fun env _ => ?_
  split
  · refine (flows_refusable _).seq fun r _ => ?_
    cases r with
    | error stop => exact flows_any _
    | ok _ =>
      refine Flows.andThen ?_ fun _ => flows_any _
      exact flows_env (·.recordScopeEntry name) fun s hs _ => hs.env.recordScopeEntry name
  · exact flows_any _

section Carried

variable (hp : p.Carried rt)

include hp

theorem flows_journalCell (cell : Addr) :
    Flows p b (journalCell rt cell : Ev E H (Except ControlStop Unit)) Any := by
  refine (flows_read _).seq fun env _ => ?_
  split
  · refine (flows_refusable _).seq fun r _ => ?_
    cases r with
    | error stop => exact flows_any _
    | ok _ =>
      refine Flows.andThen ?_ fun _ => flows_any _
      exact flows_env (·.recordCell cell) fun s hs _ => hs.env.recordCell (hp.null _) cell
  · exact flows_any _

end Carried

theorem flows_setShared (name : String) (cell : Addr) :
    Flows p b (setShared rt name cell : Ev E H (Except ControlStop Unit)) Any := by
  refine (flows_journalScopeEntry name).seq fun r _ => ?_
  cases r with
  | error stop => exact flows_any _
  | ok _ =>
    refine Flows.andThen ?_ fun _ => flows_any _
    exact flows_scopes (fun env => env.putIn env.current name (some cell)) (fun _ => rfl)
      fun _ => rfl

section Carried

variable (hp : p.Carried rt)

include hp

theorem flows_set (name : String) {v : Value} (hv : p.value b v) :
    Flows p b (set rt name v : Ev E H (Except ControlStop Unit)) Any := by
  refine (flows_refusable _).seq fun r _ => ?_
  cases r with
  | error stop => exact flows_any _
  | ok _ =>
    refine Flows.andThen ?_ fun cell => flows_setShared name cell
    exact flows_update
      (fun s hs hb => ⟨{ hs with env := hs.env.newCell (hp.mono hb hv) }, trivial⟩) fun _ => rfl

theorem flows_envSet (name : String) {v : Value} (hv : p.value b v) (line : Nat) :
    Flows p b (envSet rt name v line : Ev E H Unit) Any :=
  Flows.orStop ((flows_set hp name hv).imp fun _ _ _ _ _ _ => trivial) (fun _ _ _ _ => id) line

theorem flows_journaled (cell : Addr) (line : Nat) :
    Flows p b (orStop (journalCell rt cell) line : Ev E H Unit) Any :=
  Flows.orStop ((flows_journalCell hp cell).imp fun _ _ _ _ _ _ => trivial) (fun _ _ _ _ => id)
    line

/-- A value is written to a cell. -/
theorem flows_write (cell : Addr) {v : Value} (hv : p.value b v) :
    Flows p b (Proc.modify fun s => { s with env := s.env.write cell v } : Ev E H Unit) Any :=
  flows_env (·.write cell v) fun _ hs hb => hs.env.write cell (hp.mono hb hv)

theorem flows_assignExisting (name : String) {v : Value} (hv : p.value b v) (line : Nat) :
    Flows p b (assignExisting rt name v line : Ev E H Unit) Any := by
  refine (flows_read _).seq fun env _ => ?_
  split
  · exact flows_raise _
  · exact (flows_journaled hp _ line).seq fun _ _ => flows_write hp _ hv

theorem flows_readCell (cell : Addr) : Flows p b (readCell cell : Ev E H Value) p.value :=
  (flows_gets _).imp fun b' v _ hread => by
    obtain ⟨s, hs, rfl, rfl⟩ := hread
    exact hs.env.read_getD (hp.null _) cell

/-- The value of a name. -/
theorem flows_name (name : String) (e : TsumugiError) :
    Flows p b (do orRaise ((← Proc.gets Evaluator.env).get name) e : Ev E H Value) p.value := by
  refine (flows_gets _).bind fun b' env _ henv => flows_orRaise fun v hv b'' hb => ?_
  obtain ⟨s, hs, rfl, rfl⟩ := henv
  exact hp.mono hb (hs.env.get hv)

end Carried

theorem flows_cellOf (name : String) (line : Nat) :
    Flows p b (cellOf name line : Ev E H Addr) Any :=
  (flows_read _).seq fun _ _ => flows_orRaise fun _ _ _ _ => trivial

/-! ## Entries -/

section Dict

variable {Ok : Value → Prop} {entries : Dict}

theorem Dict.all_get (h : ∀ e ∈ entries, Ok e.2) {key : String} {v : Value}
    (hv : Dict.get entries key = some v) : Ok v := by
  obtain ⟨e, he, rfl⟩ := Option.map_eq_some_iff.mp hv
  exact h e (List.mem_of_find?_eq_some he)

theorem Dict.all_insert (h : ∀ e ∈ entries, Ok e.2) {key : String} {v : Value} (hv : Ok v) :
    ∀ e ∈ Dict.insert key v entries, Ok e.2 := by
  induction entries with
  | nil => exact List.forall_mem_singleton.mpr hv
  | cons e rest ih =>
    rw [List.forall_mem_cons] at h
    unfold Dict.insert
    split
    · exact List.forall_mem_cons.mpr ⟨hv, h.2⟩
    · split
      · exact List.forall_mem_cons.mpr ⟨hv, List.forall_mem_cons.mpr h⟩
      · exact List.forall_mem_cons.mpr ⟨h.1, ih h.2⟩

end Dict

/-! ## Operators -/

section Carried

variable (hp : p.Carried rt)

include hp

theorem Tracking.Carried.strConstant (s : String) : p.value b (.strConstant s) := hp.str b 0 s

theorem Tracking.Carried.arith {left right v : Value} {op : BinOpKind} {line : Nat}
    (h : Eval.arith rt left op right line = some (.ok v)) : p.value b v := by
  have hfloat (bits : UInt64) : p.value b (.float (canonicalizeFloat bits)) :=
    hp.float b (hp.canonical bits)
  unfold Eval.arith at h
  split at h
  · obtain ⟨r, -, hr⟩ := Option.map_eq_some_iff.mp h
    cases r with
    | error e => cases hr
    | ok n => cases hr; exact hp.int b n
  · obtain ⟨f, -, hf⟩ := Option.map_eq_some_iff.mp h
    cases hf
    exact hfloat _
  · obtain ⟨f, -, hf⟩ := Option.map_eq_some_iff.mp h
    cases hf
    exact hfloat _
  · obtain ⟨f, -, hf⟩ := Option.map_eq_some_iff.mp h
    cases hf
    exact hfloat _
  iterate 3
    · split at h <;> cases h
      exact hp.strConstant _
  · cases h

theorem flows_evalBinop (left : Value) (op : BinOpKind) (right : Value) (line : Nat) :
    Flows p b (evalBinop rt left op right line : Ev E H Value) p.value := by
  unfold evalBinop
  split
  · exact (flows_charge (yields_any _) line).seq fun _ _ => flows_pure fun b' _ => hp.bool b' _
  · exact (flows_charge (yields_any _) line).seq fun _ _ => flows_pure fun b' _ => hp.bool b' _
  · exact flows_unreachable
  · exact flows_unreachable
  iterate 4
    · split
      · exact flows_pure fun b' _ => hp.bool b' _
      · exact flows_raise _
  · split
    · rename_i r hr
      exact flows_liftExcept fun v hv b' _ => hp.arith (hr.trans (congrArg some hv))
    · exact flows_raise _

theorem Tracking.Carried.evalUnary {op : UnaryOpKind} {v w : Value} {line : Nat}
    (h : Eval.evalUnary rt op v line = .ok w) : p.value b w := by
  unfold Eval.evalUnary at h
  split at h
  · split at h <;> cases h
    exact hp.int b _
  · cases h
    exact hp.float b (hp.canonical _)
  · cases h
    exact hp.bool b _
  · cases h

theorem Tracking.Carried.evalIndex {object index v : Value} {line : Nat}
    (hobject : p.value b object) (h : Eval.evalIndex object index line = .ok v) : p.value b v := by
  unfold Eval.evalIndex at h
  split at h
  · split at h
    · split at h <;> cases h
      rename_i hitem
      obtain ⟨i, -, hi⟩ := Option.bind_eq_some_iff.mp hitem
      exact hp.list.mp hobject v (List.mem_of_getElem? hi)
    · cases h
  · split at h
    · split at h <;> cases h
      exact hp.strConstant _
    · cases h
  · split at h
    · rename_i entries _ _ key
      cases h
      cases hget : Dict.get entries key with
      | none => exact hp.null b
      | some v => exact Dict.all_get (hp.dict.mp hobject) hget
    · cases h
  · split at h <;> cases h
    · exact hp.strConstant _
    · exact hp.strConstant _
    · exact hp.int b _
    · exact hp.null b
  · cases h

/-! ## Work on the value in a cell -/

theorem flows_resizeCell (cell : Addr) (old : Value) {next : Nat → Value}
    (hnext : ∀ id, p.value b (next id)) (line : Nat) :
    Flows p b (resizeCell rt cell old next line : Ev E H Unit) Any :=
  (flows_chargeRaw (yields_any _) line).seq fun id _ =>
    (flows_write hp cell (hnext id)).seq fun _ _ => (flows_chargeRaw (yields_any _) line).any

theorem flows_listPushTracked (cell : Addr) {item : Value} (hitem : p.value b item) (line : Nat) :
    Flows p b (listPushTracked rt cell item line : Ev E H Unit) Any := by
  refine (flows_readCell hp cell).bind fun b' v hb hv => ?_
  split
  · refine flows_resizeCell hp cell _ (fun id => hp.list.mpr ?_) line
    exact List.forall_mem_append.mpr
      ⟨hp.list.mp hv, List.forall_mem_singleton.mpr (hp.mono hb hitem)⟩
  · exact flows_any _

theorem flows_listPopTracked (cell : Addr) (line : Nat) :
    Flows p b (listPopTracked rt cell line : Ev E H Unit) Any := by
  refine (flows_readCell hp cell).bind fun b' v hb hv => ?_
  split
  · split
    · exact flows_any _
    · refine flows_resizeCell hp cell _ (fun id => hp.list.mpr fun w hw => ?_) line
      exact hp.list.mp hv w (List.mem_of_mem_dropLast hw)
  · exact flows_any _

theorem flows_indexSetTracked (cell : Addr) (target : IndexTarget) {v : Value}
    (hv : p.value b v) (line : Nat) :
    Flows p b (indexSetTracked rt cell target v line : Ev E H Unit) Any := by
  refine (flows_readCell hp cell).bind fun b' old hb hold => ?_
  have hv' : p.value b' v := hp.mono hb hv
  split
  · refine flows_resizeCell hp cell _ (fun id => hp.list.mpr fun w hw => ?_) line
    rcases List.mem_or_eq_of_mem_set hw with hw | rfl
    · exact hp.list.mp hold w hw
    · exact hv'
  · exact flows_resizeCell hp cell _
      (fun id => hp.dict.mpr (Dict.all_insert (hp.dict.mp hold) hv')) line
  · exact flows_any _

theorem flows_budgetListPush (cell : Addr) {v : Value} (hv : p.value b v) (line : Nat) :
    Flows p b (budgetListPush rt cell v line : Ev E H Unit) Any :=
  (flows_check _).seq fun _ _ => flows_listPushTracked hp cell hv line

theorem flows_finishIndexAssign (cell : Addr) (idx : Value) {v : Value} (hv : p.value b v)
    (line : Nat) : Flows p b (finishIndexAssign rt cell idx v line : Ev E H Unit) Any := by
  refine (flows_journaled hp cell line).seq fun _ _ => (flows_read _).seq fun limit _ => ?_
  refine (flows_readCell hp cell).any.seq fun old _ => (flows_check _).seq fun place _ => ?_
  exact (flows_check _).seq fun _ _ => flows_indexSetTracked hp cell place hv line

theorem flows_materializeForItems {collection : Value} (hcollection : p.value b collection)
    (line : Nat) :
    Flows p b (materializeForItems collection line : Ev E H (List Value)) fun b' items =>
      ∀ v ∈ items, p.value b' v := by
  unfold materializeForItems
  split
  · refine (flows_checkCollection _ line).seq fun _ _ => flows_pure fun b' hb => ?_
    exact hp.list.mp (hp.mono hb hcollection)
  · refine (flows_checkCollection _ line).seq fun _ _ => flows_pure fun b' hb => ?_
    exact List.forall_mem_map.mpr fun e _ => hp.strConstant e.1
  · refine (flows_checkCollection _ line).seq fun _ _ => flows_pure fun b' hb => ?_
    exact List.forall_mem_map.mpr fun c _ => hp.strConstant c.toString
  · exact flows_raise _

/-! ## New values -/

theorem yields_newList {items : List Value} (h : ∀ v ∈ items, p.value b v) :
    Yields (newList rt items) (p.value b) :=
  (yields_any _).bind fun _ _ => yields_pure (hp.list.mpr h)

theorem yields_newDict {entries : Dict} (h : ∀ e ∈ entries, p.value b e.2) :
    Yields (newDict rt entries) (p.value b) :=
  (yields_any _).bind fun _ _ => yields_pure (hp.dict.mpr h)

end Carried

mutual

theorem yields_trackResult (hp : p.Carried rt) {v : Value} (hv : p.value b v) :
    Yields (trackResult rt v) (p.value b) := by
  cases v with
  | str id s =>
    cases id with
    | zero =>
      rw [trackResult]
      refine (yields_any _).bind fun _ _ => (yields_any _).bind fun id _ => ?_
      exact yields_pure (hp.str b id s)
    | succ id => exact yields_pure hv
  | list id items =>
    cases id with
    | zero =>
      rw [trackResult]
      exact (yields_trackItems hp (hp.list.mp hv)).bind fun _ h => yields_newList hp h
    | succ id => exact yields_pure hv
  | dict id entries =>
    cases id with
    | zero =>
      rw [trackResult]
      exact (yields_trackEntries hp (hp.dict.mp hv)).bind fun _ h => yields_newDict hp h
    | succ id => exact yields_pure hv
  | _ => exact yields_pure hv

theorem yields_trackItems (hp : p.Carried rt) {items : List Value} (h : ∀ v ∈ items, p.value b v) :
    Yields (trackItems rt items) fun items => ∀ v ∈ items, p.value b v := by
  cases items with
  | nil => exact yields_pure (List.forall_mem_nil _)
  | cons v rest =>
    rw [List.forall_mem_cons] at h
    unfold trackItems
    refine (yields_trackResult hp h.1).bind fun w hw => ?_
    refine (yields_trackItems hp h.2).bind fun ws hws => ?_
    exact yields_pure (List.forall_mem_cons.mpr ⟨hw, hws⟩)

theorem yields_trackEntries (hp : p.Carried rt) {entries : List (String × Value)}
    (h : ∀ e ∈ entries, p.value b e.2) :
    Yields (trackEntries rt entries) fun entries => ∀ e ∈ entries, p.value b e.2 := by
  cases entries with
  | nil => exact yields_pure (List.forall_mem_nil _)
  | cons e rest =>
    obtain ⟨key, v⟩ := e
    rw [List.forall_mem_cons] at h
    unfold trackEntries
    refine (yields_trackResult hp h.1).bind fun w hw => ?_
    refine (yields_trackEntries hp h.2).bind fun ws hws => ?_
    exact yields_pure (List.forall_mem_cons.mpr ⟨hw, hws⟩)

end

section Carried

variable (hp : p.Carried rt)

include hp

/-- The value of an operation. -/
theorem flows_chargeValue {m : Tracked E Value} (h : Yields m (p.value b)) (line : Nat) :
    Flows p b (charge m line : Ev E H Value) p.value :=
  (flows_charge h line).imp fun _ _ hb hv => hp.mono hb hv

theorem flows_trackResult {v : Value} (hv : p.value b v) (line : Nat) :
    Flows p b (charge (trackResult rt v) line : Ev E H Value) p.value :=
  flows_chargeValue hp (yields_trackResult hp hv) line

theorem flows_newList {items : List Value} (h : ∀ v ∈ items, p.value b v) (line : Nat) :
    Flows p b (charge (newList rt items) line : Ev E H Value) p.value :=
  flows_chargeValue hp (yields_newList hp h) line

theorem flows_newDict {entries : Dict} (h : ∀ e ∈ entries, p.value b e.2) (line : Nat) :
    Flows p b (charge (newDict rt entries) line : Ev E H Value) p.value :=
  flows_chargeValue hp (yields_newDict hp h) line

end Carried

end Tsumugi.Eval
