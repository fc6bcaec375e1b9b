import Tsumugi.Eval.SessionFlow
import Tsumugi.Lib.Counter

/-!
# Function identity in the tree evaluator

`functions` are the function values that an evaluator holds: in cells, in the journal of a
submission, in frames, in a result that waits to be taken. Each of them is one that was
evaluated, as a whole, so a copy keeps its identity; and no two evaluations gave one identity.

Results:
1. `Evaluator.Holds.mem_born`: what is held was evaluated.
2. `contexts_exact`: the invariant of everything that an embedder does.
3. `contexts_identity`: what `==` says of two function values.
-/

namespace Tsumugi

namespace Value

mutual

/-- The function values inside. -/
def functions : Value → List FnValue
  | .list _ items => itemsFunctions items
  | .dict _ entries => entriesFunctions entries
  | .fn id defn captured header retain => [⟨id, defn, captured, header, retain⟩]
  | _ => []

def itemsFunctions : List Value → List FnValue
  | [] => []
  | v :: rest => functions v ++ itemsFunctions rest

def entriesFunctions : List (String × Value) → List FnValue
  | [] => []
  | (_, v) :: rest => functions v ++ entriesFunctions rest

end

variable {P : FnValue → Prop}

mutual

theorem all_iff_functions (v : Value) : v.All P ↔ ∀ f ∈ v.functions, P f := by
  cases v with
  | list id items => exact allItems_iff_functions items
  | dict id entries => exact allEntries_iff_functions entries
  | fn id defn captured header retain => exact (List.forall_mem_singleton (p := P)).symm
  | _ => exact ⟨fun _ => nofun, fun _ => trivial⟩

theorem allItems_iff_functions (items : List Value) :
    AllItems P items ↔ ∀ f ∈ itemsFunctions items, P f := by
  cases items with
  | nil => exact ⟨fun _ => nofun, fun _ => trivial⟩
  | cons v rest =>
    rw [itemsFunctions, List.forall_mem_append]
    exact and_congr (all_iff_functions v) (allItems_iff_functions rest)

theorem allEntries_iff_functions (entries : List (String × Value)) :
    AllEntries P entries ↔ ∀ f ∈ entriesFunctions entries, P f := by
  cases entries with
  | nil => exact ⟨fun _ => nofun, fun _ => trivial⟩
  | cons e rest =>
    obtain ⟨key, v⟩ := e
    rw [entriesFunctions, List.forall_mem_append]
    exact and_congr (all_iff_functions v) (allEntries_iff_functions rest)

end

theorem all_list (id : Nat) {items : List Value} :
    (list id items).All P ↔ ∀ v ∈ items, v.All P := by
  rw [All]
  induction items with
  | nil => exact ⟨fun _ => nofun, fun _ => trivial⟩
  | cons v rest ih => rw [AllItems, List.forall_mem_cons, ih]

theorem all_dict (id : Nat) {entries : List (String × Value)} :
    (dict id entries).All P ↔ ∀ e ∈ entries, e.2.All P := by
  rw [All]
  induction entries with
  | nil => exact ⟨fun _ => nofun, fun _ => trivial⟩
  | cons e rest ih =>
    obtain ⟨key, v⟩ := e
    rw [AllEntries, List.forall_mem_cons, ih]

theorem All.mono {Q : FnValue → Prop} {v : Value} (h : v.All P) (himp : ∀ f, P f → Q f) :
    v.All Q :=
  (all_iff_functions v).mpr fun f hf => himp f ((all_iff_functions v).mp h f hf)

end Value

namespace Eval

open Transition (Reach anyStep)

variable {E H : Type} {rt : Runtime E H}

/-! ## The function values of an evaluator -/

/-- The value that a destination keeps. -/
def CallDest.values : CallDest → List Value
  | .indexAssignValue _ idx => [idx]
  | _ => []

/-- The values that a frame keeps. -/
def FrameKind.values : FrameKind → List Value
  | .for _ _ _ items _ _ collection => collection :: items
  | .call _ (some driver) => driver.callee :: driver.dest.values
  | .expr frame => frame.operands ++ (frame.map.map (·.2) ++ frame.dest.values)
  | _ => []

/-- The value that an entry of the journal puts back. -/
def UndoEntry.values : UndoEntry → List Value
  | .scopeEntry .. => []
  | .cellValue _ original => [original]

/-- The values of the cells and of the journal. -/
def Evaluator.envValues (s : Evaluator E H) : List Value :=
  s.env.cells ++ s.env.journal.elim [] fun j => j.undoLog.flatMap UndoEntry.values

/-- The values that an evaluator holds. -/
def Evaluator.values (s : Evaluator E H) : List Value :=
  s.envValues ++ (s.frames.flatMap (·.kind.values) ++
    s.resumedHostCall.elim [] fun r => r.2.toOption.toList)

/-- The function values that an evaluator holds. -/
def Evaluator.functions (s : Evaluator E H) : List FnValue := s.values.flatMap Value.functions

variable {p : Tracking H} {Ok : Value → Prop} {F : UInt64 → Prop}

theorem CallDest.Holds.values {dest : CallDest} (h : dest.Holds Ok) : ∀ v ∈ dest.values, Ok v := by
  cases dest with
  | indexAssignValue cell idx => exact List.forall_mem_singleton.mpr h
  | _ => exact List.forall_mem_nil _

theorem FrameKind.Holds.values {kind : FrameKind} (h : kind.Holds F Ok) :
    ∀ v ∈ kind.values, Ok v := by
  cases kind with
  | «for» => exact List.forall_mem_cons.mpr ⟨h.2.2.2, h.2.2.1⟩
  | call saved driver =>
    cases driver with
    | none => exact List.forall_mem_nil _
    | some driver =>
      exact List.forall_mem_cons.mpr ⟨(h driver rfl).callee, (h driver rfl).dest.values⟩
  | expr frame =>
    simp only [FrameKind.values, List.forall_mem_append, List.forall_mem_map]
    exact ⟨ExprFrame.Holds.operands h, ExprFrame.Holds.map h, (ExprFrame.Holds.dest h).values⟩
  | _ => exact List.forall_mem_nil _

theorem Evaluator.Holds.values {s : Evaluator E H} (h : s.Holds p) :
    ∀ v ∈ s.values, p.value s.born v := by
  simp only [Evaluator.values, Evaluator.envValues, List.forall_mem_append,
    List.forall_mem_flatMap]
  refine ⟨⟨h.env.cells, ?_⟩, fun frame hframe => (h.frames frame hframe).kind.values, ?_⟩
  · cases hj : s.env.journal with
    | none => exact List.forall_mem_nil _
    | some j =>
      refine List.forall_mem_flatMap.mpr fun e he => ?_
      have hentry := h.env.journal j hj e he
      cases e with
      | scopeEntry => exact List.forall_mem_nil _
      | cellValue cell original => exact List.forall_mem_singleton.mpr hentry
  · cases hr : s.resumedHostCall with
    | none => exact List.forall_mem_nil _
    | some r =>
      obtain ⟨callId, result⟩ := r
      cases result with
      | error e => exact List.forall_mem_nil _
      | ok v => exact List.forall_mem_singleton.mpr (h.resumed _ hr v rfl)

/-! ## Identity -/

/-- Every function value was evaluated, also those that the host keeps. -/
def Runtime.identity (rt : Runtime E H) : Tracking H where
  literal _ := True
  value b v := v.All (· ∈ b)
  host b h := ∀ f, rt.given h f → f ∈ b

theorem carried_identity (rt : Runtime E H) : rt.identity.Carried rt where
  mono hb hv := hv.mono fun _ hf => hb hf
  host_mono hb hh f hf := hb (hh f hf)
  int _ _ := trivial
  float _ _ _ := trivial
  str _ _ _ := trivial
  bool _ _ := trivial
  null _ := trivial
  error _ _ _ _ := trivial
  list := @fun _ id _ => Value.all_list id
  dict := @fun _ id _ => Value.all_dict id
  fn hf _ := hf
  body _ _ _ := trivial
  canonical _ := trivial
  dispatch b := rt.dispatch_all (· ∈ b)
  call b := rt.call_all (· ∈ b)
  start b := rt.start_all (· ∈ b)
  cancelTicket _ callId h hh f hf := hh f (rt.cancelTicket_all callId h f hf)
  tryTakeValue b := rt.tryTakeValue_all (· ∈ b)
  link _ _ _ _ _ _ _ _ _ := trivial

theorem Evaluator.Holds.mem_born {s : Evaluator E H} (h : s.Holds rt.identity) {f : FnValue}
    (hf : f ∈ s.functions) : f ∈ s.born := by
  obtain ⟨v, hv, hfv⟩ := List.mem_flatMap.mp hf
  exact (Value.all_iff_functions v).mp (h.values v hv) f hfv

theorem Evaluator.holds_new {budget : Budget.BudgetLedger} {adapters : E} {host : H}
    (hhost : p.host [] host) : (Evaluator.new budget adapters host).Holds p where
  env := ⟨List.forall_mem_nil _, nofun⟩
  frames := List.forall_mem_nil _
  resumed := nofun
  host := hhost
  issued := .nil

theorem Act.admits_true (a : Act E) : a.Admits fun _ => True := by
  cases a <;> first | trivial | exact fun _ _ => trivial

theorem contexts_exact {c : Context E H} (h : Reach (contexts rt) anyStep c) :
    c.eval.Holds rt.identity := by
  refine Reach.invariant (P := fun c => c.eval.Holds rt.identity) ?_ ?_ h
  · rintro c ⟨budget, adapters, host, hgiven, rfl⟩
    exact Evaluator.holds_new fun f hf => absurd hf (hgiven f)
  · intro c a t hc _ ht
    exact (Context.step_holds (carried_identity rt) hc a.admits_true ht).1

/-- `==` on two function values charges nothing and compares the identities. -/
theorem evalBinop_fn (f g : FnValue) (line : Nat) (s : Evaluator E H) :
    (evalBinop rt (.ofFn f) .eq (.ofFn g) line).run s = (.ok (.bool (f.id == g.id)), s) := by
  have hloop : (Shared.valuesEqual .run (Value.ofFn f).view (Value.ofFn g).view).run s.budget =
      (.ok (f.id == g.id), s.budget) := by
    rw [Shared.valuesEqual, Shared.loop_cons_scalar rfl]
    have heq : (Value.ofFn f).view.eq (Value.ofFn g).view = (f.id == g.id) := by
      simp only [Value.ofFn, Value.view, Shared.Value.eq]
    rw [heq]
    cases f.id == g.id
    · rfl
    · rw [if_pos rfl, Shared.valuesEqualLoop]
      rfl
  simp only [evalBinop, charge, orStop, Proc.bind_run, tracked, valuesEqual, onBudget, hloop]
  rfl

/-- What is known in every state that an embedder reaches: no two evaluations gave one identity,
everything that is held was evaluated, and `==` holds exactly of the values of one evaluation. -/
theorem contexts_identity {c : Context E H} (h : Reach (contexts rt) anyStep c) :
    (c.eval.born.map FnValue.id).Nodup ∧ (∀ f ∈ c.eval.functions, f ∈ c.eval.born) ∧
      (∀ f, rt.given c.eval.host f → f ∈ c.eval.born) ∧
      ∀ f ∈ c.eval.functions, ∀ g ∈ c.eval.functions, ∀ line, ∃ equal,
        (evalBinop rt (.ofFn f) .eq (.ofFn g) line).run c.eval = (.ok (.bool equal), c.eval) ∧
          (equal = true ↔ ∃ i : Nat, c.eval.born[i]? = some f ∧ c.eval.born[i]? = some g) := by
  have hholds := contexts_exact h
  refine ⟨hholds.issued.nodup, fun f => hholds.mem_born, hholds.host, fun f hf g hg line => ?_⟩
  refine ⟨f.id == g.id, evalBinop_fn f g line c.eval, ?_⟩
  rw [beq_iff_eq]
  exact hholds.issued.eq_iff (hholds.mem_born hf) (hholds.mem_born hg)

/-- An evaluator with a budget for small runs, and no host. -/
def smallEvaluator : Evaluator Unit Unit :=
  .new
    (.fresh
      ⟨1, 999, 9999, 99, 99, 99, 99, 99, 99, 99, 99, 99, 99, 99, 99, 99, 99, 99, 99, 99, ⟨1, 999⟩,
        by decide, by decide⟩
      (fun _ => false) none)
    () ()

/-- The definition of a function, and a copy of it. -/
def copyProgram : Program := [.fnDef "f" [] [] 1, .let "g" (.ident "f") 2]

/-- The context after the submission of `copyProgram`. -/
def copyContext : Context Unit Unit := Context.act .free smallEvaluator (.submit 9 copyProgram 0)

theorem contexts_identity_copy :
    (copyContext.eval.born.map FnValue.id).Nodup ∧
      (∀ f ∈ copyContext.eval.functions, f ∈ copyContext.eval.born) ∧
      (∀ f, Runtime.free.given copyContext.eval.host f → f ∈ copyContext.eval.born) ∧
      ∀ f ∈ copyContext.eval.functions, ∀ g ∈ copyContext.eval.functions, ∀ line, ∃ equal,
        (evalBinop .free (.ofFn f) .eq (.ofFn g) line).run copyContext.eval =
            (.ok (.bool equal), copyContext.eval) ∧
          (equal = true ↔ ∃ i : Nat,
            copyContext.eval.born[i]? = some f ∧ copyContext.eval.born[i]? = some g) := by
  have hinit : (contexts Runtime.free).init ⟨smallEvaluator, false⟩ :=
    ⟨_, (), (), fun _ => id, rfl⟩
  have hstep : (contexts Runtime.free).step ⟨smallEvaluator, false⟩ (.submit 9 copyProgram 0) =
      some copyContext := rfl
  exact contexts_identity (.step (.init hinit) trivial hstep)

example : copyContext.eval.functions.map (·.id) = [0, 0] := by decide +kernel

end Eval

end Tsumugi
