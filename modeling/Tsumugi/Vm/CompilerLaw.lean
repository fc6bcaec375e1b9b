import Tsumugi.Vm.ExprLaw

/-!
# The compiler emits typed chunks

The constructs of the statements keep `Runs`, and the recursion over the tree puts them
together with those of the expressions.

Results:
1. `compileExpr_pushes` and `compileStmt_runs`: expressions and statements.
2. `compile_typed`: a program that compiles gives a typed chunk.
3. `compile_verifies`: the verifier accepts what `compile` returns.
-/

namespace Tsumugi.Bytecode

open Backpatch (Exit Emitted)
open Proc (Triple triple_bind triple_pure triple_read triple_exists triple_and triple_when)

/-! ## Surroundings -/

theorem Site.after_zero {K : Site} : K.after 0 K.loops = K := by
  unfold Site.after
  simp

/-- What the loops ask of their surroundings is not changed by jumps that wait. -/
theorem LoopsFit.same {A : List (Nat × Shape)} {g : Nat} {loops loops' : List LoopState}
    (hs : SameLoops loops loops') {H : List (Nat × Nat)} {n : Nat} (h : LoopsFit A g H n loops) :
    LoopsFit A g H n loops' := by
  induction loops generalizing loops' H n with
  | nil => rw [List.map_eq_nil_iff.mp hs]; trivial
  | cons l rest ih =>
    obtain ⟨l', rest', rfl⟩ : ∃ l' rest', loops' = l' :: rest' := by
      cases loops' with
      | nil => cases hs
      | cons l' rest' => exact ⟨l', rest', rfl⟩
    obtain ⟨hcore, hs⟩ := List.cons.inj hs
    obtain ⟨htry, hlocals, hg, hh, hcont, hrest⟩ := h
    have hres : l'.continueResolved = l.continueResolved := congrArg (·.continueResolved) hcore
    have htry' : l'.tryDepth = l.tryDepth := congrArg (·.tryDepth) hcore
    have hlocals' : l'.localsCount = l.localsCount := congrArg (·.localsCount) hcore
    refine ⟨htry' ▸ htry, hlocals' ▸ hlocals, hlocals' ▸ hg, by rwa [htry', hlocals'], fun hr => ?_, ?_⟩
    · have htarget : l'.continueTarget = l.continueTarget := by
        have := congrArg (·.continueTarget) hcore
        simpa only [LoopState.core, hr, hres ▸ hr, if_true] using this
      unfold LoopState.shape at hcont ⊢
      rw [htarget, htry', hlocals']
      exact hcont (hres ▸ hr)
    · rw [htry', hlocals']
      exact ih hs hrest

/-- More locals, and more positions to jump back to. -/
theorem LoopsFit.mono {A A' : List (Nat × Shape)} {g : Nat} {loops : List LoopState}
    {H : List (Nat × Nat)} {n n' : Nat} (h : LoopsFit A g H n loops) (hA : ∀ e ∈ A, e ∈ A')
    (hn : n ≤ n') : LoopsFit A' g H n' loops := by
  induction loops generalizing H n n' with
  | nil => trivial
  | cons l rest ih =>
    obtain ⟨htry, hlocals, hg, hh, hcont, hrest⟩ := h
    exact ⟨htry, Nat.le_trans hlocals hn, hg, hh, fun hr => hA _ (hcont hr),
      ih hrest (Nat.le_refl _)⟩

namespace Site

variable {K : Site} {L M : List Local} {A : List (Nat × Shape)} {loops : List LoopState}

/-- The next statement of a block. -/
theorem Fits.after (h : K.Fits L A) (hM : ∀ l ∈ M, l.depth = K.scopeDepth)
    (hs : SameLoops K.loops loops) : (K.after M.length loops).Fits (L ++ M) A where
  depths l hl := by
    rcases List.mem_append.mp hl with hl | hl
    · exact h.depths l hl
    · exact Nat.le_of_eq (hM l hl)
  globals := by
    rw [List.length_append]
    refine Nat.add_le_add h.globals ?_
    split
    · exact Nat.le_refl _
    · exact Nat.zero_le _
  handlers p hp := by
    rw [List.length_append]
    exact Nat.le_add_right_of_le (h.handlers p hp)
  isRoot := h.isRoot
  top hr hd := by
    obtain ⟨hg, hl, hH⟩ := h.top hr hd
    refine ⟨?_, ?_, hH⟩
    · show K.globals + (if K.enclosingLocals = none ∧ K.scopeDepth = 0 then M.length else 0) = _
      rw [if_pos ⟨hr, hd⟩, hg, List.length_append]
    · rw [hl] at hs
      exact List.map_eq_nil_iff.mp hs
  loops := by
    by_cases ht : K.enclosingLocals = none ∧ K.scopeDepth = 0
    · have hnil := (h.top ht.1 ht.2).2.1
      rw [hnil] at hs
      rw [show (K.after M.length loops).loops = [] from List.map_eq_nil_iff.mp hs]
      trivial
    · have hg : (K.after M.length loops).globals = K.globals := by
        show K.globals + (if _ then _ else _) = _
        rw [if_neg ht, Nat.add_zero]
      rw [hg]
      refine (h.loops.same hs).mono (fun e he => he) ?_
      rw [List.length_append]
      exact Nat.le_add_right ..

/-- The scope that is opened for a block. -/
def inner (K : Site) : Site := { K with scopeDepth := K.scopeDepth + 1 }

theorem inner_after {n : Nat} : K.inner.after n loops = { K with loops }.inner := by
  unfold Site.after inner
  simp

theorem Fits.inner (h : K.Fits L A) : K.inner.Fits L A where
  depths l hl := Nat.le_succ_of_le (h.depths l hl)
  globals := h.globals
  handlers := h.handlers
  isRoot := h.isRoot
  top _ hd := absurd hd (Nat.succ_ne_zero _)
  loops := h.loops

end Site

/-! ## Sequences and scopes -/

theorem SameLoops.refl (loops : List LoopState) : SameLoops loops loops := rfl

theorem SameLoops.trans {l m n : List LoopState} (h : SameLoops l m) (h' : SameLoops m n) :
    SameLoops l n := Eq.trans h' h

/-- A piece of code that declares no locals. -/
def Stays (returns : Bool) (m : Compile Unit) : Prop :=
  ∀ K L P A, K.Fits L A → (returns = true → K.role.returns = true) →
    Triple (At K L P A (some (K.shape L))) m fun _ c =>
      ∃ loops, SameLoops K.loops loops ∧
        At { K with loops } L P A (some (K.shape L)) c

theorem Stays.runs {returns : Bool} {m : Compile Unit} (h : Stays returns m) : Runs returns m := by
  intro K L P A hfits hr
  refine (h K L P A hfits hr).conseq (fun _ hc => hc) ?_
  rintro - c ⟨loops, hs, hc⟩
  refine ⟨[], loops, ⟨fun l hl => (by cases hl), hs⟩, ?_⟩
  have hK : K.after ([] : List Local).length loops = { K with loops } := by
    unfold Site.after
    simp
  rw [hK, List.append_nil]
  exact hc

theorem Runs.mono {r r' : Bool} {m : Compile Unit} (h : Runs r m) (hr : r = true → r' = true) :
    Runs r' m :=
  fun K L P A hfits hr' => h K L P A hfits fun h => hr' (hr h)

theorem Runs.nil : Runs false (pure ()) := by
  refine Stays.runs fun K L P A _ _ => triple_pure fun c hc => ⟨K.loops, .refl _, hc⟩

theorem Runs.append {r r' : Bool} {m m' : Compile Unit} (h : Runs r m) (h' : Runs r' m') :
    Runs (r || r') (do m; m') := by
  intro K L P A hfits hr
  refine triple_bind (h K L P A hfits fun hr' => hr (by simp [hr'])) fun _ => ?_
  refine triple_exists fun M => triple_exists fun loops => triple_and fun ⟨hM, hs⟩ => ?_
  refine (h' _ (L ++ M) P A (hfits.after hM hs) fun hr' => hr (by simp [hr'])).conseq
    (fun _ hc => hc) ?_
  rintro - c ⟨M', loops', ⟨hM', hs'⟩, hc⟩
  refine ⟨M ++ M', loops', ⟨fun l hl => ?_, hs.trans hs'⟩, ?_⟩
  · rcases List.mem_append.mp hl with hl | hl
    · exact hM l hl
    · exact hM' l hl
  · have hK : (K.after M.length loops).after M'.length loops' =
        K.after (M ++ M').length loops' := by
      unfold Site.after
      simp only [List.length_append]
      split <;> simp [Nat.add_assoc]
    rwa [hK, List.append_assoc] at hc

theorem Runs.marked {r : Bool} {m : Compile Unit} (h : Runs r m) : Runs r (Compile.marked m) := by
  intro K L P A hfits hr
  refine triple_bind (triple_mark rfl) fun _ => triple_bind (h K L P A hfits hr) fun _ => ?_
  refine triple_exists fun M => triple_exists fun loops => triple_and fun hM => ?_
  exact (triple_mark rfl).conseq (fun _ hc => hc) fun _ c hc => ⟨M, loops, hM, hc⟩

theorem keepLocals_append {depth : Nat} {L M : List Local} (hL : ∀ l ∈ L, l.depth ≤ depth)
    (hM : ∀ l ∈ M, depth < l.depth) : Compile.keepLocals depth (L ++ M) = L := by
  unfold Compile.keepLocals
  rw [List.reverse_append, List.dropWhile_append_of_pos fun l hl => ?_]
  · cases hr : L.reverse with
    | nil => rw [List.reverse_eq_nil_iff.mp hr]; rfl
    | cons l rest =>
      have hl : l ∈ L := List.mem_reverse.mp (hr ▸ List.mem_cons_self)
      rw [List.dropWhile_cons_of_neg (by simpa using hL l hl), ← hr, List.reverse_reverse]
  · simpa using hM l (List.mem_reverse.mp hl)

/-- Popping the locals of the innermost scope. -/
theorem shape_cut {K : Site} {L M : List Local} : (K.shape (L ++ M)).cut M.length = K.shape L := by
  unfold Shape.cut Site.shape Shape.stmt
  simp

theorem triple_beginScope {K : Site} {L : List Local} {P A : List (Nat × Shape)}
    {cur : Option Shape} :
    Triple (At K L P A cur) Compile.beginScope fun _ => At K.inner L P A cur := by
  refine Proc.triple_modify fun c hc => ?_
  have h := hc.setScope (c.scopeDepth + 1)
  rwa [hc.scopeDepth] at h ⊢

theorem triple_endScope {K : Site} {L M : List Local} {P A : List (Nat × Shape)} {line : Nat}
    (hL : ∀ l ∈ L, l.depth ≤ K.scopeDepth) (hM : ∀ l ∈ M, l.depth = K.scopeDepth + 1)
    (hg : K.globals ≤ L.length) (hh : ∀ h ∈ K.handlers, h.2 ≤ L.length) :
    Triple (At K.inner (L ++ M) P A (some (K.shape (L ++ M)))) (Compile.endScope line)
      fun _ => At K L P A (some (K.shape L)) := by
  unfold Compile.endScope
  have hclose : Triple (At K.inner (L ++ M) P A (some (K.shape (L ++ M))))
      (Proc.modify fun c => { c with scopeDepth := c.scopeDepth - 1 } : Compile Unit)
      fun _ => At K (L ++ M) P A (some (K.shape (L ++ M))) := by
    refine Proc.triple_modify fun c hc => ?_
    rw [hc.scopeDepth]
    exact hc.setScope K.scopeDepth
  refine triple_bind hclose fun _ => triple_read fun c hc => ?_
  have hkept : Compile.keepLocals c.scopeDepth c.locals = L := by
    rw [hc.scopeDepth, hc.locals]
    exact keepLocals_append hL fun l hl => by rw [hM l hl]; exact Nat.lt_succ_self _
  simp only [hkept]
  have hcount : c.locals.length - L.length = M.length := by
    rw [hc.locals, List.length_append, Nat.add_sub_cancel_left]
  refine triple_bind (Q := fun _ => At K (L ++ M) P A (some (K.shape L))) ?_ fun _ => ?_
  · refine triple_when (fun _ => ?_) fun hle d hd => ?_
    · rw [hcount]
      have hneed : ∀ t, need t (.popN M.length) (K.shape (L ++ M)) := by
        refine fun t => ⟨?_, fun l hl => by cases hl⟩
        show M.length ≤ (L ++ M).length
        rw [List.length_append]
        exact Nat.le_add_left ..
      have hx : ∀ t pc, exits t pc (.popN M.length) (K.shape (L ++ M)) = [.next (K.shape L)] :=
        fun t pc => next_eq shape_cut
      refine (triple_emitPlain hneed hx (Nat.le_refl _) (fun m hv => ?_) rfl).conseq
        (fun _ hd => hd ▸ hc) fun _ _ hd => hd
      · refine ⟨hg, Nat.le_refl _, Nat.le_trans ?_ hv.bound, hh, fun l hl => by cases hl⟩
        show L.length ≤ (L ++ M).length
        rw [List.length_append]
        exact Nat.le_add_right ..
    · obtain rfl : M = [] := by
        rw [hc.locals, List.length_append] at hle
        exact List.length_eq_zero_iff.mp (by omega)
      rw [List.append_nil] at hc ⊢
      exact hd ▸ hc
  · refine Proc.triple_modify fun d hd => ?_
    refine hd.extend ⟨rfl, Nat.le_refl _, Nat.le_refl _, rfl, rfl⟩ rfl rfl rfl ?_ hd.upvalues
    refine Nat.le_trans ?_ hd.slots
    rw [List.length_append]
    exact Nat.le_add_right ..

/-- A block in a scope of its own. -/
theorem triple_inScope {K : Site} {L : List Local} {P A : List (Nat × Shape)} {r : Bool}
    {body : Compile Unit} {line : Nat} (hbody : Runs r body) (hfits : K.inner.Fits L A)
    (hr : r = true → K.role.returns = true) (hL : ∀ l ∈ L, l.depth ≤ K.scopeDepth) :
    Triple (At K L P A (some (K.shape L))) (Compile.inScope body line) fun _ c =>
      ∃ loops, SameLoops K.loops loops ∧ At { K with loops } L P A (some (K.shape L)) c := by
  refine triple_bind triple_beginScope fun _ => triple_bind (hbody _ L P A hfits hr) fun _ => ?_
  refine triple_exists fun M => triple_exists fun loops => triple_and fun ⟨hM, hs⟩ => ?_
  rw [Site.inner_after]
  exact (triple_endScope (K := { K with loops }) hL hM hfits.globals hfits.handlers).conseq (fun _ hc => hc)
    fun _ c hc => ⟨loops, hs, hc⟩

/-! ## Simple statements -/

theorem SameLoops.triple {K : Site} {L : List Local} {P A : List (Nat × Shape)} {S : Shape}
    {Q : Compiler → Prop} {m : Compile Unit}
    (h : Triple Q m fun _ => At K L P A (some S)) :
    Triple Q m fun _ c => ∃ loops, SameLoops K.loops loops ∧
      At { K with loops } L P A (some S) c :=
  h.conseq (fun _ hc => hc) fun _ _ hc => ⟨K.loops, .refl _, hc⟩

/-- The value on top of the stack becomes a local. -/
theorem triple_bindLocal {K : Site} {L : List Local} {P A : List (Nat × Shape)} {name : String} :
    Triple (At K L P A (some ((K.shape L).change 0 1))) (Compile.addLocal name)
      fun _ => At K (L ++ [⟨name, K.scopeDepth⟩]) P A
        (some (K.shape (L ++ [⟨name, K.scopeDepth⟩]))) := by
  have hlen : (L ++ [(⟨name, K.scopeDepth⟩ : Local)]).length = L.length + 1 := by
    rw [List.length_append, List.length_singleton]
  have hle : L.length ≤ (L ++ [(⟨name, K.scopeDepth⟩ : Local)]).length := hlen ▸ Nat.le_succ _
  refine (triple_addLocal name).conseq (fun _ hc => hc) fun _ c hc => ?_
  refine hc.weaken ⟨hlen.symm, hle, rfl, rfl, fun l hl => hl, rfl⟩ fun m hm hv => ?_
  exact ⟨Nat.le_trans hv.globals hle, Nat.le_refl _, hm,
    fun h hh => Nat.le_trans (hv.handlers h hh) hle, fun l hl => by cases hl⟩

/-- The value on top of the stack is declared. -/
theorem triple_declareLocal {K : Site} {L : List Local} {P A : List (Nat × Shape)} {name : String}
    {line : Nat} (hfits : K.Fits L A) :
    Triple (At K L P A (some ((K.shape L).change 0 1))) (Compile.declareLocal name line) fun _ c =>
      ∃ M loops, ((∀ l ∈ M, l.depth = K.scopeDepth) ∧ SameLoops K.loops loops) ∧
        At (K.after M.length loops) (L ++ M) P A
          (some ((K.after M.length loops).shape (L ++ M))) c := by
  refine triple_read fun c hc => ?_
  let M : List Local := [⟨name, K.scopeDepth⟩]
  have hM : ∀ l ∈ M, l.depth = K.scopeDepth := fun l hl => by rw [List.mem_singleton.mp hl]
  have hlen : (L ++ M).length = L.length + 1 := by rw [List.length_append, List.length_singleton]
  have hlt : L.length < (L ++ M).length := Nat.lt_of_lt_of_eq (Nat.lt_succ_self _) hlen.symm
  have hadd : Triple (· = c) (Compile.addLocal name)
      fun _ => At K (L ++ M) P A (some (K.shape (L ++ M))) :=
    triple_bindLocal.conseq (fun _ hd => hd ▸ hc) fun _ _ hd => hd
  refine triple_bind hadd fun _ => triple_when (fun htop => ?_) fun htop d hd => ?_
  · have hroot : K.enclosingLocals = none := hc.enclosingLocals ▸ htop.2
    have hdepth : K.scopeDepth = 0 := hc.scopeDepth ▸ htop.1
    obtain ⟨hg, hloops, hH⟩ := hfits.top hroot hdepth
    rw [hc.locals]
    let T : Shape := { K.shape (L ++ M) with globals := L.length + 1 }
    have hx : ∀ t pc, exits t pc (.registerGlobal name L.length) (K.shape (L ++ M)) = [.next T] := by
      refine fun t pc => next_eq ?_
      show { K.shape (L ++ M) with globals := max K.globals (L.length + 1) } = T
      rw [hg, Nat.max_eq_right (Nat.le_succ _)]
    refine (triple_emit hx (Nat.le_refl _) (fun m hv => ?_) fun p hp => hp).conseq
      (fun d hd => ⟨hd, hfits.isRoot hroot, hH, hlt⟩) fun _ d hd => ?_
    · exact { hv with globals := Nat.le_of_eq hlen.symm }
    · refine ⟨M, [], ⟨hM, hloops ▸ .refl _⟩, ?_⟩
      have hK : K.after M.length [] = { K with globals := L.length + 1 } := by
        unfold Site.after
        rw [if_pos ⟨hroot, hdepth⟩, hg, ← hloops]
        rfl
      rw [hK]
      obtain ⟨types, anchors, hA, hb⟩ := hd.built
      -- no loop is open here, so no jump depends on the number of globals
      have hb : Built K.role d types (some T)
          (P ++ loopsPend (L.length + 1) K.handlers K.loops) anchors := by
        rw [hloops] at hb ⊢
        exact hb
      exact
        { locals := hd.locals
          enclosingLocals := hd.enclosingLocals
          enclosingUpvalues := hd.enclosingUpvalues
          scopeDepth := hd.scopeDepth
          loops := hd.loops
          upvaluesLe := hd.upvaluesLe
          built := ⟨types, anchors, hA, hb⟩
          handlers := hd.handlers }
  · refine ⟨M, K.loops, ⟨hM, .refl _⟩, ?_⟩
    have hK : K.after M.length K.loops = K := by
      unfold Site.after
      rw [if_neg fun h => htop ⟨hc.scopeDepth.trans h.2, hc.enclosingLocals.trans h.1⟩]
      rfl
    rw [hK]
    exact hd

theorem let_runs {value : Compile Unit} {name : String} {line : Nat} (hv : Pushes value) :
    Runs false (do value; Compile.declareLocal name line) :=
  fun K L P A hfits _ => triple_bind (hv K L P A _ shape_suits) fun _ => triple_declareLocal hfits

theorem fnDef_runs {name : String} {params : List String} {body : Compile Unit} {line : Nat}
    (hbody : Runs true body) : Runs false (Compile.compileFnDef name params body line) :=
  let_runs (compileClosure_pushes hbody)

theorem exprStmt_runs {value : Compile Unit} {line : Nat} (hv : Pushes value) :
    Runs false (do value; Compile.emit .pop line) := by
  refine Stays.runs fun K L P A _ _ => SameLoops.triple (triple_settled fun hset => ?_)
  exact triple_bind (hv K L P A _ shape_suits) fun _ => triple_emitPop hset shape_suits

theorem assign_runs {value : Compile Unit} {name : String} {line : Nat} (hv : Pushes value) :
    Runs false (do value; Compile.compileAssign name line) := by
  refine Stays.runs fun K L P A _ _ => SameLoops.triple (triple_settled fun hset => ?_)
  refine triple_bind (hv K L P A _ shape_suits) fun _ => ?_
  refine triple_bind (triple_resolveMutationTarget name) fun target => ?_
  refine triple_exists fun n => triple_and fun hn => ?_
  refine triple_bind (triple_emitSet ⟨rfl, rfl⟩ (Nat.succ_pos _) hn.2) fun _ => ?_
  exact (triple_emitPop (K := { K with upvalues := n }) hset shape_suits).conseq
    (fun _ hd => hd) fun _ _ hd => hd.lower hn.1

theorem indexAssign_runs {name : String} {index value : Compile Unit} {line : Nat}
    (hi : Pushes index) (hv : Pushes value) :
    Runs false (Compile.compileIndexAssign name index value line) := by
  refine Stays.runs fun K L P A _ _ => SameLoops.triple (triple_settled fun hset => ?_)
  refine triple_bind (triple_resolveMutationTarget name) fun target => ?_
  refine triple_exists fun n => triple_and fun hn => ?_
  refine triple_bind (triple_requireTarget ⟨rfl, rfl⟩) fun _ => ?_
  refine triple_bind (hi { K with upvalues := n } L P A _ shape_suits) fun _ => ?_
  refine triple_bind (hv.on shape_suits) fun _ => ?_
  have hx : ∀ t pc, exits t pc (.setIndex target) ((K.shape L).change 0 (1 + 1)) =
      [.next (K.shape L)] := fun _ _ => next_eq (Shape.change_change (Nat.le_refl 2))
  refine (triple_emit hx (Nat.le_refl _) (fun m hv => hset.valid (a := 2) (b := 0) hv)
    fun p hp => hp).conseq (fun d hd => ⟨hd, hset.free (Nat.le_refl 2), ?_⟩)
    fun _ _ hd => hd.lower (n := n) hn.1
  exact targetOk_mono hn.2 hd.upvaluesLe

theorem return_runs {value : Compile Unit} {line : Nat} (hv : Pushes value) :
    Runs true (do value; Compile.emit .returnValue line) := by
  refine Stays.runs fun K L P A _ hr => SameLoops.triple (triple_valid fun n hvalid => ?_)
  refine triple_bind (hv K L P A _ shape_suits) fun _ => ?_
  have hx : ∀ t pc, ∀ x ∈ exits t pc .returnValue ((K.shape L).change 0 1),
      Emitted shapes A none none x := fun _ _ x hx => by cases hx
  refine (triple_emitLast hx (Nat.le_refl _)).conseq (fun c hc => ⟨hc, hr rfl, Nat.succ_pos _⟩)
    fun _ c hc => ?_
  exact hc.revive (fun m hm => hvalid.of_le hm) fun p hp => hp

/-! ## Control flow -/

section Control

variable {K : Site} {L : List Local} {P A : List (Nat × Shape)} {S : Shape} {line : Nat}

/-- The jump that a condition decides. -/
theorem triple_jumpIfFalse (hset : S.Settled) (hS : S.Suits K L) :
    Triple (At K L P A (some (S.change 0 1))) (Compile.emitJump (.jumpIfFalse 0) line)
      fun off => At K L ((off, S) :: P) A (some S) := by
  have hback : (S.change 0 1).change 1 0 = S := Shape.change_change (Nat.le_refl 1)
  refine triple_emitJump (fun _ => hset.free (Nat.le_refl 1)) (fun t pc x hx => ?_)
    (Nat.le_of_eq hS.1) (fun τ hτ m hv => ?_) fun τ hτ p hp => Option.some.inj hτ ▸ hp
  · have hx : x ∈ [Exit.jump 0 ((S.change 0 1).change 1 0), .next ((S.change 0 1).change 1 0)] := hx
    rw [hback] at hx
    rcases List.mem_cons.mp hx with rfl | hx
    · exact ⟨S, rfl, Shape.Sub.refl _⟩
    · obtain rfl := List.mem_singleton.mp hx
      exact ⟨S, rfl, Shape.Sub.refl _⟩
  · exact Option.some.inj hτ ▸ hset.valid (a := 1) (b := 0) hv

/-- A jump over the code that has been compiled since lands here. -/
theorem triple_land {off : Nat} {e : Nat × Shape} {n : Nat} (hv : S.Valid n) (hS : S.Suits K L) :
    Triple (At K L (e :: (off, S) :: P) A none) (Compile.patchJump off)
      fun _ => At K L (e :: P) A (some S) := by
  refine triple_revive hv hS ((triple_patchJump (Shape.Sub.refl S)).conseq
    (fun c hc => hc.congr fun e => ?_) fun _ _ h => h)
  simp only [List.mem_cons]
  tauto

end Control

theorem if_runs {r r' : Bool} {condition thenBody elseBody : Compile Unit} {elseEmpty : Bool}
    {line : Nat} (hc : Pushes condition) (ht : Runs r thenBody) (he : Runs r' elseBody) :
    Runs (r || r') (Compile.compileIf condition thenBody elseBody elseEmpty line) := by
  refine Stays.runs fun K L P A hfits hr => triple_valid fun n hv => ?_
  have hL := hfits.depths
  refine triple_bind (hc K L P A _ shape_suits) fun _ => ?_
  refine triple_bind (triple_jumpIfFalse hv.settled shape_suits) fun jumpToElse => ?_
  refine triple_bind (triple_inScope ht hfits.inner (fun h => hr (by simp [h])) hL) fun _ => ?_
  refine triple_exists fun loops => triple_and fun hs => ?_
  split
  · exact (triple_patchJump (Shape.Sub.refl _)).conseq (fun _ hc => hc)
      fun _ c hc => ⟨loops, hs, hc⟩
  · refine triple_bind (triple_jump (Nat.le_refl _)) fun jumpOverElse => ?_
    refine triple_bind (triple_land hv ⟨rfl, rfl⟩) fun _ => ?_
    have hfits' : { K with loops }.inner.Fits L A :=
      { hfits.inner with
        loops := hfits.loops.same hs
        top := fun _ hd => absurd hd (Nat.succ_ne_zero _) }
    refine triple_bind (triple_inScope (K := { K with loops }) he hfits'
      (fun h => hr (by simp [h])) hL) fun _ => triple_exists fun loops' => triple_and fun hs' => ?_
    exact (triple_patchJump (Shape.Sub.refl _)).conseq (fun _ hc => hc)
      fun _ c hc => ⟨loops', hs.trans hs', hc⟩

/-! ### Loops -/

section Loops

variable {K : Site} {L : List Local} {P A : List (Nat × Shape)} {cur : Option Shape}

/-- The position of the next instruction is read and remembered. -/
theorem triple_here {α : Type} {S : Shape} {f : Nat → Compile α} {Q : α → Compiler → Prop}
    (h : ∀ start, Triple (At K L P ((start, S) :: A) (some S)) (f start) Q) :
    Triple (At K L P A (some S)) (do let start ← Compile.here; f start) Q :=
  fun c hc => h _ c hc.anchor

theorem triple_localsLen {α : Type} {f : Nat → Compile α} {Q : α → Compiler → Prop}
    (h : Triple (At K L P A cur) (f L.length) Q) :
    Triple (At K L P A cur) (do let n ← Compile.localsLen; f n) Q :=
  fun c hc a d hr => h c hc a d (by rw [← hc.locals]; exact hr)

/-- A loop is opened; no jump waits in it. -/
theorem triple_pushLoop {l : LoopState} (hw : l.waiting = []) (ht : l.tryDepth = 0) :
    Triple (At K L P A cur) (Compile.pushLoop l)
      fun _ => At { K with loops := l :: K.loops } L P A cur := by
  refine Proc.triple_modify fun c hc => ?_
  have h := hc.setLoops (l :: K.loops) K.handlers
    (fun e => by rw [loopsPend, hw, ht]; rfl) hc.handlers
  rwa [← hc.loops] at h ⊢

/-- A loop is closed; its breaks are now among the jumps that wait. -/
theorem triple_popLoop {l : LoopState} {loops : List LoopState} {g : Nat}
    (hl : K.loops = l :: loops) (hw : l.waiting = l.breaks) (ht : l.tryDepth = 0)
    (hg : K.globals = g) :
    Triple (At K L P A cur) Compile.popLoop fun l' c => l' = l ∧
      At { K with loops } L (l.breaks.map (·, l.shape K.handlers g) ++ P) A cur c := by
  intro c hc l' d hr
  unfold Compile.popLoop at hr
  simp only [hc.loops, hl] at hr
  cases hr
  refine ⟨rfl, hc.setLoops _ K.handlers (fun e => ?_) fun p hp => ?_⟩
  · rw [hl, loopsPend, hw, ht, hg]
    simp only [List.drop_zero, List.mem_append]
    tauto
  · obtain ⟨⟨ρ, hρ⟩, hop⟩ := hc.handlers p hp
    exact ⟨⟨ρ, List.mem_append_right _ hρ⟩, hop⟩

/-- The jump at the end of a loop. -/
theorem triple_emitLoop {S : Shape} {start line : Nat} (hA : (start, S) ∈ A)
    (hl : S.locals ≤ L.length) :
    Triple (At K L P A (some S)) (Compile.emit (.loop start) line) fun _ => At K L P A none := by
  refine (triple_emitLast (fun t pc x hx => ?_) hl).conseq (fun c hc => ⟨hc, trivial⟩) fun _ _ h => h
  obtain rfl := List.mem_singleton.mp hx
  exact ⟨S, hA, Shape.Sub.refl S⟩

/-- The body of a loop that has just been opened. -/
theorem Site.Fits.loop (h : K.Fits L A) {l : LoopState} {A' : List (Nat × Shape)}
    (ht : l.tryDepth = 0) (hn : l.localsCount = L.length) (hA : ∀ e ∈ A, e ∈ A')
    (hc : l.continueResolved = true → (l.continueTarget, K.shape L) ∈ A') :
    { K with loops := l :: K.loops }.inner.Fits L A' where
  depths := h.inner.depths
  globals := h.globals
  handlers := h.handlers
  isRoot := h.isRoot
  top _ hd := absurd hd (Nat.succ_ne_zero _)
  loops := by
    refine ⟨ht ▸ Nat.zero_le _, Nat.le_of_eq hn, hn ▸ h.globals, ?_, fun hr => ?_, ?_⟩
    · rw [ht, hn]
      exact h.handlers
    · unfold LoopState.shape
      rw [ht, hn]
      exact hc hr
    · rw [ht, hn]
      exact h.loops.mono hA (Nat.le_refl _)

/-- A loop has kept what does not change, and its enclosing loops are the same. -/
theorem SameLoops.head {l : LoopState} {rest loops : List LoopState}
    (h : SameLoops (l :: rest) loops) :
    ∃ l' rest', loops = l' :: rest' ∧ l'.core = l.core ∧ SameLoops rest rest' := by
  cases loops with
  | nil => cases h
  | cons l' rest' =>
    obtain ⟨hcore, hs⟩ := List.cons.inj h
    exact ⟨l', rest', rfl, hcore, hs⟩

end Loops

theorem while_runs {r : Bool} {condition body : Compile Unit} {line : Nat}
    (hc : Pushes condition) (hb : Runs r body) :
    Runs r (Compile.compileWhile condition body line) := by
  refine Stays.runs fun K L P A hfits hr => triple_valid fun n hv => ?_
  refine triple_here fun start => triple_localsLen ?_
  let l : LoopState := ⟨start, [], [], L.length, true, 0, line⟩
  let K' : Site := { K with loops := l :: K.loops }
  let A' : List (Nat × Shape) := (start, K.shape L) :: A
  refine triple_bind (triple_pushLoop (l := l) rfl rfl) fun _ => ?_
  refine triple_bind (hc K' L P A' _ shape_suits) fun _ => ?_
  refine triple_bind (triple_jumpIfFalse hv.settled shape_suits) fun exitJump => ?_
  have hbody : K'.inner.Fits L A' :=
    hfits.loop rfl rfl (fun e he => List.mem_cons_of_mem _ he) fun _ => List.mem_cons_self
  refine triple_bind (triple_inScope hb hbody hr hfits.depths) fun _ => ?_
  refine triple_exists fun loops => triple_and fun hs => ?_
  obtain ⟨l', rest, rfl, hcore, hs⟩ := SameLoops.head hs
  have hresolved : l'.continueResolved = true := congrArg (·.continueResolved) hcore
  have htry : l'.tryDepth = 0 := congrArg (·.tryDepth) hcore
  have hlocals : l'.localsCount = L.length := congrArg (·.localsCount) hcore
  refine triple_bind (triple_emitLoop List.mem_cons_self (Nat.le_refl _)) fun _ => ?_
  refine triple_bind (triple_revive hv ⟨rfl, rfl⟩ (triple_patchJump (Shape.Sub.refl _))) fun _ => ?_
  refine triple_bind (triple_popLoop (l := l') rfl (by simp [LoopState.waiting, hresolved]) htry
    rfl) fun l'' => triple_and fun heq => ?_
  have hshape : l'.shape K.handlers K.globals = K.shape L := by
    unfold LoopState.shape
    rw [htry, hlocals]
    rfl
  rw [heq]
  refine (triple_patchAll (S := K.shape L) (Shape.Sub.refl _) l'.breaks).conseq
    (fun c hc => hshape ▸ hc) fun _ c hc => ⟨rest, hs, hc.forget fun e he => ?_⟩
  exact List.mem_cons_of_mem _ he

/-! ### Break and continue -/

section Leave

variable {K : Site} {L : List Local} {P A : List (Nat × Shape)} {line : Nat}

/-- The innermost loop is changed, and jumps may begin to wait in it. -/
theorem triple_onLoop {l : LoopState} {rest : List LoopState} {f : LoopState → LoopState}
    {Q : List (Nat × Shape)} {cur : Option Shape} (hK : K.loops = l :: rest)
    (hp : ∀ e, e ∈ Q ++ loopsPend K.globals K.handlers (f l :: rest) ↔
      e ∈ P ++ loopsPend K.globals K.handlers (l :: rest)) :
    Triple (fun c => (∀ p ∈ K.handlers, Waits c.chunk.code Q p.1) ∧ At K L P A cur c)
      (Compile.onLoop f) fun _ => At { K with loops := f l :: rest } L Q A cur := by
  refine Proc.triple_modify fun c ⟨hw, hc⟩ => ?_
  have h := hc.setLoops (f l :: rest) K.handlers
    (fun e => by rw [hK]; exact hp e) hw
  have hloops : c.loops = l :: rest := hc.loops.trans hK
  simp only [hloops]
  exact h

/-- Taking down handlers. -/
theorem triple_teardown {n g : Nat} (hl : n ≤ L.length) (k : Nat) (hs : List (Nat × Nat))
    (hk : k ≤ hs.length) :
    Triple (At K L P A (some (.stmt n hs g))) (Compile.emitTimes .teardownTry line k)
      fun _ => At K L P A (some (.stmt n (hs.drop k) g)) := by
  induction k generalizing hs with
  | zero => exact triple_pure fun c hc => hc
  | succ k ih =>
    obtain ⟨p, rest, rfl⟩ : ∃ p rest, hs = p :: rest := by
      cases hs with
      | nil => exact absurd hk (Nat.not_succ_le_zero _)
      | cons p rest => exact ⟨p, rest, rfl⟩
    have hx : ∀ t pc, exits t pc .teardownTry (.stmt n (p :: rest) g) =
        [.next (.stmt n rest g)] := fun _ _ => rfl
    refine triple_bind ((triple_emit hx hl (fun m hv => { hv with
      handlers := fun h hm => hv.handlers h (List.mem_cons_of_mem _ hm) })
      fun q hq => List.mem_cons_of_mem _ hq).conseq
      (fun c hc => ⟨hc, List.cons_ne_nil _ _⟩) fun _ _ h => h) fun _ => ?_
    exact ih rest (Nat.le_of_succ_le_succ hk)

/-- What `break` and `continue` do before they jump brings the shape of the loop. -/
theorem triple_leaveBody {l : LoopState} (ht : l.tryDepth ≤ K.handlers.length)
    (hn : l.localsCount ≤ L.length) (hg : K.globals ≤ l.localsCount)
    (hh : ∀ h ∈ K.handlers.drop l.tryDepth, h.2 ≤ l.localsCount) :
    Triple (At K L P A (some (K.shape L))) (Compile.leaveBody l line)
      fun _ => At K L P A (some (l.shape K.handlers K.globals)) := by
  refine triple_bind (triple_teardown (Nat.le_refl _) l.tryDepth K.handlers ht) fun _ => ?_
  refine triple_read fun c hc => triple_when (fun hlt => ?_) fun hle d hd => ?_
  · let S : Shape := .stmt L.length (K.handlers.drop l.tryDepth) K.globals
    rw [hc.locals]
    have hcut : S.cut (L.length - l.localsCount) = l.shape K.handlers K.globals := by
      show ({ S with height := _, locals := _ } : Shape) = _
      unfold LoopState.shape Shape.stmt
      congr 1
      · show L.length - (L.length - l.localsCount) = _
        omega
      · show min L.length (L.length - (L.length - l.localsCount)) = _
        omega
    have hx : ∀ t pc, exits t pc (.popN (L.length - l.localsCount)) S =
        [.next (l.shape K.handlers K.globals)] := fun _ _ => next_eq hcut
    have hneed : ∀ t, need t (.popN (L.length - l.localsCount)) S :=
      fun t => ⟨Nat.sub_le .., fun l hl => by cases hl⟩
    exact (triple_emitPlain hneed hx (Nat.le_refl _) (fun m hv => ⟨hg, Nat.le_refl _,
      Nat.le_trans hn hv.bound, hh, fun l hl => by cases hl⟩) rfl).conseq (fun _ hd => hd ▸ hc)
      fun _ _ hd => hd
  · have heq : l.shape K.handlers K.globals =
        .stmt L.length (K.handlers.drop l.tryDepth) K.globals := by
      rw [hc.locals] at hle
      unfold LoopState.shape
      congr 1
      omega
    rw [heq]
    exact hd ▸ hc

/-- A jump out of the body waits in the innermost loop. -/
theorem triple_waitInLoop {l : LoopState} {rest : List LoopState} {f : Nat → LoopState → LoopState}
    (hK : K.loops = l :: rest) (hn : l.localsCount ≤ L.length)
    (hf : ∀ off, (f off l).core = l.core ∧ (f off l).shape K.handlers K.globals =
      l.shape K.handlers K.globals ∧ (f off l).tryDepth = l.tryDepth ∧
      ∀ i, i ∈ (f off l).waiting ↔ i = off ∨ i ∈ l.waiting)
    (hv : ∀ m, L.length ≤ m → (K.shape L).Valid m) :
    Triple (At K L P A (some (l.shape K.handlers K.globals))) (do
      let off ← Compile.emitJump (.jump 0) line
      Compile.onLoop (f off)) fun _ c =>
        ∃ loops, SameLoops K.loops loops ∧ At { K with loops } L P A (some (K.shape L)) c := by
  refine triple_bind (triple_jumpAt hn) fun off => ?_
  obtain ⟨hcore, hshape, htry, hwait⟩ := hf off
  refine (triple_onLoop (f := f off) hK fun e => ?_).conseq
    (fun c ⟨hop, hc⟩ => ⟨fun p hp => ?_, hc⟩)
    fun _ c hc => ⟨f off l :: rest, ?_, hc.revive hv fun p hp => hp⟩
  · rw [loopsPend, loopsPend, hshape, htry]
    simp only [List.mem_append, List.mem_map, List.mem_cons, hwait]
    constructor
    · rintro (h | ⟨i, rfl | h, rfl⟩ | h)
      · exact .inl (.inr h)
      · exact .inl (.inl rfl)
      · exact .inr (.inl ⟨i, h, rfl⟩)
      · exact .inr (.inr h)
    · rintro ((rfl | h) | ⟨i, h, rfl⟩ | h)
      · exact .inr (.inl ⟨off, .inl rfl, rfl⟩)
      · exact .inl h
      · exact .inr (.inl ⟨i, .inr h, rfl⟩)
      · exact .inr (.inr h)
  · -- a handler is set up by another instruction than the jump
    obtain ⟨⟨ρ, hρ⟩, t, ht⟩ := hc.handlers p hp
    refine ⟨⟨ρ, (List.mem_cons.mp hρ).resolve_left fun heq => ?_⟩, t, ht⟩
    rw [(Prod.mk.inj heq).1, hop] at ht
    cases ht
  · show (f off l :: rest).map LoopState.core = K.loops.map LoopState.core
    rw [hK, List.map_cons, List.map_cons, hcore]

end Leave

theorem break_runs {line : Nat} : Runs false (Compile.compileBreak line) := by
  refine Stays.runs fun K L P A hfits _ => triple_valid fun n hv => triple_read fun c hc => ?_
  split
  case h_1 => exact Proc.triple_stop _
  case h_2 l rest hl =>
    have hK : K.loops = l :: rest := hc.loops.symm.trans hl
    obtain ⟨ht, hn, hg, hh, -, -⟩ := hK ▸ hfits.loops
    refine triple_bind ((triple_leaveBody ht hn hg hh).conseq (fun _ hd => hd ▸ hc) fun _ _ h => h)
      fun _ => ?_
    refine triple_waitInLoop (f := fun off l => { l with breaks := l.breaks ++ [off] }) hK hn
      (fun off => ⟨rfl, rfl, rfl, fun i => ?_⟩) fun m hm => hv.of_le hm
    simp only [LoopState.waiting, List.mem_append, List.mem_singleton]
    tauto

theorem continue_runs {line : Nat} : Runs false (Compile.compileContinue line) := by
  refine Stays.runs fun K L P A hfits _ => triple_valid fun n hv => triple_read fun c hc => ?_
  split
  case h_1 => exact Proc.triple_stop _
  case h_2 l rest hl =>
    have hK : K.loops = l :: rest := hc.loops.symm.trans hl
    obtain ⟨ht, hn, hg, hh, hcont, -⟩ := hK ▸ hfits.loops
    refine triple_bind ((triple_leaveBody ht hn hg hh).conseq (fun _ hd => hd ▸ hc) fun _ _ h => h)
      fun _ => ?_
    split
    case isTrue hr =>
      refine (triple_emitLoop (hcont hr) hn).conseq (fun _ hd => hd)
        fun _ d hd => ⟨K.loops, .refl _, ?_⟩
      exact hd.revive (fun m hm => hv.of_le hm) fun p hp => hp
    case isFalse hr =>
      refine triple_waitInLoop (f := fun off l => { l with continues := l.continues ++ [off] }) hK
        hn (fun off => ⟨rfl, rfl, rfl, fun i => ?_⟩) fun m hm => hv.of_le hm
      simp only [LoopState.waiting, hr, Bool.false_eq_true, if_false, List.mem_append,
        List.mem_singleton]
      tauto

/-! ### For -/

section For

variable {K : Site} {L : List Local} {P A : List (Nat × Shape)} {S : Shape} {line : Nat}

/-- The hidden locals of a `for` loop. -/
def forLocals (K : Site) (var : String) : List Local :=
  [⟨"__collection__", K.scopeDepth⟩, ⟨"__index__", K.scopeDepth⟩, ⟨var, K.scopeDepth⟩]

theorem triple_forHeader {var : String} {iter : Compile Unit} (hi : Pushes iter) :
    Triple (At K L P A (some (K.shape L))) (Compile.forHeader var iter line) fun slots c =>
      slots = (L.length, L.length + 1) ∧
        At K (L ++ forLocals K var) P A (some (K.shape (L ++ forLocals K var))) c := by
  refine triple_settled fun hset => triple_bind (hi K L P A _ shape_suits) fun _ => ?_
  have hiter : ∀ t τ, τ.Free 1 → need t .toIterList τ := fun _ _ hf => hf
  refine triple_bind (triple_emitStack (b := 1) hset shape_suits (Nat.le_refl 1) hiter
    fun _ _ _ => rfl) fun _ => ?_
  refine triple_localsLen (triple_bind triple_bindLocal fun _ => ?_)
  have hzero : Pushes (Compile.emitConstant (.int 0) line) := emitConstant_pushes rfl trivial
  have hnull : Pushes (Compile.emitConstant .null line) := emitConstant_pushes rfl trivial
  refine triple_bind (hzero _ _ _ _ _ shape_suits) fun _ => ?_
  refine triple_localsLen (triple_bind triple_bindLocal fun _ => ?_)
  refine triple_bind (hnull _ _ _ _ _ shape_suits) fun _ => ?_
  rw [List.append_assoc]
  refine triple_bind triple_bindLocal fun _ => triple_pure fun c hc => ⟨?_, ?_⟩
  · rw [List.length_append, List.length_singleton]
  · rw [List.append_assoc] at hc
    exact hc

/-- The slots of the hidden locals are below the locals of the loop. -/
theorem forLocals_length {var : String} : (L ++ forLocals K var).length = L.length + 3 := by
  rw [List.length_append]
  rfl

theorem triple_forAdvance {var : String} (hv : ∃ n, (K.shape (L ++ forLocals K var)).Valid n)
    (hg : K.globals ≤ L.length) (hh : ∀ h ∈ K.handlers, h.2 ≤ L.length) :
    Triple (At K (L ++ forLocals K var) P A (some (K.shape (L ++ forLocals K var))))
      (Compile.forAdvance L.length (L.length + 1) line) fun off =>
        At K (L ++ forLocals K var) ((off, K.shape (L ++ forLocals K var)) :: P) A
          (some (K.shape (L ++ forLocals K var))) := by
  obtain ⟨n, hv⟩ := hv
  have hset := hv.settled
  have hlen : (L ++ forLocals K var).length = L.length + 3 := forLocals_length
  let S := K.shape (L ++ forLocals K var)
  have hS : S.Suits K (L ++ forLocals K var) := shape_suits
  have hl : S.locals = L.length + 3 := hlen
  have hindex : ∀ t, need t (.getLocal (L.length + 1)) S := by
    intro t
    show L.length + 1 < S.locals
    omega
  have hlenLocal : ∀ t, need t (.lenLocal L.length) (S.change 0 1) := by
    intro t
    show L.length < S.locals
    omega
  have hlt : ∀ t τ, τ.Free 2 → need t .lt τ := fun _ _ hf => hf
  refine triple_bind (triple_emitPlain hindex (fun _ _ => rfl) (Nat.le_refl _)
    (fun m hv => hset.valid (a := 0) hv) rfl) fun _ => ?_
  refine triple_bind (triple_emitPlain hlenLocal
    (fun _ _ => next_eq (Shape.change_change (Nat.zero_le 1))) (Nat.le_refl _)
    (fun m hv => hset.valid (a := 1) hv) rfl) fun _ => ?_
  refine triple_bind (triple_emitStack hset hS (Nat.le_refl 2) hlt fun _ _ _ => rfl) fun _ => ?_
  refine triple_bind (triple_jumpIfFalse hset hS) fun off => ?_
  -- the variable of the last round is popped, and the next element takes its slot
  let T := S.cut 1
  have hT : T.Settled := ⟨Nat.min_le_right .., fun l hm => by cases hm⟩
  have hTl : T.locals = L.length + 2 := by
    show min S.locals (S.height - 1) = L.length + 2
    have : S.height = L.length + 3 := hlen
    omega
  have hTle : T.locals ≤ (L ++ forLocals K var).length := by omega
  have hpop : ∀ t, need t .pop S := by
    refine fun t => ⟨?_, fun l hm => by cases hm⟩
    show 0 < (L ++ forLocals K var).length
    omega
  have hTv : ∀ m, S.Valid m → T.Valid m := by
    refine fun m hv => ⟨?_, hT.locals, ?_, fun h hm => ?_, fun l hm => by cases hm⟩
    · show K.globals ≤ T.locals
      omega
    · exact Nat.le_trans (by omega) hv.bound
    · have := hh h hm
      omega
  refine triple_bind (triple_emitPlain hpop (fun _ _ => rfl) (Nat.le_refl _) hTv rfl) fun _ => ?_
  have hindex' : ∀ t, need t (.getLocal (L.length + 1)) T := by
    intro t
    show L.length + 1 < T.locals
    omega
  refine triple_bind (triple_emitPlain hindex' (fun _ _ => rfl) hTle
    (fun m hv => hT.valid (a := 0) hv) rfl) fun _ => ?_
  have helement : ∀ t, need t (.indexLocal L.length) (T.change 0 1) := by
    refine fun t => ⟨?_, hT.free (Nat.le_refl 1)⟩
    show L.length < T.locals
    omega
  refine triple_bind (triple_emitPlain helement
    (fun _ _ => next_eq (Shape.change_change (Nat.le_refl 1))) hTle
    (fun m hv => hT.valid (a := 1) hv) rfl) fun _ => ?_
  refine triple_pure fun c hc => hc.weaken ⟨?_, ?_, rfl, rfl, (fun l hm => by cases hm), rfl⟩
    fun m hm _ => hv.of_le hm
  · show (L ++ forLocals K var).length - 1 - 0 + 1 = (L ++ forLocals K var).length
    omega
  · show T.locals ≤ (L ++ forLocals K var).length
    omega

theorem triple_forIncrement {slot : Nat} (hset : S.Settled) (hS : S.Suits K L)
    (hslot : slot < S.locals) :
    Triple (At K L P A (some S)) (Compile.forIncrement slot line) fun _ => At K L P A (some S) := by
  have hget : ∀ t, need t (.getLocal slot) S := fun _ => hslot
  have hsetLocal : ∀ t, need t (.setLocal slot) (S.change 0 1) := fun _ => hslot
  have hadd : ∀ t τ, τ.Free 2 → need t .add τ := fun _ _ hf => hf
  have hone : Pushes (Compile.emitConstant (.int 1) line) := emitConstant_pushes rfl trivial
  refine triple_bind (triple_emitPlain hget (fun _ _ => rfl) (Nat.le_of_eq hS.1)
    (fun m hv => hset.valid (a := 0) hv) rfl) fun _ => ?_
  refine triple_bind (hone.on hS) fun _ => ?_
  refine triple_bind (triple_emitStack hset hS (Nat.le_refl 2) hadd fun _ _ _ => rfl) fun _ => ?_
  refine triple_bind (triple_emitKeep hS hsetLocal fun _ _ _ => rfl) fun _ => ?_
  exact triple_emitPop hset hS

/-- The continues of a loop land here. -/
theorem triple_patchContinues {l : LoopState} {rest : List LoopState} (hK : K.loops = l :: rest)
    (hr : l.continueResolved = false) (hS : l.shape K.handlers K.globals = S) :
    Triple (At K L P A (some S)) Compile.patchContinues fun _ c => ∃ l' : LoopState,
      (l'.breaks = l.breaks ∧ l'.continues = [] ∧ l'.core = l.core) ∧
        At { K with loops := l' :: rest } L P A (some S) c := by
  refine triple_here fun start => ?_
  let l₁ : LoopState := { l with continueTarget := start }
  let l₂ : LoopState := { l₁ with continues := [] }
  have hfirst : Triple (At K L P ((start, S) :: A) (some S))
      (Compile.onLoop fun l => { l with continueTarget := start })
      fun _ => At { K with loops := l₁ :: rest } L P ((start, S) :: A) (some S) :=
    (triple_onLoop hK fun e => Iff.rfl).conseq (fun c hc => ⟨hc.handlers, hc⟩) fun _ _ h => h
  refine triple_bind hfirst fun _ => triple_read fun c hc => ?_
  have hloops : c.loops = l₁ :: rest := hc.loops
  simp only [hloops]
  have hsecond : Triple (· = c) (Compile.onLoop fun l => { l with continues := [] })
      fun _ => At { K with loops := l₂ :: rest } L (l.continues.map (·, S) ++ P)
        ((start, S) :: A) (some S) := by
    refine (triple_onLoop (K := { K with loops := l₁ :: rest }) (l := l₁)
      (f := fun l => { l with continues := [] })
      (Q := l.continues.map (·, S) ++ P) rfl fun e => ?_).conseq
      (fun d hd => ⟨fun p hp => ?_, hd ▸ hc⟩) fun _ _ h => h
    · show e ∈ l.continues.map (·, S) ++ P ++ loopsPend K.globals K.handlers (l₂ :: rest) ↔
        e ∈ P ++ loopsPend K.globals K.handlers (l₁ :: rest)
      have h₁ : l₁.shape K.handlers K.globals = S := hS
      have h₂ : l₂.shape K.handlers K.globals = S := hS
      have hw₁ : l₁.waiting = l.breaks ++ l.continues := by
        simp only [LoopState.waiting, l₁, hr, Bool.false_eq_true, if_false]
      have hw₂ : l₂.waiting = l.breaks := by
        simp only [LoopState.waiting, l₂, l₁, hr, Bool.false_eq_true, if_false, List.append_nil]
      rw [loopsPend, loopsPend, h₁, h₂, hw₁, hw₂, List.map_append]
      simp only [List.mem_append, l₁, l₂]
      tauto
    · subst hd
      obtain ⟨⟨ρ, hρ⟩, hop⟩ := hc.handlers p hp
      exact ⟨⟨ρ, List.mem_append_right _ hρ⟩, hop⟩
  refine triple_bind hsecond fun _ => ?_
  refine (triple_patchAll (Shape.Sub.refl S) l.continues).conseq (fun _ hd => hd) fun _ d hd => ?_
  refine ⟨l₂, ⟨rfl, rfl, ?_⟩, hd.forget fun e he => List.mem_cons_of_mem _ he⟩
  simp [LoopState.core, l₂, l₁, hr]

end For

theorem for_runs {r : Bool} {var : String} {iter body : Compile Unit} {line : Nat}
    (hi : Pushes iter) (hb : Runs r body) : Runs r (Compile.compileFor var iter body line) := by
  refine Stays.runs fun K L P A hfits hr => triple_bind triple_beginScope fun _ => ?_
  refine triple_bind (triple_forHeader (K := K.inner) hi) fun slots => ?_
  refine triple_and fun hslots => triple_valid fun n hv => ?_
  subst hslots
  let L' : List Local := L ++ forLocals K.inner var
  have hlen : L'.length = L.length + 3 := forLocals_length
  have hfits' : K.inner.Fits L' A := by
    refine ⟨fun l hl => ?_, Nat.le_trans hfits.globals (by omega),
      fun h hm => Nat.le_trans (hfits.handlers h hm) (by omega), hfits.isRoot,
      fun _ hd => absurd hd (Nat.succ_ne_zero _),
      hfits.loops.mono (fun e he => he) (by omega)⟩
    rcases List.mem_append.mp hl with hl | hl
    · exact hfits.inner.depths l hl
    · simp only [forLocals, List.mem_cons, List.not_mem_nil, or_false] at hl
      rcases hl with rfl | rfl | rfl <;> exact Nat.le_refl _
  refine triple_here fun start => triple_localsLen ?_
  let l : LoopState := ⟨0, [], [], L'.length, false, 0, line⟩
  let K' : Site := { K.inner with loops := l :: K.loops }
  let A' : List (Nat × Shape) := (start, K.inner.shape L') :: A
  refine triple_bind (triple_pushLoop (l := l) rfl rfl) fun _ => ?_
  refine triple_bind (triple_forAdvance (K := K') ⟨n, hv⟩ hfits.globals hfits.handlers) fun exitJump => ?_
  have hbody : K'.inner.Fits L' A' :=
    hfits'.loop rfl rfl (fun e he => List.mem_cons_of_mem _ he) fun h => by cases h
  refine triple_bind (triple_inScope (K := K') hb hbody hr hfits'.depths) fun _ => ?_
  refine triple_exists fun loops => triple_and fun hs => ?_
  obtain ⟨l', rest, rfl, hcore, hs⟩ := SameLoops.head hs
  have hresolved : l'.continueResolved = false := congrArg (·.continueResolved) hcore
  have hshape : ∀ l' : LoopState, l'.core = l.core →
      l'.shape K.handlers K.globals = K.inner.shape L' := by
    intro l' hcore
    have htry : l'.tryDepth = 0 := congrArg (·.tryDepth) hcore
    have hlocals : l'.localsCount = L'.length := congrArg (·.localsCount) hcore
    unfold LoopState.shape
    rw [htry, hlocals]
    rfl
  refine triple_bind (triple_patchContinues (K := { K' with loops := l' :: rest }) rfl hresolved
    (hshape l' hcore)) fun _ => ?_
  refine triple_exists fun l'' => triple_and fun ⟨_, hcont, hcore'⟩ => ?_
  have hcore'' := hcore'.trans hcore
  have hindex : L.length + 1 < (K.inner.shape L').locals := by
    show L.length + 1 < L'.length
    omega
  refine triple_bind (triple_forIncrement hv.settled ⟨rfl, rfl⟩ hindex) fun _ => ?_
  refine triple_bind (triple_emitLoop List.mem_cons_self (Nat.le_refl _)) fun _ => ?_
  refine triple_bind (triple_revive hv ⟨rfl, rfl⟩ (triple_patchJump (Shape.Sub.refl _))) fun _ => ?_
  have hwaiting : l''.waiting = l''.breaks := by
    simp [LoopState.waiting, hcont]
  refine triple_bind (triple_popLoop (K := { K' with loops := l'' :: rest }) (l := l'') rfl hwaiting
    (congrArg (·.tryDepth) hcore'') rfl) fun popped => triple_and fun heq => ?_
  rw [heq]
  have hpatch : Triple
      (At { K' with loops := rest } L' (l''.breaks.map (·, l''.shape K.handlers K.globals) ++ P) A'
        (some (K.inner.shape L')))
      (Compile.patchAll l''.breaks)
      fun _ => At { K.inner with loops := rest } L' P A (some (K.inner.shape L')) :=
    (triple_patchAll (Shape.Sub.refl _) l''.breaks).conseq
      (fun c hc => (hshape l'' hcore'') ▸ hc)
      fun _ c hc => hc.forget fun e he => List.mem_cons_of_mem _ he
  refine triple_bind hpatch fun _ => ?_
  refine (triple_endScope (K := { K with loops := rest }) (L := L) (M := forLocals K.inner var)
    hfits.depths (fun l hl => ?_) hfits.globals hfits.handlers).conseq (fun _ hc => hc)
    fun _ c hc => ⟨rest, hs, hc⟩
  simp only [forLocals, List.mem_cons, List.not_mem_nil, or_false] at hl
  rcases hl with rfl | rfl | rfl <;> rfl

/-! ### Try and catch -/

/-- The innermost loop with another number of handlers. -/
def onTryDepth (f : Nat → Nat) : List LoopState → List LoopState
  | [] => []
  | l :: rest => { l with tryDepth := f l.tryDepth } :: rest

theorem onLoop_tryDepth (f : Nat → Nat) (c : Compiler) :
    (Compile.onLoop fun l => { l with tryDepth := f l.tryDepth }).run c =
      (.ok (), { c with loops := onTryDepth f c.loops }) := by
  obtain ⟨chunk, locals, depth, loops, upvalues, el, eu, m⟩ := c
  cases loops <;> rfl

theorem loopsPend_deeper (g : Nat) (setup : Nat × Nat) (H : List (Nat × Nat)) (loops : List LoopState) :
    loopsPend g (setup :: H) (onTryDepth (· + 1) loops) = loopsPend g H loops := by
  cases loops <;> rfl

theorem LoopsFit.deeper {A : List (Nat × Shape)} {g n : Nat} {setup : Nat × Nat}
    {H : List (Nat × Nat)} {loops : List LoopState} (h : LoopsFit A g H n loops) :
    LoopsFit A g (setup :: H) n (onTryDepth (· + 1) loops) := by
  cases loops with
  | nil => trivial
  | cons l rest =>
    obtain ⟨ht, hn, hg, hh, hc, hrest⟩ := h
    exact ⟨Nat.succ_le_succ ht, hn, hg, hh, hc, hrest⟩

/-- After the body of a `try` the loops are those of before it. -/
theorem SameLoops.leave {loops loops' : List LoopState}
    (h : SameLoops (onTryDepth (· + 1) loops) loops') :
    SameLoops loops (onTryDepth (· - 1) loops') ∧
      ∀ g setup H, loopsPend g H (onTryDepth (· - 1) loops') = loopsPend g (setup :: H) loops' := by
  cases loops with
  | nil =>
    obtain rfl : loops' = [] := List.map_eq_nil_iff.mp h
    exact ⟨rfl, fun _ _ _ => rfl⟩
  | cons l rest =>
    obtain ⟨l', rest', rfl, hcore, hs⟩ := SameLoops.head h
    have htry : l'.tryDepth = l.tryDepth + 1 := congrArg (·.tryDepth) hcore
    refine ⟨?_, fun g setup H => ?_⟩
    · show ({ l' with tryDepth := l'.tryDepth - 1 } : LoopState).core :: rest'.map LoopState.core =
        l.core :: rest.map LoopState.core
      have hhead : ({ l' with tryDepth := l'.tryDepth - 1 } : LoopState).core = l.core := by
        unfold LoopState.core at hcore ⊢
        simp only [LoopState.mk.injEq] at hcore ⊢
        obtain ⟨h₁, -, -, h₂, h₃, -, h₄⟩ := hcore
        exact ⟨h₁, trivial, trivial, h₂, h₃, by rw [htry]; rfl, h₄⟩
      rw [hhead, hs]
    · show loopsPend g H ({ l' with tryDepth := l'.tryDepth - 1 } :: rest') = _
      rw [loopsPend, loopsPend]
      unfold LoopState.shape LoopState.waiting
      simp only [htry, Nat.add_sub_cancel, List.drop_succ_cons]

section Try

variable {K : Site} {L : List Local} {P A : List (Nat × Shape)} {line : Nat}

/-- The body of a `try` whose handler is set up at `setup`. -/
def Site.guarded (K : Site) (setup locals : Nat) : Site :=
  { K with handlers := (setup, locals) :: K.handlers, loops := onTryDepth (· + 1) K.loops }

/-- A handler is set up; its catch block waits. -/
theorem triple_setupTry {α : Type} {f : Nat → Compile α} {Q : α → Compiler → Prop}
    (h : ∀ setup, (∀ h ∈ K.handlers, h.1 ≠ setup) →
      Triple (At (K.guarded setup L.length) L ((setup, (K.shape L).change 0 1) :: P) A
        (some ((K.guarded setup L.length).shape L))) (f setup) Q) :
    Triple (At K L P A (some (K.shape L))) (do
      let setup ← Compile.here
      Compile.emit (.setupTry 0) line
      Compile.onLoop fun l => { l with tryDepth := l.tryDepth + 1 }
      f setup) Q := by
  intro c hc a d hr
  let setup := c.chunk.code.length
  have hfresh : ∀ h ∈ K.handlers, h.1 ≠ setup := fun h hm heq => by
    obtain ⟨-, t, ht⟩ := hc.handlers h hm
    exact Nat.ne_of_lt (List.getElem?_eq_some_iff.mp ht).1 heq
  have hemit : At K L ((setup, (K.shape L).change 0 1) :: P) A (some ((K.guarded setup L.length).shape L))
      { c with chunk := c.chunk.emit (.setupTry 0) line c.locals.length } := by
    refine hc.emit (w := some ((K.shape L).change 0 1)) ⟨rfl, rfl, rfl⟩ (fun x hx => ?_) (Nat.le_refl _)
      (fun τ hτ m hv => ?_) fun τ hτ p hp => ?_
    · rcases List.mem_cons.mp hx with rfl | hx
      · exact ⟨_, rfl, Shape.Sub.refl _⟩
      · obtain rfl := List.mem_singleton.mp hx
        exact ⟨_, rfl, Shape.Sub.refl _⟩
    · cases hτ
      refine { hv with handlers := fun h hm => ?_ }
      rcases List.mem_cons.mp hm with rfl | hm
      · exact Nat.le_refl _
      · exact hv.handlers h hm
    · cases hτ
      rcases List.mem_cons.mp hp with rfl | hp
      · exact .inr ⟨rfl, rfl, 0, rfl⟩
      · exact .inl hp
  have hguarded := hemit.setLoops (onTryDepth (· + 1) K.loops)
    ((setup, L.length) :: K.handlers) (fun e => by rw [loopsPend_deeper]) fun p hp => by
      rcases List.mem_cons.mp hp with rfl | hp
      · exact ⟨⟨_, List.mem_cons_self⟩, 0, List.getElem?_concat_length⟩
      · exact hemit.handlers p hp
  refine h setup hfresh _ hguarded a d ?_
  rw [← hr]
  show (f setup).run _ = ((Compile.onLoop fun l => { l with tryDepth := l.tryDepth + 1 }) >>=
    fun _ => f setup).run _
  rw [Proc.bind_run_ok (onLoop_tryDepth (· + 1) _)]
  show (f setup).run { c with chunk := _, loops := onTryDepth (· + 1) K.loops } = _
  rw [← hc.loops]

/-- The instruction at `setup` sets up a handler. -/
def IsSetup (setup : Nat) (c : Compiler) : Prop := ∃ t, c.chunk.code[setup]? = some (.setupTry t)

/-- The handler is taken down. -/
theorem triple_teardownTry {setup : Nat} {loops : List LoopState} :
    Triple (At { K.guarded setup L.length with loops } L P A (some ((K.guarded setup L.length).shape L)))
      (Compile.emit .teardownTry line)
      fun _ => At { K.guarded setup L.length with loops } L P A (some (K.shape L)) := by
  have hx : ∀ t pc, exits t pc .teardownTry ((K.guarded setup L.length).shape L) = [.next (K.shape L)] :=
    fun _ _ => rfl
  exact (triple_emit hx (Nat.le_refl _) (fun m hv => { hv with
    handlers := fun h hm => hv.handlers h (List.mem_cons_of_mem _ hm) })
    fun p hp => List.mem_cons_of_mem _ hp).conseq
    (fun c hc => ⟨hc, List.cons_ne_nil _ _⟩) fun _ _ h => h

/-- After the body the loops are as before. -/
theorem triple_leaveTry {setup : Nat} {loops : List LoopState}
    (hs : SameLoops (onTryDepth (· + 1) K.loops) loops) :
    Triple (At { K.guarded setup L.length with loops } L P A (some (K.shape L)))
      (Compile.onLoop fun l => { l with tryDepth := l.tryDepth - 1 }) fun _ c => IsSetup setup c ∧
        At { K with loops := onTryDepth (· - 1) loops } L P A (some (K.shape L)) c := by
  intro c hc u d hr
  rw [onLoop_tryDepth (· - 1)] at hr
  cases hr
  refine ⟨(hc.handlers (setup, L.length) List.mem_cons_self).2, ?_⟩
  rw [show c.loops = loops from hc.loops]
  exact hc.setLoops _ K.handlers (fun e => by rw [(SameLoops.leave hs).2 _ (setup, L.length)]; rfl)
    fun p hp => hc.handlers p (List.mem_cons_of_mem _ hp)

/-- The jump over the catch block. -/
theorem triple_jumpOverCatch {setup : Nat} {S : Shape} (hl : S.locals ≤ L.length) :
    Triple (fun c => IsSetup setup c ∧ At K L P A (some S) c)
      (Compile.emitJump (.jump 0) line) fun off c =>
        IsSetup setup c ∧ At K L ((off, S) :: P) A none c := by
  rintro c ⟨⟨t, ht⟩, hc⟩ off d hr
  refine ⟨?_, triple_jump hl c hc off d hr⟩
  cases hr
  refine ⟨t, ?_⟩
  show (c.chunk.code ++ [_])[setup]? = _
  rw [List.getElem?_append_left (List.getElem?_eq_some_iff.mp ht).1]
  exact ht

/-- The catch block begins here, with the error on top of the stack. -/
theorem triple_patchSetup {setup n : Nat} {e : Nat × Shape} (hfresh : ∀ h ∈ K.handlers, h.1 ≠ setup)
    (hv : (K.shape L).Valid n) :
    Triple
      (fun c => IsSetup setup c ∧ At K L (e :: (setup, (K.shape L).change 0 1) :: P) A none c)
      (Compile.patchSetup setup) fun _ => At K L (e :: P) A (some ((K.shape L).change 0 1)) := by
  rintro c ⟨⟨t, ht⟩, hc⟩ u d hr
  simp only [Compile.patchSetup, ht] at hr
  cases hr
  have hcaught : ∀ m, L.length ≤ m → ((K.shape L).change 0 1).Valid m := fun m hm =>
    hv.settled.valid (a := 0) (hv.of_le hm)
  have hc : At K L ((setup, (K.shape L).change 0 1) :: e :: P) A
      (some ((K.shape L).change 0 1)) c :=
    (hc.revive hcaught fun p hp => hp).congr fun e => by
      simp only [List.mem_cons]
      tauto
  exact hc.patch (Shape.Sub.refl _) ht (fun _ _ hn => hn) (fun _ _ => rfl)
    fun _ _ => ⟨hfresh, hfresh, rfl⟩

end Try

theorem try_runs {r r' : Bool} {tryBody catchBody : Compile Unit} {var : String} {line : Nat}
    (ht : Runs r tryBody) (hc : Runs r' catchBody) :
    Runs (r || r') (Compile.compileTryCatch tryBody var catchBody line) := by
  refine Stays.runs fun K L P A hfits hr => triple_valid fun n hv => ?_
  refine triple_setupTry fun setup hfresh => ?_
  have hbody : (K.guarded setup L.length).inner.Fits L A :=
    { depths := hfits.inner.depths
      globals := hfits.globals
      handlers := fun h hm => by
        rcases List.mem_cons.mp hm with rfl | hm
        · exact Nat.le_refl _
        · exact hfits.handlers h hm
      isRoot := hfits.isRoot
      top := fun _ hd => absurd hd (Nat.succ_ne_zero _)
      loops := hfits.loops.deeper }
  refine triple_bind (triple_inScope ht hbody (fun h => hr (by simp [h])) hfits.depths) fun _ => ?_
  refine triple_exists fun loops => triple_and fun hs => ?_
  refine triple_bind triple_teardownTry fun _ => triple_bind (triple_leaveTry hs) fun _ => ?_
  let K' : Site := { K with loops := onTryDepth (· - 1) loops }
  have hsame : SameLoops K.loops K'.loops := (SameLoops.leave hs).1
  refine triple_bind (triple_jumpOverCatch (K := K') (Nat.le_refl _)) fun jumpOverCatch => ?_
  refine triple_bind (triple_patchSetup (K := K') hfresh hv) fun _ => ?_
  refine triple_bind triple_beginScope fun _ => ?_
  let M : List Local := [⟨var, K.scopeDepth + 1⟩]
  have hcatch : K'.inner.Fits (L ++ M) A :=
    { depths := fun l hl => by
        rcases List.mem_append.mp hl with hl | hl
        · exact hfits.inner.depths l hl
        · rw [List.mem_singleton.mp hl]
          exact Nat.le_refl _
      globals := Nat.le_trans hfits.globals (by rw [List.length_append]; exact Nat.le_add_right ..)
      handlers := fun h hm => Nat.le_trans (hfits.handlers h hm)
        (by rw [List.length_append]; exact Nat.le_add_right ..)
      isRoot := hfits.isRoot
      top := fun _ hd => absurd hd (Nat.succ_ne_zero _)
      loops := (hfits.loops.same hsame).mono (fun e he => he)
        (by rw [List.length_append]; exact Nat.le_add_right ..) }
  refine triple_bind (triple_bindLocal (K := K'.inner)) fun _ => ?_
  refine triple_bind (hc K'.inner (L ++ M) _ A hcatch fun h => hr (by simp [h])) fun _ => ?_
  refine triple_exists fun M' => triple_exists fun loops' => triple_and fun ⟨hM', hs'⟩ => ?_
  rw [Site.inner_after, List.append_assoc]
  let K'' : Site := { K with loops := loops' }
  refine triple_bind (triple_endScope (K := K'') (M := M ++ M') hfits.depths (fun l hl => ?_)
    hfits.globals hfits.handlers) fun _ => ?_
  · rcases List.mem_append.mp hl with hl | hl
    · rw [List.mem_singleton.mp hl]
    · exact hM' l hl
  · exact (triple_patchJump (Shape.Sub.refl _)).conseq (fun _ hc => hc)
      fun _ c hc => ⟨loops', hsame.trans hs', hc⟩

/-! ## The recursion over the tree -/

mutual

/-- A `return` that is not in the body of a function defined inside. -/
def returnsOut : Stmt → Bool
  | .«return» .. => true
  | .«if» _ thenBody elseBody _ => anyReturnsOut thenBody || anyReturnsOut elseBody
  | .«while» _ body _ | .«for» _ _ body _ => anyReturnsOut body
  | .tryCatch tryBody _ catchBody _ => anyReturnsOut tryBody || anyReturnsOut catchBody
  | _ => false

def anyReturnsOut : List Stmt → Bool
  | [] => false
  | s :: rest => returnsOut s || anyReturnsOut rest

end

mutual

theorem compileStmt_runs (s : Stmt) : Runs (returnsOut s) (compileStmt s) := by
  cases s with
  | «let» name value line => exact (let_runs (compileExpr_pushes value line)).marked
  | assign name value line => exact (assign_runs (compileExpr_pushes value line)).marked
  | indexAssign name index value line =>
    exact (indexAssign_runs (compileExpr_pushes index line) (compileExpr_pushes value line)).marked
  | exprStmt e line => exact (exprStmt_runs (compileExpr_pushes e line)).marked
  | «if» condition thenBody elseBody line =>
    exact (if_runs (compileExpr_pushes condition line) (compileStmts_runs thenBody)
      (compileStmts_runs elseBody)).marked
  | «while» condition body line =>
    exact (while_runs (compileExpr_pushes condition line) (compileStmts_runs body)).marked
  | «for» var iter body line =>
    exact (for_runs (compileExpr_pushes iter line) (compileStmts_runs body)).marked
  | «break» line => exact break_runs.marked
  | «continue» line => exact continue_runs.marked
  | fnDef name params body line =>
    exact (fnDef_runs ((compileStmts_runs body).mono fun _ => rfl)).marked
  | «return» value line => exact (return_runs (compileExpr_pushes value line)).marked
  | «import» path line =>
    exact Runs.marked fun _ _ _ _ _ _ => Proc.triple_stop _
  | tryCatch tryBody var catchBody line =>
    exact (try_runs (compileStmts_runs tryBody) (compileStmts_runs catchBody)).marked

theorem compileStmts_runs (ss : List Stmt) : Runs (anyReturnsOut ss) (compileStmts ss) := by
  cases ss with
  | nil => exact Runs.nil
  | cons s rest => exact (compileStmt_runs s).append (compileStmts_runs rest)

theorem compileExpr_pushes (e : Expr) (line : Nat) : Pushes (compileExpr e line) := by
  cases e with
  | int n => exact emitConstant_pushes rfl trivial
  | float bits => exact emitConstant_pushes rfl trivial
  | str s => exact emitConstant_pushes rfl trivial
  | bool b => exact emitConstant_pushes rfl trivial
  | null => exact emitConstant_pushes rfl trivial
  | ident name => exact compileNameRead_pushes name line false
  | binOp left op right =>
    exact compileBinOp_pushes (compileExpr_pushes left line) (compileExpr_pushes right line)
  | unaryOp op e => exact unaryOp_pushes (compileExpr_pushes e line)
  | call callee args =>
    refine compileCall_pushes (compileExprs_pushes args line) (fun name => ?_) ?_
    · exact compileBuiltinCall_pushes (compileExprs_pushes args line)
        (compileNth_pushes args 1 line)
    · refine compileUserCall_pushes ?_ (compileExprs_pushes args line)
      split
      · exact compileNameRead_pushes _ line true
      · exact compileExpr_pushes callee line
  | list items => exact literal_pushes rfl trivial (compileElements_fills items line)
  | dict pairs => exact literal_pushes rfl trivial (compilePairs_fills pairs line)
  | index object index =>
    exact compileIndex_pushes (compileExpr_pushes object line) (compileExpr_pushes index line)
  | lambda params body =>
    exact compileClosure_pushes ((compileStmts_runs body).mono fun _ => rfl)
  | fStr parts => exact fStr_pushes (compileParts_pushes parts line)

theorem compileExprs_pushes (es : List Expr) (line : Nat) :
    PushesN es.length (compileExprs es line) := by
  cases es with
  | nil => exact PushesN.nil
  | cons e rest =>
    rw [List.length_cons, Nat.add_comm]
    exact (compileExpr_pushes e line).append (compileExprs_pushes rest line)

theorem compileNth_pushes (es : List Expr) (n line : Nat) : Pushes (compileNth es n line) := by
  cases es with
  | nil => exact fun _ _ _ _ _ _ => Proc.triple_stop _
  | cons e rest =>
    cases n with
    | zero => exact compileExpr_pushes e line
    | succ n => exact compileNth_pushes rest n line

theorem compileElements_fills (es : List Expr) (line : Nat) :
    Fills .list (compileElements es line) := by
  cases es with
  | nil => exact Fills.nil
  | cons e rest =>
    exact fills_listPush (compileExpr_pushes e line) (compileElements_fills rest line)

theorem compilePairs_fills (pairs : List (Expr × Expr)) (line : Nat) :
    Fills .dict (compilePairs pairs line) := by
  cases pairs with
  | nil => exact Fills.nil
  | cons e rest =>
    obtain ⟨k, v⟩ := e
    exact fills_dictInsert (compileExpr_pushes k line) (compileExpr_pushes v line)
      (compilePairs_fills rest line)

theorem compileParts_pushes (parts : List FStrExprPart) (line : Nat) :
    PushesN parts.length (compileParts parts line) := by
  cases parts with
  | nil => exact PushesN.nil
  | cons part rest =>
    rw [List.length_cons, Nat.add_comm]
    cases part with
    | literal s =>
      exact (compileLiteralPart_pushes s line).append (compileParts_pushes rest line)
    | expr e => exact (compileExpr_pushes e line).append (compileParts_pushes rest line)

end

/-! ## Programs -/

/-- A compiler between two programs of a session: only top-level variables are declared. -/
structure Compiler.Ready (c : Compiler) : Prop where
  depths : ∀ l ∈ c.locals, l.depth = 0
  scopeDepth : c.scopeDepth = 0
  loops : c.loops = []
  upvalues : c.upvalues = []
  enclosingLocals : c.enclosingLocals = none
  enclosingUpvalues : c.enclosingUpvalues = none
  slots : c.locals.length ≤ c.maxLocals

theorem ready_new : Compiler.new.Ready :=
  ⟨fun l hl => (by cases hl), rfl, rfl, rfl, rfl, rfl, Nat.le_refl _⟩

/-- The shape between two programs: every variable is a global. -/
def Shape.top (locals : Nat) : Shape := .stmt locals [] locals

/-- The role of a top-level chunk. -/
def Role.top (returns : Bool) (exit : Option Shape) : Role := ⟨true, returns, exit⟩

/-- The site of a program. -/
def Site.top (returns : Bool) (exit : Option Shape) (locals : Nat) : Site where
  enclosingLocals := none
  enclosingUpvalues := none
  scopeDepth := 0
  loops := []
  handlers := []
  globals := locals
  role := .top returns exit
  upvalues := 0

theorem Compiler.Ready.at {c : Compiler} (h : c.Ready) (returns : Bool) (name : String) :
    At (.top returns none c.locals.length) c.locals [] [(0, .top c.locals.length)]
      (some (.top c.locals.length)) { c with chunk := { Chunk.new with name } } where
  locals := rfl
  enclosingLocals := h.enclosingLocals
  enclosingUpvalues := h.enclosingUpvalues
  scopeDepth := h.scopeDepth
  loops := h.loops
  upvaluesLe := Nat.zero_le _
  built := ⟨[], _, fun e he => he,
    { flow := Backpatch.Flow.nil.anchor
      valid := fun τ hτ => by
        cases hτ
        exact ⟨Nat.le_refl _, Nat.le_refl _, h.slots, (fun h hm => by cases hm),
          fun l hl => by cases hl⟩
      waits := fun τ hτ p hp => by cases hτ; cases hp
      lines := rfl
      live := .nil
      boundaries := fun b hb => by cases hb
      catches := fun pc τ hτ => by simp at hτ
      constants := fun v hv => by cases hv
      prototypes := fun p hp => by cases hp
      upvalues := fun uv hm => by rw [show c.upvalues = [] from h.upvalues] at hm; cases hm
      slots := h.slots }⟩
  handlers := fun p hp => by cases hp

theorem At.setExit {returns : Bool} {n : Nat} {L : List Local} {P A : List (Nat × Shape)}
    {cur : Option Shape} {c : Compiler} (h : At (.top returns none n) L P A cur c) (σ : Shape) :
    At (.top returns (some σ) n) L P A cur c := by
  obtain ⟨types, anchors, hA, hb⟩ := h.built
  exact
    { locals := h.locals
      enclosingLocals := h.enclosingLocals
      enclosingUpvalues := h.enclosingUpvalues
      scopeDepth := h.scopeDepth
      loops := h.loops
      upvaluesLe := h.upvaluesLe
      built := ⟨types, anchors, hA, hb.setExit rfl⟩
      handlers := h.handlers }

/-- The compilation of a program, from a compiler that may have compiled others before. -/
theorem compileProgram_typed {program : Program} {c d : Compiler} {chunk : Chunk} (name : String)
    (h : c.Ready)
    (hrun : (compileProgram program).run { c with chunk := { Chunk.new with name } } =
      (.ok chunk, d)) :
    d.Ready ∧ Typed (.top (anyReturnsOut program) (some (.top d.locals.length))) 0
      (.top c.locals.length) chunk := by
  have hfits : (Site.top (anyReturnsOut program) none c.locals.length).Fits c.locals
      [(0, .top c.locals.length)] :=
    ⟨fun l hl => Nat.le_of_eq (h.depths l hl), Nat.le_refl _, (fun h hm => by cases hm),
      fun _ => rfl, fun _ _ => ⟨rfl, rfl, rfl⟩, trivial⟩
  have htriple : Triple (· = { c with chunk := { Chunk.new with name } }) (compileProgram program)
      fun chunk d => d.Ready ∧ Typed (.top (anyReturnsOut program) (some (.top d.locals.length))) 0
        (.top c.locals.length) chunk := by
    refine triple_bind ((compileStmts_runs program _ _ _ _ hfits fun hr => hr).conseq
      (fun _ hd => hd ▸ h.at _ name) fun _ _ hd => hd) fun _ => ?_
    refine triple_exists fun M => triple_exists fun loops => triple_and fun ⟨hM, hs⟩ => ?_
    obtain rfl : loops = [] := List.map_eq_nil_iff.mp hs
    have hafter : (Site.top (anyReturnsOut program) none c.locals.length).after M.length [] =
        .top (anyReturnsOut program) none (c.locals ++ M).length := by
      rw [List.length_append]
      rfl
    rw [hafter]
    let S : Shape := .top (c.locals ++ M).length
    have hx : ∀ t pc, ∀ x ∈ exits t pc .«return» S,
        Emitted shapes [(0, .top c.locals.length)] none none x := fun _ _ x hx => by cases hx
    refine triple_bind ((triple_emitLast hx (Nat.le_refl _)).conseq
      (fun d hd => ⟨hd.setExit S, rfl⟩) fun _ _ hd => hd) fun _ => ?_
    refine Proc.triple_gets fun d hd => ?_
    have hnone : d.upvalues = [] := List.eq_nil_iff_forall_not_mem.mpr fun uv hm => by
      have hok := hd.upvalues uv hm
      unfold Compiler.UpvalueOk at hok
      rw [hd.enclosingLocals, hd.enclosingUpvalues] at hok
      split at hok
      · obtain ⟨locals, heq, -⟩ := hok
        cases heq
      · obtain ⟨names, heq, -⟩ := hok
        cases heq
    refine ⟨⟨fun l hl => ?_, hd.scopeDepth, hd.loops, hnone, hd.enclosingLocals,
      hd.enclosingUpvalues, hd.locals ▸ hd.slots⟩, ?_⟩
    · rw [hd.locals] at hl
      rcases List.mem_append.mp hl with hl | hl
      · exact h.depths l hl
      · exact hM l hl
    · have ht := hd.typed rfl List.mem_cons_self
      rw [hnone] at ht
      rw [hd.locals]
      exact ht
  exact htriple _ rfl _ _ hrun

/-- A program that compiles gives a typed chunk. -/
theorem compile_typed {program : Program} {chunk : Chunk} (h : compile program = .ok chunk) :
    ∃ n, Typed (.top (anyReturnsOut program) (some (.top n))) 0 (.top 0) chunk := by
  unfold compile at h
  split at h
  · cases h
  · rcases hrun : (compileProgram program).run Compiler.new with ⟨r, d⟩
    rw [hrun] at h
    cases h
    exact ⟨_, (compileProgram_typed Chunk.new.name ready_new hrun).2⟩

/-- The verifier accepts what the compiler returns, with all its prototypes: leaving it out for
trusted output never runs a chunk that it would reject. -/
theorem compile_verifies (program : Program) (chunk : Chunk) (h : compile program = .ok chunk) :
    verify chunk = .ok () := by
  obtain ⟨n, ht⟩ := compile_typed h
  exact ht.verifyChunk_ok

/-- A loop with a handler inside, and a closure over the variable of the loop. -/
def nestedProgram : Program :=
  [.«let» "total" (.int 0) 1,
    .«for» "i" (.list [.int 1, .int 2])
      [.tryCatch
        [.fnDef "get" [] [.«return» (.binOp (.ident "i") .add (.ident "total")) 4] 4,
          .«if» (.ident "i") [.«break» 5] [] 5]
        "e" [.«continue» 7] 3] 2]

theorem compile_verifies_nested :
    ∃ chunk, compile nestedProgram = .ok chunk ∧ verify chunk = .ok () :=
  ⟨_, rfl, compile_verifies nestedProgram _ rfl⟩

end Tsumugi.Bytecode
