import Mathlib.Data.Finset.Basic
import Mathlib.Data.Finset.Lattice.Lemmas
import Mathlib.Data.Finset.SDiff
import Mathlib.Data.List.Nodup
import Tsumugi.Engine.ModuleLoader

/-!
# What import linking produces

`Linked` says what a linked program is, with no accumulator and no depth counter: where a
module was not met before, its linked statements stand in the place of the import, and
nothing does otherwise.

Results:
1. `linkInto_linked` and `linked_linkInto`: `link_into` returns exactly the linked
   programs of nesting up to the depth limit.
2. `link_expands_once`: what `link` returns, and what it leaves in the loader.
3. `session_expands_once`: no module is expanded twice by the inputs of a session that
   completed.
-/

namespace Tsumugi.Modules

variable {P T : Type} [DecidableEq P]

/-- The canonical paths of the modules. -/
def paths (modules : List (LoadedModule P)) : Finset P := (modules.map LoadedModule.path).toFinset

@[simp] theorem paths_nil : paths ([] : List (LoadedModule P)) = ∅ := rfl

@[simp] theorem paths_cons (m : LoadedModule P) (ms : List (LoadedModule P)) :
    paths (m :: ms) = insert m.path (paths ms) := by
  simp [paths]

@[simp] theorem paths_append (ms ms' : List (LoadedModule P)) :
    paths (ms ++ ms') = paths ms ∪ paths ms' := by
  simp [paths]

/-- The modules are distinct, and none of them was met before. -/
structure Fresh (met : Finset P) (modules : List (LoadedModule P)) : Prop where
  nodup : (modules.map LoadedModule.path).Nodup
  disjoint : Disjoint met (paths modules)

/-- A module that an import leads to. -/
structure Leads (fs : FileTree P) (dir : P) (path : String) (line : Nat) (canonical : P) : Prop where
  located : fs.canonicalize (fs.join dir path) = some canonical
  permitted : ∃ p, fs.checkPath canonical line = .ok p

/-- A program, read in a directory after the modules `met`, stands for the statements `out`
and expands `modules`. The number bounds the nesting of the imports. -/
inductive Linked (fs : FileTree P) :
    Nat → Finset P → P → Program → List Stmt → List (LoadedModule P) → Prop
  | nil {n met dir} : Linked fs n met dir [] [] []
  | stmt {n met dir stmt rest out modules} (h : isImport stmt = false)
      (hrest : Linked fs n met dir rest out modules) :
      Linked fs n met dir (stmt :: rest) (stmt :: out) modules
  | again {n met dir path line canonical rest out modules}
      (hleads : Leads fs dir path line canonical) (hmet : canonical ∈ met)
      (hrest : Linked fs n met dir rest out modules) :
      Linked fs n met dir (.«import» path line :: rest) out modules
  | first {n met dir path line canonical source module rest inner out modules modules'}
      (hleads : Leads fs dir path line canonical) (hmet : canonical ∉ met)
      (hread : fs.readToString canonical = some source) (hparse : fs.parse source = .ok module)
      (hmodule : Linked fs n (insert canonical met) ((fs.parent canonical).getD dir) module inner
        modules)
      (hrest : Linked fs (n + 1) (insert canonical met ∪ paths modules) dir rest out modules') :
      Linked fs (n + 1) met dir (.«import» path line :: rest) (inner ++ out)
        (⟨canonical, source.utf8ByteSize, line⟩ :: modules ++ modules')

/-! ## The modules of a linked program -/

theorem Fresh.nil (met : Finset P) : Fresh met ([] : List (LoadedModule P)) :=
  ⟨List.nodup_nil, by simp⟩

theorem Fresh.append {met : Finset P} {ms ms' : List (LoadedModule P)} (h : Fresh met ms)
    (h' : Fresh (met ∪ paths ms) ms') : Fresh met (ms ++ ms') := by
  have hdisjoint := Finset.disjoint_union_left.mp h'.disjoint
  refine ⟨?_, ?_⟩
  · rw [List.map_append]
    refine h.nodup.append h'.nodup ?_
    simpa [paths, List.disjoint_toFinset_iff_disjoint] using hdisjoint.2
  · rw [paths_append, Finset.disjoint_union_right]
    exact ⟨h.disjoint, hdisjoint.1⟩

theorem Fresh.singleton {met : Finset P} {m : LoadedModule P} (h : m.path ∉ met) : Fresh met [m] :=
  ⟨List.nodup_singleton _, by simpa using h⟩

theorem Linked.fresh {fs : FileTree P} {n met dir program out modules}
    (h : Linked fs n met dir program out modules) : Fresh met modules := by
  induction h with
  | nil => exact Fresh.nil _
  | stmt _ _ ih => exact ih
  | again _ _ _ ih => exact ih
  | first _ hmet _ _ _ _ ih ih' =>
    refine ((Fresh.singleton hmet).append ?_).append ?_
    · simpa [Finset.union_comm] using ih
    · simpa [Finset.insert_union, Finset.union_insert] using ih'

theorem Linked.noImport {fs : FileTree P} {n met dir program out modules}
    (h : Linked fs n met dir program out modules) : ∀ s ∈ out, isImport s = false := by
  induction h with
  | nil => simp
  | stmt h _ ih => simpa using ⟨h, ih⟩
  | again _ _ _ ih => exact ih
  | first _ _ _ _ _ _ ih ih' =>
    intro s hs
    rcases List.mem_append.mp hs with hs | hs
    · exact ih s hs
    · exact ih' s hs

/-- Two programs, the second read after the modules of the first. -/
theorem Linked.append {fs : FileTree P} {n met dir p p' out out' ms ms'}
    (h : Linked fs n met dir p out ms) (h' : Linked fs n (met ∪ paths ms) dir p' out' ms') :
    Linked fs n met dir (p ++ p') (out ++ out') (ms ++ ms') := by
  induction h with
  | nil => simpa using h'
  | stmt hs _ ih => exact .stmt hs (ih h')
  | again hleads hmet _ ih => exact .again hleads hmet (ih h')
  | first hleads hmet hread hparse hmodule _ _ ih =>
    rw [List.append_assoc, List.append_assoc]
    refine .first hleads hmet hread hparse hmodule (ih ?_)
    simpa [Finset.insert_union, Finset.union_insert, Finset.union_assoc] using h'

/-- A program without imports stands for itself. -/
theorem linked_self {fs : FileTree P} {n met dir} {program : Program}
    (h : program.any isImport = false) : Linked fs n met dir program program [] := by
  induction program with
  | nil => exact .nil
  | cons s rest ih =>
    rw [List.any_cons, Bool.or_eq_false_iff] at h
    exact .stmt h.1 (ih h.2)

theorem Linked.unchanged {fs : FileTree P} {n met dir program out modules}
    (h : Linked fs n met dir program out modules) (himport : program.any isImport = false) :
    out = program ∧ modules = [] := by
  induction h with
  | nil => exact ⟨rfl, rfl⟩
  | stmt _ _ ih =>
    rw [List.any_cons, Bool.or_eq_false_iff] at himport
    obtain ⟨rfl, rfl⟩ := ih himport.2
    exact ⟨rfl, rfl⟩
  | again | first => simp [isImport] at himport

/-! ## The loop of `link_into` -/

namespace Linking

/-- The state after the statements and modules of a linked program. -/
def grow (s : Linking P T) (out : List Stmt) (modules : List (LoadedModule P)) : Linking P T where
  loader := { s.loader with loaded := s.loader.loaded ∪ paths modules }
  out := s.out ++ out
  newlyLoaded := s.newlyLoaded ++ modules

@[simp] theorem grow_nil (s : Linking P T) : s.grow [] [] = s := by simp [grow]

theorem grow_grow (s : Linking P T) (out out' : List Stmt) (ms ms' : List (LoadedModule P)) :
    (s.grow out ms).grow out' ms' = s.grow (out ++ out') (ms ++ ms') := by
  simp [grow, Finset.union_assoc]

theorem push_eq (s : Linking P T) (stmt : Stmt) : s.push stmt = s.grow [stmt] [] := by
  simp [push, grow]

theorem mark_eq (s : Linking P T) (m : LoadedModule P) : s.mark m = s.grow [] [m] := by
  simp [mark, grow]

@[simp] theorem grow_loaded (s : Linking P T) (out : List Stmt) (ms : List (LoadedModule P)) :
    (s.grow out ms).loader.loaded = s.loader.loaded ∪ paths ms := rfl

end Linking

/-- How linking ends: with the linked program, or with an error of the source after some
fresh modules. -/
def Expands (fs : FileTree P) (n : Nat) (dir : P) (program : Program) :
    Except Halt Unit → Linking P T → Linking P T → Prop
  | .ok (), s, t => ∃ out modules, Linked fs n s.loader.loaded dir program out modules ∧
      t = s.grow out modules
  | .error e, s, t => e ≠ .exhausted ∧ ∃ out modules, Fresh s.loader.loaded modules ∧
      t = s.grow out modules

/-- `resolve` finds a module only where an import leads to one that was not met, and only above
the depth limit. -/
theorem resolve_ok {fs : FileTree P} {loader : ModuleLoader P T} {dir path line depth found}
    (h : resolve fs loader dir path line depth = .ok found) :
    ∃ canonical, Leads fs dir path line canonical ∧
      (found = none ∧ canonical ∈ loader.loaded ∨
        ∃ source, found = some (canonical, source) ∧ canonical ∉ loader.loaded ∧
          depth < maxImportDepth ∧ fs.readToString canonical = some source) := by
  unfold resolve at h
  split at h
  · cases h
  · rename_i canonical hcanonical
    rcases hcheck : fs.checkPath canonical line with e | p
    · rw [hcheck] at h; cases h
    · rw [hcheck] at h
      refine ⟨canonical, ⟨hcanonical, p, hcheck⟩, ?_⟩
      simp only [bind, Except.bind] at h
      split at h
      · rename_i hmet
        cases h
        exact .inl ⟨rfl, hmet⟩
      · rename_i hmet
        split at h
        · cases h
        · rename_i hdepth
          split at h
          · cases h
          · rename_i source hread
            cases h
            exact .inr ⟨source, rfl, hmet, by omega, hread⟩

theorem resolve_again {fs : FileTree P} {loader : ModuleLoader P T} {dir path line canonical}
    (depth : Nat) (h : Leads fs dir path line canonical) (hmet : canonical ∈ loader.loaded) :
    resolve fs loader dir path line depth = .ok none := by
  obtain ⟨hcanonical, p, hcheck⟩ := h
  simp [resolve, hcanonical, hcheck, hmet, bind, Except.bind, pure, Except.pure]

theorem resolve_first {fs : FileTree P} {loader : ModuleLoader P T} {dir path line depth canonical
    source} (h : Leads fs dir path line canonical) (hmet : canonical ∉ loader.loaded)
    (hdepth : depth < maxImportDepth) (hread : fs.readToString canonical = some source) :
    resolve fs loader dir path line depth = .ok (some (canonical, source)) := by
  obtain ⟨hcanonical, p, hcheck⟩ := h
  simp [resolve, hcanonical, hcheck, hmet, hread, Nat.not_le.mpr hdepth, bind, Except.bind, pure,
    Except.pure]

/-! ## One statement of an import -/

section Statement

variable {fs : FileTree P} {dir : P} {path : String} {line : Nat} {canonical : P}

theorem linkStmt_error (child : P → Program → Link P T Unit) {depth : Nat} {s : Linking P T}
    {e : TsumugiError} (h : resolve fs s.loader dir path line depth = .error e) :
    (linkStmt fs child dir depth (.«import» path line)).run s = (.error (.raised e), s) := by
  simp [linkStmt, Proc.bind_run, h, liftExcept]

theorem linkStmt_again (child : P → Program → Link P T Unit) (depth : Nat) {s : Linking P T}
    (h : Leads fs dir path line canonical) (hmet : canonical ∈ s.loader.loaded) :
    (linkStmt fs child dir depth (.«import» path line)).run s = (.ok (), s) := by
  simp [linkStmt, Proc.bind_run, resolve_again depth h hmet, liftExcept]

/-- A module that was not met is marked before it is parsed. -/
theorem linkStmt_marked (child : P → Program → Link P T Unit) {depth : Nat} {s : Linking P T}
    {source : String}
    (h : resolve fs s.loader dir path line depth = .ok (some (canonical, source))) :
    (linkStmt fs child dir depth (.«import» path line)).run s
      = (liftExcept (parseModule fs source path line) >>= fun module =>
          child ((fs.parent canonical).getD dir) module).run
        (s.grow [] [⟨canonical, source.utf8ByteSize, line⟩]) := by
  simp [linkStmt, Proc.bind_run, h, liftExcept, Linking.mark_eq]

theorem linkStmt_first (child : P → Program → Link P T Unit) {depth : Nat} {s : Linking P T}
    {source : String} {module : Program} (h : Leads fs dir path line canonical)
    (hmet : canonical ∉ s.loader.loaded) (hdepth : depth < maxImportDepth)
    (hread : fs.readToString canonical = some source) (hparse : fs.parse source = .ok module) :
    (linkStmt fs child dir depth (.«import» path line)).run s
      = (child ((fs.parent canonical).getD dir) module).run
        (s.grow [] [⟨canonical, source.utf8ByteSize, line⟩]) := by
  rw [linkStmt_marked child (resolve_first h hmet hdepth hread)]
  simp [parseModule, hparse, liftExcept, Proc.bind_run]

end Statement

/-! ## Every run of `link_into` -/

section Soundness

variable {fs : FileTree P} {n : Nat}

theorem Expands.ok {dir : P} {program : Program} {s : Linking P T} {out : List Stmt}
    {modules : List (LoadedModule P)} (h : Linked fs n s.loader.loaded dir program out modules) :
    Expands fs n dir program (.ok ()) s (s.grow out modules) := ⟨out, modules, h, rfl⟩

/-- An error after the expansion of some modules of a program. -/
theorem Expands.error {dir : P} {program : Program} {s : Linking P T} {e : TsumugiError}
    (out : List Stmt) {modules : List (LoadedModule P)} (h : Fresh s.loader.loaded modules) :
    Expands fs n dir program (.error (.raised e)) s (s.grow out modules) :=
  ⟨by simp, out, modules, h, rfl⟩

/-- What follows the expansion of some modules. -/
theorem Expands.after {dir : P} {p : Program} {s t : Linking P T} {out : List Stmt}
    {modules : List (LoadedModule P)} {e : Halt} (hfresh : Fresh s.loader.loaded modules)
    (h : Expands fs n dir p (.error e) (s.grow out modules) t) (p' : Program) (n' : Nat) (dir' : P) :
    Expands fs n' dir' p' (.error e) s t := by
  obtain ⟨he, out', modules', hfresh', rfl⟩ := h
  exact ⟨he, out ++ out', modules ++ modules', hfresh.append hfresh', Linking.grow_grow ..⟩

/-- Below the depth limit there is no call: at the limit `child` is never reached. -/
theorem linkStmt_expands {child : P → Program → Link P T Unit} {depth : Nat}
    (hdepth : maxImportDepth ≤ depth + n)
    (hchild : ∀ m, n = m + 1 → ∀ dir program, (child dir program).Ends (Expands fs m dir program))
    (dir : P) (stmt : Stmt) :
    (linkStmt fs child dir depth stmt).Ends (Expands fs n dir [stmt]) := by
  intro s
  by_cases himport : isImport stmt = true
  · obtain ⟨path, line, rfl⟩ : ∃ path line, stmt = .«import» path line := by
      cases stmt <;> simp_all [isImport]
    rcases hresolve : resolve fs s.loader dir path line depth with e | found
    · rw [linkStmt_error child hresolve]
      have hnone : Expands fs n dir [.«import» path line] (.error (.raised e)) s (s.grow [] []) :=
        Expands.error [] (Fresh.nil _)
      simpa using hnone
    · obtain ⟨canonical, hleads, ⟨rfl, hmet⟩ | ⟨source, rfl, hmet, hlt, hread⟩⟩ :=
        resolve_ok hresolve
      · rw [linkStmt_again child depth hleads hmet]
        simpa using Expands.ok (Linked.again (n := n) hleads hmet .nil)
      · obtain ⟨m, rfl⟩ : ∃ m, n = m + 1 := ⟨n - 1, by omega⟩
        let marked := s.grow [] [⟨canonical, source.utf8ByteSize, line⟩]
        have hfresh : Fresh s.loader.loaded [⟨canonical, source.utf8ByteSize, line⟩] :=
          Fresh.singleton hmet
        rw [linkStmt_marked child hresolve]
        rcases hparse : fs.parse source with errors | module
        · simp only [parseModule, hparse, liftExcept, Proc.bind_run, Proc.stop_run]
          exact Expands.error [] hfresh
        · simp only [parseModule, hparse, liftExcept, Proc.bind_run, Proc.pure_run]
          have hends := hchild m rfl ((fs.parent canonical).getD dir) module marked
          rcases hcall : (child ((fs.parent canonical).getD dir) module).run marked with ⟨e | ⟨⟩, t⟩
          · rw [hcall] at hends
            exact Expands.after hfresh hends _ _ _
          · rw [hcall] at hends
            obtain ⟨inner, modules, hlinked, rfl⟩ := hends
            refine ⟨inner, ⟨canonical, source.utf8ByteSize, line⟩ :: modules, ?_, ?_⟩
            · simpa using Linked.first hleads hmet hread hparse
                (by simpa [marked, Finset.union_comm] using hlinked) .nil
            · exact Linking.grow_grow ..
  · have hrun : (linkStmt fs child dir depth stmt).run s = (.ok (), s.grow [stmt] []) := by
      rw [← Linking.push_eq]
      cases stmt <;> first | rfl | simp [isImport] at himport
    rw [hrun]
    exact Expands.ok (.stmt (by simpa using himport) .nil)

omit [DecidableEq P] in
theorem forM_cons (f : Stmt → Link P T Unit) (stmt : Stmt) (rest : Program) :
    (stmt :: rest).forM f = (f stmt >>= fun _ => rest.forM f) := rfl

theorem forM_expands {child : P → Program → Link P T Unit} {depth : Nat}
    (hdepth : maxImportDepth ≤ depth + n)
    (hchild : ∀ m, n = m + 1 → ∀ dir program, (child dir program).Ends (Expands fs m dir program))
    (dir : P) (program : Program) :
    (program.forM (linkStmt fs child dir depth)).Ends (Expands fs n dir program) := by
  induction program with
  | nil =>
    intro s
    have hnil : Expands fs n dir [] (.ok ()) s (s.grow [] []) := Expands.ok .nil
    simpa using hnil
  | cons stmt rest ih =>
    intro s
    have hstmt := linkStmt_expands hdepth hchild dir stmt s
    rw [forM_cons]
    rcases hrun : (linkStmt fs child dir depth stmt).run s with ⟨e | ⟨⟩, t⟩
    · rw [hrun] at hstmt
      rw [Proc.bind_run_error hrun]
      obtain ⟨he, hgrown⟩ := hstmt
      exact ⟨he, hgrown⟩
    · rw [hrun] at hstmt
      rw [Proc.bind_run_ok hrun]
      obtain ⟨out, modules, hlinked, rfl⟩ := hstmt
      have hrest := ih (s.grow out modules)
      rcases hrun' : (rest.forM (linkStmt fs child dir depth)).run (s.grow out modules)
        with ⟨e | ⟨⟩, t⟩
      · rw [hrun'] at hrest
        exact Expands.after hlinked.fresh hrest _ _ _
      · rw [hrun'] at hrest
        obtain ⟨out', modules', hlinked', rfl⟩ := hrest
        exact ⟨out ++ out', modules ++ modules', hlinked.append hlinked', Linking.grow_grow ..⟩

/-- With fuel for the depth that is left, `link_into` returns a linked program or an error of the
source. -/
theorem linkInto_linked (fuel : Nat) : ∀ (n depth : Nat), maxImportDepth ≤ depth + n →
    n < fuel → ∀ (program : Program) (dir : P),
      (linkInto (T := T) fs fuel program dir depth).Ends (Expands fs n dir program) := by
  induction fuel with
  | zero => exact fun n depth _ h => absurd h (by omega)
  | succ fuel ih =>
    intro n depth hdepth hfuel program dir
    refine forM_expands hdepth (fun m hm dir program => ?_) dir program
    exact ih m (depth + 1) (by omega) (by omega) program dir

end Soundness

/-! ## Every linked program -/

/-- The import statements of a linked program that fits under the depth limit are all resolved. -/
theorem linked_linkInto {fs : FileTree P} {n met dir program out modules}
    (h : Linked fs n met dir program out modules) :
    ∀ (fuel depth : Nat), depth + n ≤ maxImportDepth → n < fuel → ∀ s : Linking P T,
      s.loader.loaded = met →
      (linkInto fs fuel program dir depth).run s = (.ok (), s.grow out modules) := by
  induction h with
  | nil =>
    rintro (_ | fuel) depth - hfuel s -
    · omega
    · simp [linkInto]
  | @stmt n met dir stmt rest out modules hstmt _ ih =>
    rintro (_ | fuel) depth hdepth hfuel s rfl
    · omega
    · have hrun (child : P → Program → Link P T Unit) :
          (linkStmt fs child dir depth stmt).run s = (.ok (), s.push stmt) := by
        cases stmt <;> first | rfl | simp [isImport] at hstmt
      rw [linkInto, forM_cons, Proc.bind_run_ok (hrun _), Linking.push_eq]
      refine (ih (fuel + 1) depth hdepth hfuel _ (by simp)).trans ?_
      rw [Linking.grow_grow]
      rfl
  | again hleads hmet _ ih =>
    rintro (_ | fuel) depth hdepth hfuel s rfl
    · omega
    · rw [linkInto, forM_cons, Proc.bind_run_ok (linkStmt_again _ depth hleads hmet)]
      exact ih (fuel + 1) depth hdepth hfuel s rfl
  | @first n met dir path line canonical source module rest inner out modules modules' hleads hmet
      hread hparse _ _ ih ih' =>
    rintro (_ | fuel) depth hdepth hfuel s rfl
    · omega
    · have hmodule := ih fuel (depth + 1) (by omega) (by omega)
        (s.grow [] [⟨canonical, source.utf8ByteSize, line⟩]) (by simp)
      have hrest := ih' (fuel + 1) depth hdepth hfuel
        ((s.grow [] [⟨canonical, source.utf8ByteSize, line⟩]).grow inner modules)
        (by simp)
      rw [linkInto, forM_cons, Proc.bind_run_ok]
      · refine hrest.trans ?_
        rw [Linking.grow_grow, Linking.grow_grow]
        rfl
      · rw [linkStmt_first _ hleads hmet (by omega) hread hparse]
        exact hmodule

/-! ## The loader -/

namespace ModuleLoader

theorem forget_cons (l : ModuleLoader P T) (m : LoadedModule P) (ms : List (LoadedModule P)) :
    l.forget (m :: ms) = (l.remove m.path).forget ms := rfl

@[simp] theorem forget_loaded (l : ModuleLoader P T) (ms : List (LoadedModule P)) :
    (l.forget ms).loaded = l.loaded \ paths ms := by
  induction ms generalizing l with
  | nil => simp [forget]
  | cons m ms ih =>
    rw [forget_cons, ih, paths_cons]
    ext p
    simp only [remove, Finset.mem_sdiff, Finset.mem_erase, Finset.mem_insert]
    tauto

@[simp] theorem forget_baseDir (l : ModuleLoader P T) (ms : List (LoadedModule P)) :
    (l.forget ms).baseDir = l.baseDir := by
  induction ms generalizing l with
  | nil => rfl
  | cons m ms ih => exact ih (l.remove m.path)

theorem forget_recordTokens (l : ModuleLoader P T) (ms : List (LoadedModule P)) (p : P) :
    (l.forget ms).recordTokens p = if p ∈ paths ms then none else l.recordTokens p := by
  induction ms generalizing l with
  | nil => simp [forget]
  | cons m ms ih =>
    rw [forget_cons, ih]
    by_cases hp : p ∈ paths ms
    · simp [hp]
    · by_cases hm : p = m.path <;> simp [hp, hm, remove]

@[simp] theorem registerRecordToken_loaded (l : ModuleLoader P T) (p : P) (t : T) :
    (l.registerRecordToken p t).loaded = l.loaded := rfl

/-- The tokens that the engine registers between `link` and `forget`. -/
def registerAll (l : ModuleLoader P T) (tokens : List (P × T)) : ModuleLoader P T :=
  tokens.foldl (fun l token => l.registerRecordToken token.1 token.2) l

@[simp] theorem registerAll_loaded (l : ModuleLoader P T) (tokens : List (P × T)) :
    (l.registerAll tokens).loaded = l.loaded := by
  induction tokens generalizing l with
  | nil => rfl
  | cons token tokens ih => exact ih _

/-- Every record token is of a module that was met. -/
def Backed (l : ModuleLoader P T) : Prop := ∀ p, l.recordTokens p ≠ none → p ∈ l.loaded

/-- Forgetting fresh modules gives back the loader they were added to, with the tokens that
were registered for them. -/
theorem forget_grown {l after : ModuleLoader P T} {ms : List (LoadedModule P)} (hbacked : l.Backed)
    (hfresh : Fresh l.loaded ms) (hbase : after.baseDir = l.baseDir)
    (hloaded : after.loaded = l.loaded ∪ paths ms)
    (htokens : ∀ p, p ∉ paths ms → after.recordTokens p = l.recordTokens p) :
    after.forget ms = l := by
  have hset : (after.forget ms).loaded = l.loaded := by
    rw [forget_loaded, hloaded, Finset.union_sdiff_cancel_right hfresh.disjoint]
  have htoken : (after.forget ms).recordTokens = l.recordTokens := by
    funext p
    rw [forget_recordTokens]
    split
    · rename_i hp
      by_contra hne
      exact Finset.disjoint_left.mp hfresh.disjoint (hbacked p (Ne.symm hne)) hp
    · rename_i hp
      exact htokens p hp
  have hdir : (after.forget ms).baseDir = l.baseDir := (forget_baseDir _ _).trans hbase
  generalize after.forget ms = restored at hset htoken hdir
  cases restored
  cases l
  simp_all

end ModuleLoader

/-! ## What `link` promises -/

section Link

variable {fs : FileTree P} {fuel : Nat} {loader after : ModuleLoader P T} {program : Program}

/-- The result of `link`, by the result of `link_into`. -/
theorem link_ok {linked : Option Program} {newly : List (LoadedModule P)}
    (hfuel : maxImportDepth < fuel)
    (h : link fs fuel loader program = (.ok (linked, newly), after)) :
    Linked fs maxImportDepth loader.loaded loader.baseDir program (linked.getD program) newly ∧
      after = { loader with loaded := loader.loaded ∪ paths newly } ∧
      (linked = none ↔ program.any isImport = false) := by
  unfold link at h
  split at h
  · rename_i himport
    have hends : Expands fs maxImportDepth loader.baseDir program _ ⟨loader, [], []⟩ _ :=
      linkInto_linked fuel maxImportDepth 0 (by omega) hfuel program loader.baseDir _
    split at h
    · rename_i s hrun
      rw [hrun] at hends
      obtain ⟨out, modules, hlinked, rfl⟩ := hends
      cases h
      exact ⟨by simpa [Linking.grow] using hlinked, by simp [Linking.grow], by simp [himport]⟩
    · cases h
  · rename_i himport
    cases h
    have hnone : program.any isImport = false := by simpa using himport
    exact ⟨linked_self hnone, by simp, by simp [hnone]⟩

/-- A failed `link` forgets the modules it met. -/
theorem link_error {e : Halt} (hfuel : maxImportDepth < fuel)
    (h : link fs fuel loader program = (.error e, after)) :
    e ≠ .exhausted ∧ ∃ modules, Fresh loader.loaded modules ∧
      after = ({ loader with loaded := loader.loaded ∪ paths modules }).forget modules := by
  unfold link at h
  split at h
  · have hends : Expands fs maxImportDepth loader.baseDir program _ ⟨loader, [], []⟩ _ :=
      linkInto_linked fuel maxImportDepth 0 (by omega) hfuel program loader.baseDir _
    split at h
    · cases h
    · rename_i e' s hrun
      rw [hrun] at hends
      obtain ⟨he, out, modules, hfresh, rfl⟩ := hends
      cases h
      exact ⟨he, modules, hfresh, by simp [Linking.grow]⟩
  · cases h

theorem link_error_loaded {e : Halt} (hfuel : maxImportDepth < fuel)
    (h : link fs fuel loader program = (.error e, after)) : after.loaded = loader.loaded := by
  obtain ⟨-, modules, hfresh, rfl⟩ := link_error hfuel h
  rw [ModuleLoader.forget_loaded, Finset.union_sdiff_cancel_right hfresh.disjoint]

/-- The new modules can be forgotten, also after their records were registered. -/
theorem link_forget {linked : Option Program} {newly : List (LoadedModule P)}
    (hfuel : maxImportDepth < fuel)
    (h : link fs fuel loader program = (.ok (linked, newly), after)) (tokens : List (P × T)) :
    ((after.registerAll tokens).forget newly).loaded = loader.loaded := by
  obtain ⟨hlinked, rfl, -⟩ := link_ok hfuel h
  rw [ModuleLoader.forget_loaded, ModuleLoader.registerAll_loaded,
    Finset.union_sdiff_cancel_right hlinked.fresh.disjoint]

/-- Every linked program within the depth limit is what `link` returns. -/
theorem linked_link {out : Program} {newly : List (LoadedModule P)} (hfuel : maxImportDepth < fuel)
    (h : Linked fs maxImportDepth loader.loaded loader.baseDir program out newly) :
    ∃ linked, link fs fuel loader program
        = (.ok (linked, newly), { loader with loaded := loader.loaded ∪ paths newly }) ∧
      linked.getD program = out := by
  unfold link
  split
  · have hrun := linked_linkInto h fuel 0 (by omega) hfuel ⟨loader, [], []⟩ rfl
    rw [hrun]
    exact ⟨some out, by simp [Linking.grow], rfl⟩
  · rename_i himport
    obtain ⟨rfl, rfl⟩ := h.unchanged (by simpa using himport)
    exact ⟨none, by simp, rfl⟩

/-- A failed `link` leaves the loader as it was. -/
theorem link_error_restores {e : Halt} (hbacked : loader.Backed) (hfuel : maxImportDepth < fuel)
    (h : link fs fuel loader program = (.error e, after)) : after = loader := by
  obtain ⟨-, modules, hfresh, rfl⟩ := link_error hfuel h
  exact ModuleLoader.forget_grown hbacked hfresh rfl rfl fun _ _ => rfl

end Link

/-- For every program, file tree and loader:
* what `link` returns has no import, and is the program with each import replaced by the linked
  statements of its module where the module is first met and by nothing afterwards; the new
  modules are the expanded ones, each once, and with any record tokens added, forgetting them
  gives the modules that were loaded before;
* an error leaves the loaded modules as they were;
* the recursion is at most `maxImportDepth` deep below the first call. -/
theorem link_expands_once (fs : FileTree P) (fuel : Nat) (loader after : ModuleLoader P T)
    (program : Program) (hfuel : maxImportDepth < fuel) :
    (∀ linked newly, link fs fuel loader program = (.ok (linked, newly), after) →
      Linked fs maxImportDepth loader.loaded loader.baseDir program (linked.getD program) newly ∧
      (∀ stmt ∈ linked.getD program, isImport stmt = false) ∧
      Fresh loader.loaded newly ∧
      after.loaded = loader.loaded ∪ paths newly ∧
      ∀ tokens, ((after.registerAll tokens).forget newly).loaded = loader.loaded) ∧
    (∀ e, link fs fuel loader program = (.error e, after) →
      e ≠ .exhausted ∧ after.loaded = loader.loaded) := by
  refine ⟨fun linked newly h => ?_, fun e h => ?_⟩
  · obtain ⟨hlinked, hafter, -⟩ := link_ok hfuel h
    exact ⟨hlinked, hlinked.noImport, hlinked.fresh, by rw [hafter], link_forget hfuel h⟩
  · exact ⟨(link_error hfuel h).1, link_error_loaded hfuel h⟩

/-- The module files `a` and `b` import each other; `b` also holds a statement. -/
def twoModules : FileTree String where
  join _ path := path
  canonicalize path := if path ∈ ["a", "b"] then some path else none
  checkPath path _ := .ok path
  readToString path := some path
  parent _ := none
  parse source :=
    if source = "a" then .ok [.«import» "b" 1]
    else .ok [.«import» "a" 1, .exprStmt (.int 1) 2]

/-- The cycle is cut at its second visit, and a second import of `b` stands for nothing. -/
theorem twoModules_linked : maxImportDepth < 129 ∧
    Linked twoModules maxImportDepth ∅ "" [.«import» "a" 1, .«import» "b" 2]
      [.exprStmt (.int 1) 2] [⟨"a", 1, 1⟩, ⟨"b", 1, 1⟩] :=
  ⟨by decide, ((link_expands_once (T := Unit) twoModules 129 ⟨"", ∅, fun _ => none⟩
    ⟨"", {"b", "a"}, fun _ => none⟩ _ (by decide)).1 (some [.exprStmt (.int 1) 2]) _ rfl).1⟩

/-! ## A session -/

/-- An input of a session; `completes` says whether its run came to its end. -/
structure Input where
  program : Program
  completes : Bool

/-- `run`, as far as the loader goes: an input that does not complete forgets its modules. The
list collects the modules of the inputs that did. -/
def runInput (fs : FileTree P) (fuel : Nat) (session : ModuleLoader P T × List (LoadedModule P))
    (input : Input) : ModuleLoader P T × List (LoadedModule P) :=
  match link fs fuel session.1 input.program with
  | (.error _, after) => (after, session.2)
  | (.ok (_, newly), after) =>
    if input.completes then (after, session.2 ++ newly) else (after.forget newly, session.2)

/-- The modules that the completed inputs expanded are new to the session, each once, and are all
that the loader has added. -/
def Accounted (start : Finset P) (session : ModuleLoader P T × List (LoadedModule P)) : Prop :=
  Fresh start session.2 ∧ session.1.loaded = start ∪ paths session.2

theorem runInput_accounted {fs : FileTree P} {fuel : Nat} (hfuel : maxImportDepth < fuel)
    {start : Finset P} {session : ModuleLoader P T × List (LoadedModule P)}
    (h : Accounted start session) (input : Input) :
    Accounted start (runInput fs fuel session input) := by
  obtain ⟨hfresh, hloaded⟩ := h
  unfold runInput
  split
  · rename_i e after hlink
    exact ⟨hfresh, (link_error_loaded hfuel hlink).trans hloaded⟩
  · rename_i linked newly after hlink
    split
    · obtain ⟨hlinked, rfl, -⟩ := link_ok hfuel hlink
      refine ⟨hfresh.append (hloaded ▸ hlinked.fresh), ?_⟩
      simp [hloaded, Finset.union_assoc]
    · exact ⟨hfresh, (link_forget hfuel hlink []).trans hloaded⟩

/-- No module is expanded twice by the completed inputs of a session, and none that was met
before it. -/
theorem session_expands_once (fs : FileTree P) {fuel : Nat} (hfuel : maxImportDepth < fuel)
    (loader : ModuleLoader P T) (inputs : List Input) :
    Accounted loader.loaded (inputs.foldl (runInput fs fuel) (loader, [])) := by
  have hrun (session : ModuleLoader P T × List (LoadedModule P))
      (h : Accounted loader.loaded session) :
      Accounted loader.loaded (inputs.foldl (runInput fs fuel) session) := by
    induction inputs generalizing session with
    | nil => exact h
    | cons input inputs ih => exact ih _ (runInput_accounted hfuel h input)
  exact hrun _ ⟨Fresh.nil _, by simp⟩

end Tsumugi.Modules
