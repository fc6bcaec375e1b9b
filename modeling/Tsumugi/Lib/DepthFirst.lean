import Mathlib.Data.List.Chain
import Mathlib.Data.List.Forall2
import Mathlib.Data.List.Perm.Basic
import Mathlib.Logic.Relation

/-!
# Depth-first search with a depth limit

A search over a graph whose vertices list their successors in order. It keeps the path
that is being visited, remembers the vertices it has entered, and refuses to go
deeper than a limit. A vertex may have no list of successors and a list may have an
entry that leads nowhere; both stop the search.

Results:
1. `search_ok` and `search_error`: what each result of a search says about the graph.
2. `search_acyclic`: a search that returns has found no cycle.
3. `search_reordered`: with the successors listed in another order, a search that
   returned can only become too deep.
-/

namespace DepthFirst

variable {V : Type}

/-- The successors of each vertex. -/
abbrev Graph (V : Type) : Type := V → Option (List (Option V))

/-- Why a search stops. -/
inductive Stop (V : Type)
  | bad
  | cycle (chain : List V)
  | tooDeep
  | exhausted
deriving DecidableEq

/-- The vertices entered so far, and those left again with their successors, last first. -/
structure Memo (V : Type) where
  seen : List V
  finished : List (V × List V)

/-- The vertices that were left. -/
def Memo.done (m : Memo V) : List V := m.finished.map Prod.fst

section Search

variable [DecidableEq V]

/-- Visit one entry from the end of the path `active`; `child` visits the successors. -/
def visit (next : Graph V) (limit : Nat)
    (child : List (Option V) → List V → Memo V → Except (Stop V) (List V × Memo V))
    (active : List V) (m : Memo V) : Option V → Except (Stop V) (V × Memo V)
  | none => .error .bad
  | some v =>
    if v ∈ active then .error (.cycle (active.dropWhile (· ≠ v) ++ [v]))
    else if limit ≤ active.length then .error .tooDeep
    else if v ∈ m.seen then .ok (v, m)
    else
      match next v with
      | none => .error .bad
      | some targets =>
        match child targets (active ++ [v]) { m with seen := v :: m.seen } with
        | .error e => .error e
        | .ok (vs, m) => .ok (v, { m with finished := (v, vs) :: m.finished })

/-- The visit of a vertex that is entered. -/
theorem visit_enter {next : Graph V} {limit : Nat}
    (child : List (Option V) → List V → Memo V → Except (Stop V) (List V × Memo V))
    {active : List V} {m : Memo V} {v : V} {targets : List (Option V)} (hactive : v ∉ active)
    (hdepth : ¬ limit ≤ active.length) (hseen : v ∉ m.seen) (hnext : next v = some targets) :
    visit next limit child active m (some v) =
      match child targets (active ++ [v]) { m with seen := v :: m.seen } with
      | .error e => .error e
      | .ok (vs, m) => .ok (v, { m with finished := (v, vs) :: m.finished }) := by
  simp only [visit, hactive, hdepth, hseen, hnext, if_false]

/-- Visit the entries of a list. -/
def visits (one : Memo V → Option V → Except (Stop V) (V × Memo V)) :
    Memo V → List (Option V) → Except (Stop V) (List V × Memo V)
  | m, [] => .ok ([], m)
  | m, target :: targets =>
    match one m target with
    | .error e => .error e
    | .ok (v, m) =>
      match visits one m targets with
      | .error e => .error e
      | .ok (vs, m) => .ok (v :: vs, m)

/-- The search from the end of the path `active`. -/
def searchFrom (next : Graph V) (limit : Nat) :
    (fuel : Nat) → List (Option V) → List V → Memo V → Except (Stop V) (List V × Memo V)
  | 0, _, _, _ => .error .exhausted
  | fuel + 1, targets, active, m =>
    visits (visit next limit (searchFrom next limit fuel) active) m targets

/-- The search from the roots: the roots it visited and the vertices with their successors. -/
def search (next : Graph V) (limit fuel : Nat) (roots : List (Option V)) :
    Except (Stop V) (List V × List (V × List V)) :=
  match searchFrom next limit fuel roots [] ⟨[], []⟩ with
  | .error e => .error e
  | .ok (vs, m) => .ok (vs, m.finished)

end Search

/-! ## The graph -/

/-- `b` is in the list of `a`. -/
def Edge (next : Graph V) (a b : V) : Prop := ∃ targets, next a = some targets ∧ some b ∈ targets

/-- A vertex that the roots lead to. -/
def Reachable (next : Graph V) (roots : List (Option V)) (v : V) : Prop :=
  ∃ r, some r ∈ roots ∧ Relation.ReflTransGen (Edge next) r v

/-- A path from a root. -/
def Path (next : Graph V) (roots : List (Option V)) (path : List V) : Prop :=
  path.IsChain (Edge next) ∧ ∀ v ∈ path.head?, some v ∈ roots

/-- A root or a reachable vertex without a list, or with an entry that leads nowhere. -/
def Defect (next : Graph V) (roots : List (Option V)) : Prop :=
  none ∈ roots ∨ ∃ v, Reachable next roots v ∧ ∀ targets, next v = some targets → none ∈ targets

/-- A path that comes back to its first vertex. -/
def Cycle (next : Graph V) (roots : List (Option V)) (chain : List V) : Prop :=
  chain.IsChain (Edge next) ∧ ∃ v mid, chain = v :: mid ++ [v] ∧ Reachable next roots v

theorem Reachable.edge {next : Graph V} {roots : List (Option V)} {a b : V}
    (h : Reachable next roots a) (hedge : Edge next a b) : Reachable next roots b := by
  obtain ⟨r, hr, hpath⟩ := h
  exact ⟨r, hr, hpath.tail hedge⟩

theorem reflTransGen_of_isChain {R : V → V → Prop} {a : V} {l : List V}
    (h : (a :: l).IsChain R) : ∀ v ∈ a :: l, Relation.ReflTransGen R a v := by
  induction l generalizing a with
  | nil =>
    intro v hv
    obtain rfl := List.mem_singleton.mp hv
    exact .refl
  | cons b l ih =>
    rw [List.isChain_cons_cons] at h
    intro v hv
    rcases List.mem_cons.mp hv with rfl | hv
    · exact .refl
    · exact .head h.1 (ih h.2 v hv)

theorem Path.reachable {next : Graph V} {roots : List (Option V)} {path : List V}
    (h : Path next roots path) : ∀ v ∈ path, Reachable next roots v := by
  intro v hv
  cases path with
  | nil => cases hv
  | cons r path => exact ⟨r, h.2 r rfl, reflTransGen_of_isChain h.1 v hv⟩

/-- A path goes on along an edge from its end. -/
theorem Path.extend {next : Graph V} {roots : List (Option V)} {path : List V} {a b : V}
    (h : Path next roots (path ++ [a])) (hedge : Edge next a b) :
    Path next roots (path ++ [a] ++ [b]) := by
  refine ⟨List.isChain_append.mpr ⟨h.1, List.isChain_singleton b, ?_⟩, ?_⟩
  · simpa using hedge
  · intro v hv
    refine h.2 v ?_
    rw [List.head?_append_of_ne_nil _ (by simp)] at hv
    exact hv

theorem dropWhile_ne_of_mem [DecidableEq V] {l : List V} {v : V} (h : v ∈ l) :
    ∃ mid, l.dropWhile (· ≠ v) = v :: mid := by
  induction l with
  | nil => cases h
  | cons a l ih =>
    by_cases ha : a = v
    · exact ⟨l, by simp [ha]⟩
    · obtain ⟨mid, hmid⟩ := ih ((List.mem_cons.mp h).resolve_left (Ne.symm ha))
      exact ⟨mid, by simpa [ha] using hmid⟩

/-- A path that meets one of its vertices again closes a cycle. -/
theorem Path.cycle [DecidableEq V] {next : Graph V} {roots : List (Option V)} {active : List V}
    {v : V} (h : Path next roots (active ++ [v])) (hv : v ∈ active) :
    Cycle next roots (active.dropWhile (· ≠ v) ++ [v]) := by
  obtain ⟨mid, hmid⟩ := dropWhile_ne_of_mem hv
  refine ⟨?_, v, mid, by rw [hmid], h.reachable v (by simp)⟩
  have hchain := h.1
  rw [← List.takeWhile_append_dropWhile (p := (· ≠ v)) (l := active), List.append_assoc] at hchain
  exact hchain.right_of_append

/-! ## The finished vertices -/

/-- Each vertex comes before the vertices it leads to. -/
inductive Topological : List (V × List V) → Prop
  | nil : Topological []
  | cons {v ws l} (hl : Topological l) (hv : v ∉ l.map Prod.fst)
      (hws : ∀ w ∈ ws, w ∈ l.map Prod.fst) : Topological ((v, ws) :: l)

theorem Topological.nodup {l : List (V × List V)} (h : Topological l) : (l.map Prod.fst).Nodup := by
  induction h with
  | nil => exact List.nodup_nil
  | cons _ hv _ ih => exact List.nodup_cons.mpr ⟨hv, ih⟩

/-- The lists of successors are those of the graph. -/
def Exact (next : Graph V) (l : List (V × List V)) : Prop :=
  ∀ e ∈ l, next e.1 = some (e.2.map some)

theorem Exact.edge {next : Graph V} {l : List (V × List V)} (h : Exact next l) {v : V}
    {ws : List V} (hmem : (v, ws) ∈ l) {w : V} (hedge : Edge next v w) : w ∈ ws := by
  obtain ⟨targets, hnext, hw⟩ := hedge
  rw [h _ hmem] at hnext
  cases hnext
  simpa using hw

theorem Topological.closed {next : Graph V} {l : List (V × List V)} (h : Topological l)
    (hexact : Exact next l) {v w : V} (hv : v ∈ l.map Prod.fst) (hedge : Edge next v w) :
    w ∈ l.map Prod.fst := by
  induction h with
  | nil => cases hv
  | @cons u ws l _ _ hws ih =>
    rw [List.map_cons] at hv ⊢
    rcases List.mem_cons.mp hv with rfl | hv
    · exact List.mem_cons_of_mem _ (hws w (hexact.edge List.mem_cons_self hedge))
    · exact List.mem_cons_of_mem _ (ih (fun e he => hexact e (List.mem_cons_of_mem _ he)) hv)

theorem Topological.closed_reflTransGen {next : Graph V} {l : List (V × List V)}
    (h : Topological l) (hexact : Exact next l) {v w : V} (hv : v ∈ l.map Prod.fst)
    (hpath : Relation.ReflTransGen (Edge next) v w) : w ∈ l.map Prod.fst := by
  induction hpath with
  | refl => exact hv
  | tail _ hedge ih => exact h.closed hexact ih hedge

theorem Topological.acyclic {next : Graph V} {l : List (V × List V)} (h : Topological l)
    (hexact : Exact next l) {v : V} (hv : v ∈ l.map Prod.fst) :
    ¬ Relation.TransGen (Edge next) v v := by
  induction h with
  | nil => cases hv
  | @cons u ws l hl hu hws ih =>
    have hexact' : Exact next l := fun e he => hexact e (List.mem_cons_of_mem _ he)
    rcases List.mem_cons.mp hv with rfl | hv
    · intro hcycle
      -- the first step leads to a vertex that was finished before `v`, and so does the last
      obtain ⟨w, hedge, hback⟩ := Relation.TransGen.head'_iff.mp hcycle
      have hw : w ∈ l.map Prod.fst := hws w (hexact.edge List.mem_cons_self hedge)
      exact hu (hl.closed_reflTransGen hexact' hw hback)
    · exact ih hexact' hv

/-! ## What a search finds -/

section Sound

variable {next : Graph V} {roots : List (Option V)} {limit : Nat}

/-- The memo of a search on the path `active`: every vertex entered is on the path or left again,
and those left are in order, with their successors. -/
structure Visiting (next : Graph V) (roots : List (Option V)) (active : List V) (m : Memo V) :
    Prop where
  seen : ∀ v, v ∈ m.seen ↔ v ∈ m.done ∨ v ∈ active
  apart : ∀ v ∈ active, v ∉ m.done
  topological : Topological m.finished
  exact : Exact next m.finished
  reachable : ∀ v ∈ m.seen, Reachable next roots v

/-- The entries that stand at the end of the path `active`. -/
structure Targets (next : Graph V) (roots : List (Option V)) (active : List V)
    (targets : List (Option V)) : Prop where
  path : ∀ v, some v ∈ targets → Path next roots (active ++ [v])
  defect : none ∈ targets → Defect next roots

/-- What a stop says about the graph. -/
def Found (next : Graph V) (roots : List (Option V)) (limit : Nat) : Stop V → Prop
  | .bad => Defect next roots
  | .cycle chain => Cycle next roots chain
  | .tooDeep => ∃ path, limit < path.length ∧ Path next roots path
  | .exhausted => False

/-- What the visit of a list of entries says about the graph. -/
def Finds (next : Graph V) (roots : List (Option V)) (limit : Nat) (active : List V) (m : Memo V)
    (targets : List (Option V)) : Except (Stop V) (List V × Memo V) → Prop
  | .error e => Found next roots limit e
  | .ok (vs, m') => targets = vs.map some ∧ Visiting next roots active m' ∧
      (∀ v ∈ vs, v ∈ m'.done) ∧ ∀ v ∈ m.done, v ∈ m'.done

theorem Targets.head {active : List V} {t : Option V} {ts : List (Option V)}
    (h : Targets next roots active (t :: ts)) : Targets next roots active [t] :=
  ⟨fun v hv => h.path v (by simp_all), fun hn => h.defect (by simp_all)⟩

theorem Targets.tail {active : List V} {t : Option V} {ts : List (Option V)}
    (h : Targets next roots active (t :: ts)) : Targets next roots active ts :=
  ⟨fun v hv => h.path v (List.mem_cons_of_mem _ hv), fun hn => h.defect (List.mem_cons_of_mem _ hn)⟩

/-- The successors of the end of a path. -/
theorem Targets.of_next {active : List V} {v : V} {targets : List (Option V)}
    (hpath : Path next roots (active ++ [v])) (hnext : next v = some targets) :
    Targets next roots (active ++ [v]) targets := by
  refine ⟨fun w hw => hpath.extend ⟨targets, hnext, hw⟩, fun hnone => .inr ⟨v, ?_, ?_⟩⟩
  · exact hpath.reachable v (by simp)
  · intro targets' h
    rw [hnext] at h
    cases h
    exact hnone

theorem Visiting.enter {active : List V} {m : Memo V} (h : Visiting next roots active m) {v : V}
    (hseen : v ∉ m.seen) (hreach : Reachable next roots v) :
    Visiting next roots (active ++ [v]) { m with seen := v :: m.seen } := by
  have hv : v ∉ m.done := fun hd => hseen ((h.seen v).mpr (.inl hd))
  refine ⟨fun w => ?_, fun w hw => ?_, h.topological, h.exact, fun w hw => ?_⟩
  · show w ∈ v :: m.seen ↔ w ∈ m.done ∨ w ∈ active ++ [v]
    rw [List.mem_cons, List.mem_append, List.mem_singleton, h.seen w]
    tauto
  · rcases List.mem_append.mp hw with hw | hw
    · exact h.apart w hw
    · obtain rfl := List.mem_singleton.mp hw
      exact hv
  · rcases List.mem_cons.mp hw with rfl | hw
    · exact hreach
    · exact h.reachable w hw

theorem Visiting.leave {active : List V} {m : Memo V} {v : V} {vs : List V}
    (h : Visiting next roots (active ++ [v]) m) (hactive : v ∉ active)
    (hnext : next v = some (vs.map some)) (hvs : ∀ w ∈ vs, w ∈ m.done) :
    Visiting next roots active { m with finished := (v, vs) :: m.finished } := by
  have hv : v ∉ m.done := h.apart v (by simp)
  refine ⟨fun w => ?_, fun w hw => ?_, .cons h.topological hv hvs, ?_, h.reachable⟩
  · show w ∈ m.seen ↔ w ∈ v :: m.done ∨ w ∈ active
    rw [h.seen w, List.mem_append, List.mem_singleton, List.mem_cons]
    tauto
  · show w ∉ v :: m.done
    rw [List.mem_cons]
    rintro (rfl | hd)
    · exact hactive hw
    · exact h.apart w (List.mem_append_left _ hw) hd
  · intro e he
    rcases List.mem_cons.mp he with rfl | he
    · exact hnext
    · exact h.exact e he

variable [DecidableEq V]

theorem visit_finds {child : List (Option V) → List V → Memo V → Except (Stop V) (List V × Memo V)}
    {active : List V} {m : Memo V} {target : Option V}
    (hchild : active.length < limit → ∀ v targets m, Visiting next roots (active ++ [v]) m →
      Targets next roots (active ++ [v]) targets →
      Finds next roots limit (active ++ [v]) m targets (child targets (active ++ [v]) m))
    (hvisiting : Visiting next roots active m) (htarget : Targets next roots active [target]) :
    Finds next roots limit active m [target]
      ((visit next limit child active m target).map fun r => ([r.1], r.2)) := by
  cases target with
  | none => exact htarget.defect (by simp)
  | some v =>
    have hpath : Path next roots (active ++ [v]) := htarget.path v (by simp)
    have hreach : Reachable next roots v := hpath.reachable v (by simp)
    simp only [visit]
    split
    · rename_i hactive
      exact hpath.cycle hactive
    · rename_i hactive
      split
      · rename_i hdepth
        exact ⟨active ++ [v], by simp; omega, hpath⟩
      · rename_i hdepth
        split
        · rename_i hseen
          refine ⟨rfl, hvisiting, fun w hw => ?_, fun _ h => h⟩
          obtain rfl := List.mem_singleton.mp hw
          exact ((hvisiting.seen w).mp hseen).resolve_right hactive
        · rename_i hseen
          cases hnext : next v with
          | none => exact .inr ⟨v, hreach, fun targets h => by rw [hnext] at h; cases h⟩
          | some targets =>
            have hfinds := hchild (by omega) v targets _ (hvisiting.enter hseen hreach)
              (Targets.of_next hpath hnext)
            rcases hrun : child targets (active ++ [v]) { m with seen := v :: m.seen }
              with e | ⟨vs, m'⟩
            · rw [hrun] at hfinds
              simp only [hrun]
              exact hfinds
            · rw [hrun] at hfinds
              obtain ⟨rfl, hm', hdone, hmono⟩ := hfinds
              simp only [hrun]
              refine ⟨rfl, hm'.leave hactive hnext hdone, fun w hw => ?_, fun w hw => ?_⟩
              · obtain rfl := List.mem_singleton.mp hw
                exact List.mem_cons_self
              · exact List.mem_cons_of_mem _ (hmono w hw)

omit [DecidableEq V] in
theorem visits_finds {one : Memo V → Option V → Except (Stop V) (V × Memo V)} {active : List V}
    (hone : ∀ m target, Visiting next roots active m → Targets next roots active [target] →
      Finds next roots limit active m [target] ((one m target).map fun r => ([r.1], r.2)))
    (targets : List (Option V)) : ∀ m, Visiting next roots active m →
      Targets next roots active targets →
      Finds next roots limit active m targets (visits one m targets) := by
  induction targets with
  | nil => exact fun m hm _ => ⟨rfl, hm, by simp, fun _ h => h⟩
  | cons target targets ih =>
    intro m hm htargets
    have hhead := hone m target hm htargets.head
    rw [visits]
    rcases hrun : one m target with e | ⟨v, m'⟩
    · rw [hrun] at hhead
      exact hhead
    · rw [hrun] at hhead
      obtain ⟨htarget, hm', hdone, hmono⟩ := hhead
      have htail := ih m' hm' htargets.tail
      simp only
      rcases hrest : visits one m' targets with e | ⟨vs, m''⟩
      · rw [hrest] at htail
        exact htail
      · rw [hrest] at htail
        obtain ⟨rfl, hm'', hdone', hmono'⟩ := htail
        refine ⟨by simp_all, hm'', fun w hw => ?_, fun w hw => hmono' w (hmono w hw)⟩
        rcases List.mem_cons.mp hw with rfl | hw
        · exact hmono' w (hdone w List.mem_cons_self)
        · exact hdone' w hw

theorem searchFrom_finds (fuel : Nat) : ∀ (targets : List (Option V)) (active : List V)
    (m : Memo V), active.length ≤ limit → limit < active.length + fuel →
      Visiting next roots active m → Targets next roots active targets →
      Finds next roots limit active m targets (searchFrom next limit fuel targets active m) := by
  induction fuel with
  | zero => exact fun _ _ _ _ h => absurd h (by omega)
  | succ fuel ih =>
    intro targets active m hdepth hfuel hm htargets
    refine visits_finds (fun m target hm htarget => visit_finds ?_ hm htarget) targets m hm htargets
    intro hlt v targets m hm htargets
    exact ih targets (active ++ [v]) m (by simp; omega) (by simp; omega) hm htargets

theorem searchFrom_roots {fuel : Nat} (hfuel : limit < fuel) :
    Finds next roots limit [] ⟨[], []⟩ roots (searchFrom next limit fuel roots [] ⟨[], []⟩) := by
  refine searchFrom_finds fuel roots [] ⟨[], []⟩ (by simp) (by simpa using hfuel) ?_ ?_
  · exact ⟨by simp [Memo.done], by simp, .nil, by simp [Exact], by simp⟩
  · exact ⟨fun v hv => ⟨List.isChain_singleton v, by simpa using hv⟩, fun h => .inl h⟩

/-- A search that returns visits the roots in order, and leaves exactly the reachable vertices with
their successors, in topological order. -/
theorem search_ok {fuel : Nat} (hfuel : limit < fuel) {vs : List V} {finished : List (V × List V)}
    (h : search next limit fuel roots = .ok (vs, finished)) :
    roots = vs.map some ∧ Topological finished ∧ Exact next finished ∧
      ∀ v, v ∈ finished.map Prod.fst ↔ Reachable next roots v := by
  have hfinds : Finds next roots limit [] ⟨[], []⟩ roots _ := searchFrom_roots hfuel
  unfold search at h
  split at h
  · cases h
  · rename_i vs' m hrun
    rw [hrun] at hfinds
    cases h
    obtain ⟨hroots, hm, hdone, -⟩ := hfinds
    refine ⟨hroots, hm.topological, hm.exact, fun v => ⟨fun hv => ?_, ?_⟩⟩
    · exact hm.reachable v ((hm.seen v).mpr (.inl hv))
    · rintro ⟨r, hr, hpath⟩
      rw [hroots, List.mem_map] at hr
      obtain ⟨w, hw, hwr⟩ := hr
      obtain rfl : w = r := Option.some.inj hwr
      exact hm.topological.closed_reflTransGen hm.exact (hdone w hw) hpath

/-- What a search finds that stops. -/
theorem search_error {fuel : Nat} (hfuel : limit < fuel) {e : Stop V}
    (h : search next limit fuel roots = .error e) : Found next roots limit e := by
  have hfinds : Finds next roots limit [] ⟨[], []⟩ roots _ := searchFrom_roots hfuel
  unfold search at h
  split at h
  · rename_i e' hrun
    rw [hrun] at hfinds
    cases h
    exact hfinds
  · cases h

variable {fuel : Nat} {vs : List V} {finished : List (V × List V)}

theorem search_acyclic (hfuel : limit < fuel) (h : search next limit fuel roots = .ok (vs, finished))
    {v : V} (hv : Reachable next roots v) : ¬ Relation.TransGen (Edge next) v v := by
  obtain ⟨-, htopological, hexact, hmem⟩ := search_ok hfuel h
  exact htopological.acyclic hexact ((hmem v).mpr hv)

theorem search_no_defect (hfuel : limit < fuel)
    (h : search next limit fuel roots = .ok (vs, finished)) : ¬ Defect next roots := by
  obtain ⟨hroots, -, hexact, hmem⟩ := search_ok hfuel h
  rintro (hnone | ⟨v, hv, hbad⟩)
  · simp [hroots] at hnone
  · obtain ⟨e, he, rfl⟩ := List.mem_map.mp ((hmem v).mpr hv)
    simpa using hbad _ (hexact e he)

/-! ## Another order -/

/-- Each vertex lists the same successors, in any order. -/
def Reordered (next next' : Graph V) : Prop := ∀ v, Option.Rel List.Perm (next v) (next' v)

omit [DecidableEq V] in
theorem Reordered.edge {next' : Graph V} (h : Reordered next next') : Edge next' = Edge next := by
  funext a b
  unfold Edge
  have ha := h a
  generalize next a = o at ha
  generalize next' a = o' at ha
  cases ha with
  | some hperm => simp [hperm.mem_iff]
  | none => simp

omit [DecidableEq V] in
theorem Reordered.reachable {next' : Graph V} {roots' : List (Option V)}
    (h : Reordered next next') (hroots : roots.Perm roots') {v : V} :
    Reachable next' roots' v ↔ Reachable next roots v := by
  unfold Reachable
  rw [h.edge]
  simp [hroots.mem_iff]

omit [DecidableEq V] in
theorem Reordered.defect {next' : Graph V} {roots' : List (Option V)}
    (h : Reordered next next') (hroots : roots.Perm roots') (hdefect : Defect next' roots') :
    Defect next roots := by
  rcases hdefect with hnone | ⟨v, hv, hbad⟩
  · exact .inl (hroots.mem_iff.mpr hnone)
  · refine .inr ⟨v, (h.reachable hroots).mp hv, fun targets hnext => ?_⟩
    have hv := h v
    rw [hnext] at hv
    generalize hnext' : next' v = o' at hv
    cases hv with
    | some hperm => exact hperm.mem_iff.mpr (hbad _ hnext')

omit [DecidableEq V] in
theorem Cycle.transGen {chain : List V} (h : Cycle next roots chain) :
    ∃ v, Reachable next roots v ∧ Relation.TransGen (Edge next) v v := by
  obtain ⟨hchain, v, mid, rfl, hreach⟩ := h
  refine ⟨v, hreach, ?_⟩
  cases mid with
  | nil => exact .single (by simpa using hchain)
  | cons w mid =>
    rw [List.cons_append, List.cons_append, List.isChain_cons_cons] at hchain
    exact .head' hchain.1 (reflTransGen_of_isChain hchain.2 v (by simp))

/-- Where a search returns, a search in another order returns too, unless it goes too deep along a
long path. -/
theorem search_reordered {next' : Graph V} {roots' : List (Option V)} {fuel' : Nat}
    (h : Reordered next next') (hroots : roots.Perm roots') (hfuel : limit < fuel)
    (hfuel' : limit < fuel') (hok : search next limit fuel roots = .ok (vs, finished)) {e : Stop V}
    (herror : search next' limit fuel' roots' = .error e) :
    e = .tooDeep ∧ ∃ path, limit < path.length ∧ Path next' roots' path := by
  have hfound := search_error hfuel' herror
  cases e with
  | bad => exact absurd (h.defect hroots hfound) (search_no_defect hfuel hok)
  | cycle chain =>
    obtain ⟨v, hv, hcycle⟩ := hfound.transGen
    exact absurd (h.edge ▸ hcycle) (search_acyclic hfuel hok ((h.reachable hroots).mp hv))
  | tooDeep => exact ⟨rfl, hfound⟩
  | exhausted => exact hfound.elim

end Sound

/-! ## Renamed vertices -/

section Rename

variable {U : Type} [DecidableEq U] [DecidableEq V] {f : U → V}

/-- The memo with renamed vertices. -/
def Memo.map (f : U → V) (m : Memo U) : Memo V where
  seen := m.seen.map f
  finished := m.finished.map fun e => (f e.1, e.2.map f)

/-- The stop with renamed vertices. -/
def Stop.map (f : U → V) : Stop U → Stop V
  | .bad => .bad
  | .cycle chain => .cycle (chain.map f)
  | .tooDeep => .tooDeep
  | .exhausted => .exhausted

/-- A result with renamed vertices. -/
def renamed {α β : Type} (f : U → V) (g : α → β) :
    Except (Stop U) (α × Memo U) → Except (Stop V) (β × Memo V)
  | .error e => .error (e.map f)
  | .ok (a, m) => .ok (g a, m.map f)

/-- The graph `next` shows the graph `small` under the names `f`. -/
def Shows (f : U → V) (small : Graph U) (next : Graph V) : Prop :=
  ∀ u, next (f u) = (small u).map fun targets => targets.map (Option.map f)

theorem visit_renamed (hf : f.Injective) {small : Graph U} {next : Graph V}
    (hshows : Shows f small next) {limit : Nat}
    {child : List (Option U) → List U → Memo U → Except (Stop U) (List U × Memo U)}
    {child' : List (Option V) → List V → Memo V → Except (Stop V) (List V × Memo V)}
    (hchild : ∀ targets active m, child' (targets.map (Option.map f)) (active.map f) (m.map f)
      = renamed f (List.map f) (child targets active m))
    (active : List U) (m : Memo U) (target : Option U) :
    visit next limit child' (active.map f) (m.map f) (target.map f)
      = renamed f f (visit small limit child active m target) := by
  cases target with
  | none => rfl
  | some u =>
    have hmem (l : List U) : f u ∈ l.map f ↔ u ∈ l := List.mem_map_of_injective hf
    have hdrop : (active.map f).dropWhile (· ≠ f u) = (active.dropWhile (· ≠ u)).map f := by
      rw [List.dropWhile_map]
      congr 2
      funext w
      simp [hf.eq_iff]
    simp only [visit, Option.map_some, hmem, List.length_map, Memo.map]
    split
    · simp only [renamed, Stop.map, hdrop, List.map_append, List.map_cons, List.map_nil]
    · split
      · rfl
      · split
        · rfl
        · rw [hshows u]
          cases small u with
          | none => rfl
          | some targets =>
            have hcall := hchild targets (active ++ [u]) { m with seen := u :: m.seen }
            rw [List.map_append, List.map_singleton, Memo.map] at hcall
            simp only [Option.map_some, List.map_cons] at hcall ⊢
            rw [hcall]
            cases child targets (active ++ [u]) { m with seen := u :: m.seen } <;> rfl

omit [DecidableEq U] [DecidableEq V] in
theorem visits_renamed {one : Memo U → Option U → Except (Stop U) (U × Memo U)}
    {one' : Memo V → Option V → Except (Stop V) (V × Memo V)}
    (hone : ∀ m target, one' (m.map f) (target.map f) = renamed f f (one m target))
    (targets : List (Option U)) : ∀ m, visits one' (m.map f) (targets.map (Option.map f))
      = renamed f (List.map f) (visits one m targets) := by
  induction targets with
  | nil => exact fun m => rfl
  | cons target targets ih =>
    intro m
    rw [List.map_cons, visits, visits, hone]
    rcases one m target with e | ⟨u, m'⟩
    · rfl
    · simp only [renamed, ih]
      cases visits one m' targets <;> rfl

theorem searchFrom_renamed (hf : f.Injective) {small : Graph U} {next : Graph V}
    (hshows : Shows f small next) (limit fuel : Nat) : ∀ targets active m,
      searchFrom next limit fuel (targets.map (Option.map f)) (active.map f) (m.map f)
        = renamed f (List.map f) (searchFrom small limit fuel targets active m) := by
  induction fuel with
  | zero => exact fun _ _ _ => rfl
  | succ fuel ih =>
    intro targets active m
    exact visits_renamed (fun m target => visit_renamed hf hshows ih active m target) targets m

/-- A search among renamed vertices. -/
theorem search_renamed (hf : f.Injective) {small : Graph U} {next : Graph V}
    (hshows : Shows f small next) (limit fuel : Nat) (roots : List (Option U)) :
    search next limit fuel (roots.map (Option.map f)) =
      match search small limit fuel roots with
      | .error e => .error (e.map f)
      | .ok (us, finished) => .ok (us.map f, finished.map fun e => (f e.1, e.2.map f)) := by
  unfold search
  have hrun := searchFrom_renamed hf hshows limit fuel roots [] ⟨[], []⟩
  rw [List.map_nil] at hrun
  change searchFrom next limit fuel (roots.map (Option.map f)) [] ⟨[], []⟩ = _ at hrun
  rw [hrun]
  cases searchFrom small limit fuel roots [] ⟨[], []⟩ <;> rfl

end Rename

end DepthFirst
