import Tsumugi.Budget.LedgerLaw
import Tsumugi.Value.Heap

/-!
# When a refused mutation leaves everything as it was

A write to a list or a dict has three steps that can be refused: the charge of a copy, the
id of the copy, and the charge for the growth. Only the first comes before anything has
changed. A backing that somebody else owns too is copied, so no other owner sees the write.

Results:
1. `writeTracked_allOrNothing`: the two primitives.
2. `mutation_all_or_nothing_iff`: index assignment and `push`, with their checks.
-/

namespace Tsumugi.Backing

open Budget

variable {σ : Type}

/-! ## Drops -/

namespace World

theorem handles_places {w : World σ} {v : Value σ} (h : v ∈ w.places) : v ∈ w.handles :=
  List.mem_append_left _ h

theorem handles_cell {w : World σ} {a : Nat} {c : Tracked σ} {v : Value σ}
    (hc : w.cell? a = some c) (hv : v ∈ c.data.children) : v ∈ w.handles := by
  have hmem : some c ∈ w.cells := List.mem_of_getElem? (Option.join_eq_some_iff.mp hc)
  exact List.mem_append_right _ (List.mem_cons_of_mem _ (List.mem_flatMap.mpr ⟨_, hmem, hv⟩))

theorem strongCount_pos {w : World σ} {a : Nat} (h : .ref a ∈ w.handles) : 0 < w.strongCount a :=
  List.countP_pos_iff.mpr ⟨_, h, beq_self_eq_true a⟩

theorem cell?_free {w : World σ} {a b : Nat} {c : Tracked σ} (h : b ≠ a) :
    (w.free a c).cell? b = w.cell? b := by
  show ((w.cells.set a none)[b]?).join = _
  rw [List.getElem?_set_ne (Ne.symm h)]
  rfl

/-- What has an owner is not freed. -/
theorem dropAll_of_owned {w : World σ} (values : List (Value σ))
    (h : ∀ a, .ref a ∈ values → 0 < w.strongCount a) : dropAll values w = w := by
  induction values with
  | nil => rw [dropAll]
  | cons v rest ih =>
    have hrest := ih fun a ha => h a (List.mem_cons_of_mem _ ha)
    cases v with
    | null => rw [dropAll, hrest]
    | scalar s => rw [dropAll, hrest]
    | ref a =>
      rw [dropAll]
      split
      · rw [if_neg (Nat.ne_of_gt (h a List.mem_cons_self)), hrest]
      · exact hrest

/-- What is kept when an unowned backing is freed is kept by a drop. -/
theorem dropAll_rule {P : World σ → Prop}
    (hfree : ∀ w a c, P w → w.cell? a = some c → w.strongCount a = 0 → P (w.free a c))
    (values : List (Value σ)) (w : World σ) (h : P w) : P (dropAll values w) := by
  induction values, w using dropAll.induct with
  | case1 w => rw [dropAll]; exact h
  | case2 rest w ih => rw [dropAll]; exact ih h
  | case3 rest w s ih => rw [dropAll]; exact ih h
  | case4 a rest w c hcell hcount ih =>
    rw [dropAll]
    split
    next c' hcell' =>
      obtain rfl : c = c' := Option.some.inj (hcell.symm.trans hcell')
      rw [if_pos hcount]
      exact ih (hfree w a c h hcell hcount)
    next hnone => rw [hcell] at hnone; cases hnone
  | case5 a rest w c hcell hcount ih =>
    rw [dropAll]
    split
    · rw [if_neg hcount]
      exact ih h
    · exact ih h
  | case6 a rest w hcell ih =>
    rw [dropAll]
    split
    next hsome => rw [hcell] at hsome; cases hsome
    next => exact ih h

/-- The places keep their handles. -/
theorem dropAll_places (values : List (Value σ)) (w : World σ) :
    (dropAll values w).places = w.places ∧ (dropAll values w).operand = w.operand :=
  dropAll_rule (P := fun u => u.places = w.places ∧ u.operand = w.operand)
    (fun _ _ _ h _ _ => h) values w ⟨rfl, rfl⟩

/-- A backing with an owner among the places is not touched. -/
theorem dropAll_cell {w : World σ} {b : Nat} (values : List (Value σ)) (h : .ref b ∈ w.places) :
    (dropAll values w).cell? b = w.cell? b := by
  refine (dropAll_rule (P := fun u => .ref b ∈ u.places ∧ u.cell? b = w.cell? b) ?_ values w
    ⟨h, rfl⟩).2
  rintro u a c ⟨hplace, hcell⟩ - hcount
  have hne : b ≠ a := by
    rintro rfl
    exact absurd hcount (Nat.ne_of_gt (strongCount_pos (handles_places hplace)))
  exact ⟨hplace, (cell?_free hne).trans hcell⟩

end World

namespace World

theorem containerAt_eq_some {w : World σ} {p a : Nat} {c : Tracked σ} :
    w.containerAt p = some (a, c) ↔
      w.places[p]? = some (.ref a) ∧ w.cell? a = some c ∧ c.data.isContainer = true := by
  unfold containerAt
  split
  next b hp =>
    split
    next d hd =>
      split
      next hk =>
        simp only [Option.some.injEq, Prod.mk.injEq, hp]
        constructor
        · rintro ⟨rfl, rfl⟩
          exact ⟨rfl, hd, hk⟩
        · rintro ⟨h, hc, -⟩
          cases h
          exact ⟨rfl, Option.some.inj (hd.symm.trans hc)⟩
      next hk =>
        refine ⟨nofun, ?_⟩
        rintro ⟨h, hc, hk'⟩
        cases hp.symm.trans h
        cases hd.symm.trans hc
        exact absurd hk' hk
    next hd =>
      refine ⟨nofun, ?_⟩
      rintro ⟨h, hc, -⟩
      cases hp.symm.trans h
      cases hd.symm.trans hc
  next hp =>
    refine ⟨nofun, ?_⟩
    rintro ⟨h, -⟩
    exact absurd h (hp a)

theorem containerAt_mem {w : World σ} {p a : Nat} {c : Tracked σ}
    (h : w.containerAt p = some (a, c)) : .ref a ∈ w.places :=
  List.mem_of_getElem? (containerAt_eq_some.mp h).1

theorem cell?_setCell {w : World σ} {a : Nat} {c : Tracked σ} (h : a < w.cells.length) :
    (w.setCell a c).cell? a = some c := by
  show ((w.cells.set a (some c))[a]?).join = _
  rw [List.getElem?_set_self h]
  rfl

theorem cell?_lt {w : World σ} {a : Nat} {c : Tracked σ} (h : w.cell? a = some c) :
    a < w.cells.length :=
  (List.getElem?_eq_some_iff.mp (Option.join_eq_some_iff.mp h)).1

/-- The written backing, when the write is one. -/
theorem cell?_overwrite {w : World σ} {a : Nat} {c : Tracked σ} (t : Target)
    (hc : w.cell? a = some c) (hp : .ref a ∈ w.places) :
    (w.overwrite a c t).cell? a = some (match c.data.write t w.operand with
      | some (data, old) => { c with data, cache := w.cacheAfter t old data c.cache }
      | none => c) := by
  unfold overwrite
  cases c.data.write t w.operand with
  | none => exact hc
  | some e =>
    obtain ⟨data, old⟩ := e
    refine (dropAll_cell _ ?_).trans (cell?_setCell (cell?_lt hc))
    exact hp

theorem overwrite_places (w : World σ) (a : Nat) (c : Tracked σ) (t : Target) :
    (w.overwrite a c t).places = w.places := by
  unfold overwrite
  split
  · exact (dropAll_places _ _).1
  · rfl

end World

/-! ## The ledger -/

/-- The ledger grants it. -/
def Granted (m : Charge Unit) (l : BudgetLedger) : Prop := (m.run l).1.isOk = true

instance (m : Charge Unit) (l : BudgetLedger) : Decidable (Granted m l) :=
  inferInstanceAs (Decidable (_ = true))

/-- A charge that is refused takes nothing. -/
theorem live_chargeHeap (bytes : Nat) (phase : ExecutionPhase) (l : BudgetLedger) :
    ((Charge.chargeHeap bytes phase).run l).2.heap.liveBytes =
      l.heap.liveBytes + if Granted (Charge.chargeHeap bytes phase) l then bytes else 0 := by
  exact LedgerLemmas.live_chargeHeap bytes phase l

theorem error_of_not_granted {m : Charge Unit} {l : BudgetLedger} (h : ¬ Granted m l) :
    ∃ s, m.run l = (.error s, (m.run l).2) := by
  unfold Granted at h
  rcases hr : m.run l with ⟨s | ⟨⟩, l'⟩
  · exact ⟨s, rfl⟩
  · exact absurd (by rw [hr]; rfl) h

theorem ok_of_granted {m : Charge Unit} {l : BudgetLedger} (h : Granted m l) :
    m.run l = (.ok (), (m.run l).2) := by
  unfold Granted at h
  rcases hr : m.run l with ⟨s | ⟨⟩, l'⟩
  · rw [hr] at h
    cases h
  · rfl

theorem granted_bind {m n : Charge Unit} {l : BudgetLedger} :
    Granted (do m; n) l ↔ Granted m l ∧ Granted n (m.run l).2 := by
  by_cases hm : Granted m l
  · rw [Granted, Proc.bind_run_ok (ok_of_granted hm)]
    exact ⟨fun h => ⟨hm, h⟩, fun h => h.2⟩
  · obtain ⟨s, hs⟩ := error_of_not_granted hm
    rw [Granted, Proc.bind_run_error hs]
    exact ⟨nofun, fun h => absurd h.1 hm⟩

/-- A growth that is refused takes nothing, and nothing else is refused. -/
theorem not_granted_retrack {old new : Nat} {phase : ExecutionPhase} {l : BudgetLedger}
    (h : ¬ Granted (Charge.retrack old new phase) l) :
    old < new ∧ ((Charge.retrack old new phase).run l).2.heap.liveBytes = l.heap.liveBytes := by
  unfold Charge.retrack at h ⊢
  split at h
  next hgrow =>
    rw [if_pos hgrow]
    refine ⟨hgrow, ?_⟩
    rw [live_chargeHeap, if_neg h, Nat.add_zero]
  next hgrow =>
    split at h
    · exact absurd rfl h
    · exact absurd rfl h

/-! ## The copy -/

theorem logicalBytes_pos {data : Data σ} (h : data.isContainer = true) : 0 < data.logicalBytes := by
  cases data with
  | list items => simp [Data.logicalBytes, Word.satAdd, Word.maxU64]
  | dict entries => simp [Data.logicalBytes, Word.satAdd, Word.maxU64]
  | other bytes held => cases h

/-- The copy that `detach` makes of a backing. -/
def World.copyOf (w : World σ) (data : Data σ) : Tracked σ :=
  ⟨data, w.ledger.heap.nextId, data.logicalBytes, w.summary data⟩

theorem newTracked_error {w : World σ} {data : Data σ} {phase : ExecutionPhase} {s : ControlStop}
    {l : BudgetLedger}
    (h : (Charge.newTracked data.logicalBytes phase).run w.ledger = (.error s, l)) :
    (newTracked data phase).run w = (.error (.stop s), { w with ledger := l }) := by
  have hrun : (onLedger (Charge.newTracked data.logicalBytes phase)).run w =
      (.error (.stop s), { w with ledger := l }) := by simp only [onLedger, h]
  simp only [newTracked, Proc.bind_run, Proc.gets_run, id_eq, hrun]

theorem depth_ledger (w : World σ) (l : BudgetLedger) : ({ w with ledger := l }).depth = w.depth := by
  funext v
  cases v <;> rfl

theorem summary_ledger (w : World σ) (l : BudgetLedger) :
    ({ w with ledger := l }).summary = w.summary := by
  funext data
  unfold World.summary
  rw [depth_ledger]

theorem newTracked_ok {w : World σ} {data : Data σ} {phase : ExecutionPhase} {l : BudgetLedger}
    (h : (Charge.newTracked data.logicalBytes phase).run w.ledger = (.ok (), l)) :
    (newTracked data phase).run w =
      (.ok w.cells.length, { w with ledger := l, cells := w.cells ++ [some (w.copyOf data)] }) := by
  have hrun : (onLedger (Charge.newTracked data.logicalBytes phase)).run w =
      (.ok (), { w with ledger := l }) := by simp only [onLedger, h]
  simp only [newTracked, Proc.bind_run, Proc.gets_run, id_eq, hrun, Proc.update_run, summary_ledger]
  rfl

/-- The world in which the place holds the copy. -/
structure Copied (p a : Nat) (c : Tracked σ) (w : World σ) (l : BudgetLedger) (w' : World σ) :
    Prop where
  ledger : w'.ledger = l
  places : w'.places = w.places.set p (.ref w.cells.length)
  operand : w'.operand = w.operand
  copy : w'.cell? w.cells.length = some (w.copyOf c.data)
  others : 2 ≤ w.strongCount a → w'.cell? a = some c

theorem cell?_append {w : World σ} {l : BudgetLedger} {c d : Tracked σ} {a : Nat}
    (h : w.cell? a = some c) :
    ({ w with ledger := l, cells := w.cells ++ [some d] } : World σ).cell? a = some c := by
  show ((w.cells ++ [some d])[a]?).join = _
  rw [List.getElem?_append_left (World.cell?_lt h)]
  exact h

/-- Only the place gives up its handle. -/
theorem strongCount_setPlace {w : World σ} {p a b : Nat} {l : BudgetLedger} {d : Tracked σ}
    (hp : w.places[p]? = some (.ref a)) :
    w.strongCount a ≤ (({ w with ledger := l, cells := w.cells ++ [some d] } : World σ).setPlace p
      (.ref b)).strongCount a + 1 := by
  obtain ⟨hlt, hget⟩ := List.getElem?_eq_some_iff.mp hp
  show (w.places ++ w.operand :: w.cells.flatMap World.owned).countP (·.isRef a) ≤
    ((w.places.set p (.ref b)) ++ w.operand :: (w.cells ++ [some d]).flatMap World.owned).countP
      (·.isRef a) + 1
  have hself : (Value.ref a : Value σ).isRef a = true := beq_self_eq_true a
  simp only [List.countP_append, List.countP_cons, List.flatMap_append, List.countP_set hlt, hget,
    hself, if_true]
  omega

/-- The world after the copy was made, before the old handle is dropped. -/
def World.copied (w : World σ) (p : Nat) (data : Data σ) (l : BudgetLedger) : World σ :=
  ({ w with ledger := l, cells := w.cells ++ [some (w.copyOf data)] } : World σ).setPlace p
    (.ref w.cells.length)

theorem detach_run {w : World σ} {p a : Nat} {c : Tracked σ} {phase : ExecutionPhase}
    {l : BudgetLedger} (hcopy : ¬ (c.id ≠ 0 ∧ w.strongCount a = 1))
    (h : (Charge.newTracked c.data.logicalBytes phase).run w.ledger = (.ok (), l)) :
    (detach p a c phase).run w =
      (.ok w.cells.length, (w.copied p c.data l).dropAll [.ref a]) := by
  simp only [detach, Proc.bind_run, Proc.gets_run, id_eq]
  rw [if_neg hcopy]
  simp only [Proc.bind_run, newTracked_ok h, Proc.modify_run, Proc.pure_run]
  rfl

theorem cell?_copied (w : World σ) (p : Nat) (data : Data σ) (l : BudgetLedger) :
    (w.copied p data l).cell? w.cells.length = some (w.copyOf data) := by
  show ((w.cells ++ [_])[w.cells.length]?).join = _
  rw [List.getElem?_concat_length]
  rfl

theorem detach_copied {w : World σ} {p a : Nat} {c : Tracked σ} {phase : ExecutionPhase}
    {l : BudgetLedger} (hp : w.places[p]? = some (.ref a)) (hc : w.cell? a = some c)
    (hcopy : ¬ (c.id ≠ 0 ∧ w.strongCount a = 1))
    (h : (Charge.newTracked c.data.logicalBytes phase).run w.ledger = (.ok (), l)) :
    ∃ w', (detach p a c phase).run w = (.ok w.cells.length, w') ∧ Copied p a c w l w' := by
  let w₂ : World σ := w.copied p c.data l
  have hfresh : w₂.cell? w.cells.length = some (w.copyOf c.data) := cell?_copied w p c.data l
  have hold : w₂.cell? a = some c := cell?_append (l := l) hc
  have hcount : w.strongCount a ≤ w₂.strongCount a + 1 := strongCount_setPlace hp
  refine ⟨_, detach_run hcopy h, ?_⟩
  by_cases howned : w₂.strongCount a = 0
  · -- the copied backing was a constant: it goes, and the copy owns what it owned
    have hid : c.id = 0 := by
      by_contra hid
      have hne : w.strongCount a ≠ 1 := fun h => hcopy ⟨hid, h⟩
      have hpos := World.strongCount_pos (World.handles_places (List.mem_of_getElem? hp))
      omega
    have hfree : w₂.dropAll [.ref a] = w₂.free a c := by
      rw [World.dropAll]
      split
      next c' hcell =>
        cases hold.symm.trans hcell
        rw [if_pos howned, List.append_nil]
        refine World.dropAll_of_owned _ fun b hb => World.strongCount_pos ?_
        refine World.handles_cell (a := w.cells.length) (c := w.copyOf c.data) ?_ hb
        rw [World.cell?_free (Nat.ne_of_gt (World.cell?_lt hc))]
        exact hfresh
      next hnone => cases hold.symm.trans hnone
    rw [show w.copied p c.data l = w₂ from rfl, hfree]
    refine ⟨?_, rfl, rfl, ?_, fun h2 => by omega⟩
    · show (if c.id = 0 then l else _) = l
      rw [if_pos hid]
    · rw [World.cell?_free (Nat.ne_of_gt (World.cell?_lt hc))]
      exact hfresh
  · have hkeep : w₂.dropAll [.ref a] = w₂ := by
      refine World.dropAll_of_owned _ fun b hb => ?_
      cases List.mem_singleton.mp hb
      exact Nat.pos_of_ne_zero howned
    rw [show w.copied p c.data l = w₂ from rfl, hkeep]
    exact ⟨rfl, rfl, rfl, hfresh, fun _ => hold⟩

theorem detach_refused {w : World σ} {p a : Nat} {c : Tracked σ} {phase : ExecutionPhase}
    (hcopy : ¬ (c.id ≠ 0 ∧ w.strongCount a = 1))
    (h : ¬ Granted (Charge.newTracked c.data.logicalBytes phase) w.ledger) :
    ∃ s, (detach p a c phase).run w = (.error (.stop s),
      { w with ledger := ((Charge.newTracked c.data.logicalBytes phase).run w.ledger).2 }) := by
  obtain ⟨s, hs⟩ := error_of_not_granted h
  refine ⟨s, ?_⟩
  simp only [detach, Proc.bind_run, Proc.gets_run, id_eq]
  rw [if_neg hcopy]
  simp only [Proc.bind_run, newTracked_error hs]

/-! ## The write -/

/-- What a backing holds after a write. -/
def Data.after (t : Target) (v : Value σ) (data : Data σ) : Data σ :=
  match data.write t v with
  | some (data, _) => data
  | none => data

/-- A value that is replaced stood where the new one stands. -/
theorem write_replaces {t : Target} {v old : Value σ} {data data' : Data σ}
    (h : data.write t v = some (data', some old)) :
    ∃ l₁ l₂, data.children = l₁ ++ old :: l₂ ∧ data'.children = l₁ ++ v :: l₂ ∧
      data'.logicalBytes = data.logicalBytes := by
  unfold Data.write at h
  split at h
  next items => cases h
  next items i =>
    split at h
    next old' hold =>
      cases h
      obtain ⟨hi, hget⟩ := List.getElem?_eq_some_iff.mp hold
      refine ⟨items.take i, items.drop (i + 1), ?_, ?_, ?_⟩
      · show items = _
        rw [← hget, List.getElem_cons_drop, List.take_append_drop]
      · exact List.set_eq_take_append_cons_drop.trans (if_pos hi)
      · simp [Data.logicalBytes]
    next => cases h
  next entries key =>
    simp only [Option.some.injEq, Prod.mk.injEq] at h
    obtain ⟨rfl, hold⟩ := h
    obtain ⟨l₁, l₂, heq, hins⟩ :=
      OrderedMap.insertEntry_of_mem (v := v) entries.sorted (OrderedMap.mem_of_get hold)
    refine ⟨l₁.map (·.2), l₂.map (·.2), ?_, ?_, ?_⟩
    · simp [Data.children, heq]
    · simp [Data.children, OrderedMap.insert, hins]
    · simp only [Data.logicalBytes, OrderedMap.insert]
      rw [hins, heq]
      simp
  next => cases h

theorem isContainer_after (t : Target) (v : Value σ) (data : Data σ) :
    (data.after t v).isContainer = data.isContainer := by
  unfold Data.after Data.write
  cases data <;> cases t <;> try rfl
  dsimp only
  split
  next heq =>
    split at heq
    · cases heq
      rfl
    · cases heq
  next => rfl

/-- The run of the write, with the charge for the growth at its end. -/
theorem writeDetached_run {w : World σ} {a : Nat} {c : Tracked σ} (t : Target)
    (phase : ExecutionPhase) (hc : w.cell? a = some c) (hp : .ref a ∈ w.places) :
    ∃ d, (w.overwrite a c t).cell? a = some d ∧ d.data = c.data.after t w.operand ∧
      (writeDetached a t phase).run w =
        match (Charge.retrack c.bytes d.data.logicalBytes phase).run (w.overwrite a c t).ledger with
        | (.ok _, l) => (.ok (), ({ w.overwrite a c t with ledger := l } : World σ).setCell a
            { d with bytes := d.data.logicalBytes })
        | (.error s, l) => (.error (.stop s), { w.overwrite a c t with ledger := l }) := by
  have hcell := World.cell?_overwrite t hc hp
  refine ⟨_, hcell, ?_, ?_⟩
  · unfold Data.after
    cases c.data.write t w.operand <;> rfl
  · simp only [writeDetached, Proc.bind_run, Proc.gets_run, id_eq, hc, Proc.modify_run, retrack,
      hcell, onLedger]
    rcases (Charge.retrack c.bytes _ phase).run (w.overwrite a c t).ledger with ⟨s | ⟨⟩, l⟩ <;> rfl

/-! ## All or nothing -/

/-- The contents and the depth cache of the container in a place, and live heap, are the same. -/
def Same (p : Nat) (w w' : World σ) : Prop :=
  (w'.containerAt p).map (fun e => (e.2.data, e.2.cache)) =
      (w.containerAt p).map (fun e => (e.2.data, e.2.cache)) ∧
    w'.ledger.heap.liveBytes = w.ledger.heap.liveBytes

/-- A refusal changes nothing, and the backing of the container, when somebody else owns it
too, is never changed. -/
def AllOrNothing (p : Nat) (m : Mutation σ Unit) (w : World σ) : Prop :=
  (∀ e w', m.run w = (.error e, w') → Same p w w') ∧
    ∀ a c, w.containerAt p = some (a, c) → 2 ≤ w.strongCount a →
      ∀ r w', m.run w = (r, w') → w'.cell? a = some c

/-- When a write to a container is all or nothing. A copy: its charge is refused, or there
are an id for the copy and room for the growth. In place: there is room for the growth, what
is replaced being given back first, or the write puts back what was there. -/
def Safe (p : Nat) (t : Target) (phase : ExecutionPhase) (w : World σ) : Prop :=
  ∀ a c, w.containerAt p = some (a, c) → c.data.accepts t = true →
    if c.id ≠ 0 ∧ w.strongCount a = 1 then
      Granted (Charge.retrack c.bytes (c.data.after t w.operand).logicalBytes phase)
          (w.overwrite a c t).ledger ∨
        Same p w (w.overwrite a c t)
    else
      ¬ Granted (Charge.chargeHeap c.data.logicalBytes phase) w.ledger ∨
        Granted (do
          Charge.newTracked c.data.logicalBytes phase
          Charge.retrack c.data.logicalBytes (c.data.after t w.operand).logicalBytes phase) w.ledger

/-- The replaced value is given back first only where the size stays as it is. -/
theorem granted_retrack_overwrite (w : World σ) (a : Nat) (c : Tracked σ) (t : Target)
    (phase : ExecutionPhase) :
    Granted (Charge.retrack c.data.logicalBytes (c.data.after t w.operand).logicalBytes phase)
        (w.overwrite a c t).ledger ↔
      Granted (Charge.retrack c.data.logicalBytes (c.data.after t w.operand).logicalBytes phase)
        w.ledger := by
  unfold World.overwrite Data.after
  cases hwrite : c.data.write t w.operand with
  | none => exact Iff.rfl
  | some e =>
    obtain ⟨data, old⟩ := e
    cases old with
    | none =>
      simp only [Option.toList_none, World.dropAll]
      exact Iff.rfl
    | some old =>
      obtain ⟨l₁, l₂, -, -, hsize⟩ := write_replaces hwrite
      have hgranted : ∀ l, Granted (Charge.retrack c.data.logicalBytes data.logicalBytes phase) l := by
        intro l
        rw [hsize, Charge.retrack, if_neg (Nat.lt_irrefl _), if_neg (Nat.lt_irrefl _)]
        rfl
      exact ⟨fun _ => hgranted _, fun _ => hgranted _⟩

theorem containerAt_ledger (w : World σ) (l : BudgetLedger) (p : Nat) :
    ({ w with ledger := l } : World σ).containerAt p = w.containerAt p := rfl

/-- A write to a backing with one owner: when it is refused, it has happened. -/
theorem same_inPlace {w : World σ} {p a : Nat} {c : Tracked σ} {t : Target}
    {phase : ExecutionPhase} (h : w.containerAt p = some (a, c)) :
    (∀ e w', (writeDetached a t phase).run w = (.error e, w') → Same p w w') ↔
      Granted (Charge.retrack c.bytes (c.data.after t w.operand).logicalBytes phase)
          (w.overwrite a c t).ledger ∨
        Same p w (w.overwrite a c t) := by
  obtain ⟨d, -, hdata, hrun⟩ := writeDetached_run t phase
    (World.containerAt_eq_some.mp h).2.1 (World.containerAt_mem h)
  rw [hdata] at hrun
  by_cases hg : Granted (Charge.retrack c.bytes (c.data.after t w.operand).logicalBytes phase)
      (w.overwrite a c t).ledger
  · rw [ok_of_granted hg] at hrun
    refine ⟨fun _ => .inl hg, fun _ e w' he => ?_⟩
    rw [hrun] at he
    cases he
  · obtain ⟨s, hs⟩ := error_of_not_granted hg
    have hlive := (not_granted_retrack hg).2
    rw [hs] at hrun
    constructor
    · intro hall
      obtain ⟨hcontents, hheap⟩ := hall _ _ hrun
      exact .inr ⟨hcontents, hlive.symm.trans hheap⟩
    · rintro (hg' | ⟨hcontents, hheap⟩) e w' he
      · exact absurd hg' hg
      · rw [hrun] at he
        cases he
        exact ⟨hcontents, hlive.trans hheap⟩

theorem newTracked_granted {bytes : Nat} {phase : ExecutionPhase} {l : BudgetLedger}
    (h : ¬ Granted (Charge.newTracked bytes phase) l)
    (hcharge : Granted (Charge.chargeHeap bytes phase) l) :
    ((Charge.newTracked bytes phase).run l).2.heap.liveBytes = l.heap.liveBytes + bytes := by
  have hlive := live_chargeHeap bytes phase l
  rw [if_pos hcharge] at hlive
  have hid : ¬ Granted Charge.allocateHeapId ((Charge.chargeHeap bytes phase).run l).2 :=
    fun hid => h (granted_bind.mpr ⟨hcharge, hid⟩)
  rw [Charge.newTracked, Proc.bind_run_ok (ok_of_granted hcharge), ← hlive]
  unfold Charge.allocateHeapId Charge.onHeap Granted at *
  dsimp only at hid ⊢
  split
  next heq => rw [heq] at hid; exact absurd rfl hid
  next => rfl

/-- A write to a copy: a refusal after the copy leaves the copy in the place. -/
theorem same_copy {w : World σ} {p a : Nat} {c : Tracked σ} {t : Target} {phase : ExecutionPhase}
    (h : w.containerAt p = some (a, c)) (hcopy : ¬ (c.id ≠ 0 ∧ w.strongCount a = 1)) :
    (∀ e w', (do let a ← detach p a c phase; writeDetached a t phase : Mutation σ Unit).run w =
        (.error e, w') → Same p w w') ↔
      ¬ Granted (Charge.chargeHeap c.data.logicalBytes phase) w.ledger ∨
        Granted (do
          Charge.newTracked c.data.logicalBytes phase
          Charge.retrack c.data.logicalBytes (c.data.after t w.operand).logicalBytes phase)
          w.ledger := by
  obtain ⟨hp, hc, hk⟩ := World.containerAt_eq_some.mp h
  by_cases hnew : Granted (Charge.newTracked c.data.logicalBytes phase) w.ledger
  · obtain ⟨w', hdetach, hw'⟩ := detach_copied hp hc hcopy (ok_of_granted hnew)
    have hplace : w'.places[p]? = some (.ref w.cells.length) := by
      rw [hw'.places]
      exact List.getElem?_set_self (List.getElem?_eq_some_iff.mp hp).1
    have hat : w'.containerAt p = some (w.cells.length, w.copyOf c.data) :=
      World.containerAt_eq_some.mpr ⟨hplace, hw'.copy, hk⟩
    obtain ⟨d, hd, hdata, hrun⟩ := writeDetached_run t phase hw'.copy
      (World.containerAt_mem hat)
    have hgrowth := granted_retrack_overwrite w' w.cells.length (w.copyOf c.data) t phase
    rw [hw'.operand, hw'.ledger] at hgrowth
    rw [hw'.operand] at hdata
    rw [hdata] at hrun
    rw [Proc.bind_run_ok hdetach, hrun, granted_bind]
    by_cases hg : Granted (Charge.retrack c.data.logicalBytes
        (c.data.after t w.operand).logicalBytes phase)
        (w'.overwrite w.cells.length (w.copyOf c.data) t).ledger
    · refine ⟨fun _ => .inr ⟨hnew, hgrowth.mp hg⟩, fun _ e w'' he => ?_⟩
      rw [show (w.copyOf c.data).bytes = c.data.logicalBytes from rfl,
        show (w.copyOf c.data).data = c.data from rfl, ok_of_granted hg] at he
      cases he
    · -- the copy has grown, so the place does not hold what it held
      obtain ⟨s, hs⟩ := error_of_not_granted hg
      have hlt := (not_granted_retrack hg).1
      have hcharged : Granted (Charge.chargeHeap c.data.logicalBytes phase) w.ledger :=
        (granted_bind.mp hnew).1
      refine ⟨fun hall => ?_, fun hor => ?_⟩
      · have hsame := (hall _ _ (by
          rw [show (w.copyOf c.data).bytes = c.data.logicalBytes from rfl,
            show (w.copyOf c.data).data = c.data from rfl, hs])).1
        rw [containerAt_ledger] at hsame
        have hat' : (w'.overwrite w.cells.length (w.copyOf c.data) t).containerAt p =
            some (w.cells.length, d) := by
          refine World.containerAt_eq_some.mpr ⟨?_, hd, ?_⟩
          · rw [World.overwrite_places]
            exact hplace
          · rw [hdata, isContainer_after]
            exact hk
        rw [hat', h] at hsame
        have hsame : d.data = c.data := congrArg Prod.fst (Option.some.inj hsame)
        exact absurd (congrArg Data.logicalBytes (hsame.symm.trans hdata)) (Nat.ne_of_lt hlt)
      · rcases hor with hno | hyes
        · exact absurd hcharged hno
        · exact absurd (hgrowth.mpr hyes.2) hg
  · obtain ⟨s, hdetach⟩ := detach_refused (p := p) hcopy hnew
    rw [Proc.bind_run_error hdetach, granted_bind]
    by_cases hcharge : Granted (Charge.chargeHeap c.data.logicalBytes phase) w.ledger
    · refine ⟨fun hall => ?_, fun hor => ?_⟩
      · have hlive := (hall _ _ rfl).2
        have := newTracked_granted hnew hcharge
        have := logicalBytes_pos hk
        dsimp only at hlive
        omega
      · rcases hor with hno | hyes
        · exact absurd hcharge hno
        · exact absurd hyes.1 hnew
    · refine ⟨fun _ => .inl hcharge, fun _ e w' he => ?_⟩
      cases he
      refine ⟨rfl, ?_⟩
      obtain ⟨s', hs'⟩ := error_of_not_granted hcharge
      have hlive := live_chargeHeap c.data.logicalBytes phase w.ledger
      rw [if_neg hcharge, Nat.add_zero] at hlive
      rw [← hlive]
      dsimp only
      rw [Charge.newTracked, Proc.bind_run_error hs']

/-- A write to a copy leaves the original alone, which still owns what is replaced. -/
theorem cell?_overwrite_copy {w : World σ} {a b : Nat} {c d : Tracked σ} {t : Target}
    (hc : w.cell? a = some c) (hne : a ≠ b) (hdata : d.data = c.data) :
    (w.overwrite b d t).cell? a = some c := by
  unfold World.overwrite
  cases hwrite : d.data.write t w.operand with
  | none => exact hc
  | some e =>
    obtain ⟨data, old⟩ := e
    dsimp only
    let u : World σ :=
      { w.setCell b { d with data, cache := w.cacheAfter t old data d.cache } with operand := .null }
    have hcell : u.cell? a = some c := by
      show ((w.cells.set b _)[a]?).join = _
      rw [List.getElem?_set_ne (Ne.symm hne)]
      exact hc
    rw [show World.dropAll old.toList u = u from World.dropAll_of_owned _ fun k hk => ?_]
    · exact hcell
    · cases old with
      | none => cases hk
      | some old =>
        obtain ⟨l₁, l₂, hchildren, -⟩ := write_replaces hwrite
        rw [hdata] at hchildren
        refine World.strongCount_pos (World.handles_cell hcell ?_)
        rw [hchildren, List.mem_singleton.mp hk]
        exact List.mem_append_right _ List.mem_cons_self

/-- The backing that somebody else owns too stays as it is. -/
theorem others_kept {w : World σ} {p a : Nat} {c : Tracked σ} {t : Target} {phase : ExecutionPhase}
    (h : w.containerAt p = some (a, c)) (hshared : 2 ≤ w.strongCount a) {r : Except Refusal Unit}
    {w' : World σ} (hrun : (writeTracked p t phase).run w = (r, w')) : w'.cell? a = some c := by
  obtain ⟨hp, hc, hk⟩ := World.containerAt_eq_some.mp h
  have hcopy : ¬ (c.id ≠ 0 ∧ w.strongCount a = 1) := fun hone => by omega
  simp only [writeTracked, Proc.bind_run, Proc.gets_run, id_eq, h] at hrun
  unfold Proc.when at hrun
  split at hrun
  next haccepts =>
    by_cases hnew : Granted (Charge.newTracked c.data.logicalBytes phase) w.ledger
    · obtain ⟨u, hdetach, hu⟩ := detach_copied hp hc hcopy (ok_of_granted hnew)
      have hplace : .ref w.cells.length ∈ u.places := by
        rw [hu.places]
        exact List.mem_of_getElem? (List.getElem?_set_self (List.getElem?_eq_some_iff.mp hp).1)
      have hne : a ≠ w.cells.length := Nat.ne_of_lt (World.cell?_lt hc)
      have hkept := cell?_overwrite_copy (t := t) (d := w.copyOf c.data) (hu.others hshared) hne rfl
      obtain ⟨d, -, -, hwrite⟩ := writeDetached_run t phase hu.copy hplace
      rw [Proc.bind_run_ok hdetach, hwrite] at hrun
      split at hrun
      · cases hrun
        show ((List.set _ _ _)[a]?).join = _
        rw [List.getElem?_set_ne (Ne.symm hne)]
        exact hkept
      · cases hrun
        exact hkept
    · obtain ⟨s, hdetach⟩ := detach_refused (p := p) hcopy hnew
      rw [Proc.bind_run_error hdetach] at hrun
      cases hrun
      exact hc
  next =>
    cases hrun
    exact hc

theorem Same.refl (p : Nat) (w : World σ) : Same p w w := ⟨rfl, rfl⟩

/-- An operation that is refused before it does anything. -/
theorem allOrNothing_of_refused {p : Nat} {m : Mutation σ Unit} {w w' : World σ} {r : Except Refusal Unit}
    (hrun : m.run w = (r, w')) (hcells : w'.cells = w.cells) (hplaces : w'.places = w.places)
    (hlive : w'.ledger.heap.liveBytes = w.ledger.heap.liveBytes) : AllOrNothing p m w := by
  have hcell : w'.cell? = w.cell? := by
    funext a
    unfold World.cell?
    rw [hcells]
  refine ⟨fun e v he => ?_, fun a c hc _ r' v hv => ?_⟩
  · rw [hrun] at he
    cases he
    refine ⟨?_, hlive⟩
    unfold World.containerAt
    rw [hplaces, hcell]
  · rw [hrun] at hv
    cases hv
    rw [hcell]
    exact (World.containerAt_eq_some.mp hc).2.1

/-- The two primitives. -/
theorem writeTracked_allOrNothing (p : Nat) (t : Target) (phase : ExecutionPhase) (w : World σ) :
    AllOrNothing p (writeTracked p t phase) w ↔ Safe p t phase w := by
  cases h : w.containerAt p with
  | none =>
    have hrun : (writeTracked p t phase).run w = (.ok (), w) := by
      simp only [writeTracked, Proc.bind_run, Proc.gets_run, id_eq, h, Proc.pure_run]
    refine ⟨fun _ a c hc => ?_, fun _ => allOrNothing_of_refused hrun rfl rfl rfl⟩
    rw [h] at hc
    cases hc
  | some e =>
    obtain ⟨a, c⟩ := e
    have hsafe : Safe p t phase w ↔ (c.data.accepts t = true → ∀ e w',
        (do let a ← detach p a c phase; writeDetached a t phase : Mutation σ Unit).run w =
          (.error e, w') → Same p w w') := by
      have hat : ∀ P : Nat → Tracked σ → Prop,
          (∀ a' c', w.containerAt p = some (a', c') → P a' c') ↔ P a c := by
        refine fun P => ⟨fun hall => hall a c h, fun hP a' c' hc => ?_⟩
        cases h.symm.trans hc
        exact hP
      unfold Safe
      rw [hat fun a c => _]
      refine imp_congr_right fun haccepts => ?_
      split
      next hone =>
        rw [← same_inPlace h]
        have hdetach : (detach p a c phase).run w = (.ok a, w) := by
          simp only [detach, Proc.bind_run, Proc.gets_run, id_eq]
          rw [if_pos hone]
          rfl
        rw [Proc.bind_run_ok hdetach]
      next hcopy => rw [← same_copy h hcopy]
    rw [hsafe]
    have hrun : (writeTracked p t phase).run w = (Proc.when (c.data.accepts t = true) do
        let a ← detach p a c phase
        writeDetached a t phase : Mutation σ Unit).run w := by
      simp only [writeTracked, Proc.bind_run, Proc.gets_run, id_eq, h]
    constructor
    · intro hall haccepts e w' he
      refine hall.1 e w' ?_
      rw [hrun, Proc.when, if_pos haccepts, he]
    · intro hall
      refine ⟨fun e w' he => ?_, fun a' c' hc hshared r w' he => others_kept hc hshared he⟩
      rw [hrun] at he
      unfold Proc.when at he
      split at he
      next haccepts => exact hall haccepts e w' he
      next => cases he

/-! ## The callers -/

/-- What stands before the primitive only reads. -/
theorem allOrNothing_of_run {p : Nat} {m m' : Mutation σ Unit} {w w' : World σ}
    (hrun : m.run w = m'.run w') (hcells : w'.cells = w.cells) (hplaces : w'.places = w.places)
    (hoperand : w'.operand = w.operand) (hlive : w'.ledger.heap.liveBytes = w.ledger.heap.liveBytes) :
    AllOrNothing p m w ↔ AllOrNothing p m' w' := by
  have hat : w'.containerAt p = w.containerAt p := by
    unfold World.containerAt World.cell?
    rw [hcells, hplaces]
  have hcount : w'.strongCount = w.strongCount := by
    funext a
    unfold World.strongCount World.handles
    rw [hcells, hplaces, hoperand]
  unfold AllOrNothing Same
  rw [hrun, hat, hcount, hlive]

theorem checkElementDepth_run (w : World σ) (v : Value σ) :
    (checkElementDepth v).run w =
      if maxValueDepth ≤ w.depth v then (.error .valueDepthLimit, w) else (.ok (), w) := by
  simp only [checkElementDepth, Proc.bind_run, Proc.gets_run, id_eq, Proc.when]
  split <;> rfl

theorem assignIndex_allOrNothing (p : Nat) (index : Index) (maxCollection : Nat) (w : World σ) :
    AllOrNothing p (assignIndex p index maxCollection) w ↔
      ∀ a c t, w.containerAt p = some (a, c) → indexTarget c.data index maxCollection = .ok t →
        w.depth w.operand < maxValueDepth → Safe p t .run w := by
  have hrefused {e : Refusal} (hrun : (assignIndex p index maxCollection).run w = (.error e, w)) :
      AllOrNothing p (assignIndex p index maxCollection) w :=
    allOrNothing_of_refused hrun rfl rfl rfl
  cases h : w.containerAt p with
  | none =>
    refine ⟨fun _ a c t hc => (by cases hc), fun _ => hrefused (e := .indexAssignUnsupported) ?_⟩
    simp only [assignIndex, Proc.bind_run, Proc.gets_run, id_eq, h, Proc.stop_run]
  | some e =>
    obtain ⟨a, c⟩ := e
    cases ht : indexTarget c.data index maxCollection with
    | error e =>
      refine ⟨fun _ a' c' t hc ht' => ?_, fun _ => hrefused (e := e) ?_⟩
      · cases hc
        cases ht.symm.trans ht'
      · simp only [assignIndex, Proc.bind_run, Proc.gets_run, id_eq, h, ht, Proc.stop_run]
    | ok t =>
      by_cases hdeep : maxValueDepth ≤ w.depth w.operand
      · refine ⟨fun _ _ _ _ _ _ hd => absurd hdeep (Nat.not_le.mpr hd), fun _ =>
          hrefused (e := .valueDepthLimit) ?_⟩
        simp only [assignIndex, Proc.bind_run, Proc.gets_run, id_eq, h, ht,
          checkElementDepth_run, if_pos hdeep]
      · have hrun : (assignIndex p index maxCollection).run w = (writeTracked p t .run).run w := by
          simp only [assignIndex, Proc.bind_run, Proc.gets_run, id_eq, h, ht,
            checkElementDepth_run, if_neg hdeep, indexSetTracked]
        rw [allOrNothing_of_run hrun rfl rfl rfl rfl, writeTracked_allOrNothing]
        refine ⟨fun hsafe a' c' t' hc ht' _ => ?_, fun hall =>
          hall a c t rfl ht (Nat.not_le.mp hdeep)⟩
        cases hc
        cases ht.symm.trans ht'
        exact hsafe

/-- The ledger after `check_collection`. -/
def World.checked (w : World σ) (size : Nat) : World σ :=
  { w with ledger := ((Charge.checkCollectionElements size .run).run w.ledger).2 }

theorem live_checked (w : World σ) (size : Nat) :
    (w.checked size).ledger.heap.liveBytes = w.ledger.heap.liveBytes :=
  congrArg (·.liveBytes) (LedgerLemmas.untouched_checkCollectionElements size .run w.ledger).heap

theorem push_allOrNothing (p : Nat) (w : World σ) :
    AllOrNothing p (push p) w ↔
      ∀ a c items, w.containerAt p = some (a, c) → c.data = .list items →
        Granted (Charge.checkCollectionElements (Word.satAdd items.length 1) .run) w.ledger →
        w.depth w.operand < maxValueDepth →
        Safe p .listEnd .run (w.checked (Word.satAdd items.length 1)) := by
  cases h : w.containerAt p with
  | none =>
    have hrun : (push p).run w = (.error .builtinArgType, w) := by
      simp only [push, Proc.bind_run, Proc.gets_run, id_eq, h, Proc.stop_run]
    exact ⟨fun _ a c items hc => (by cases hc), fun _ => allOrNothing_of_refused hrun rfl rfl rfl⟩
  | some e =>
    obtain ⟨a, ⟨data, id, bytes, cache⟩⟩ := e
    cases data with
    | dict entries =>
      have hrun : (push p).run w = (.error .builtinArgType, w) := by
        simp only [push, Proc.bind_run, Proc.gets_run, id_eq, h, Proc.stop_run]
      refine ⟨fun _ a' c' items hc hlist => ?_, fun _ => allOrNothing_of_refused hrun rfl rfl rfl⟩
      cases hc
      cases hlist
    | other bytes held =>
      have := (World.containerAt_eq_some.mp h).2.2
      cases this
    | list items =>
      have hstart : (push p).run w = (do
          onLedger (Charge.checkCollectionElements (Word.satAdd items.length 1) .run)
          checkElementDepth w.operand
          writeTracked p .listEnd .run : Mutation σ Unit).run w := by
        simp only [push, Proc.bind_run, Proc.gets_run, id_eq, h, listPushTracked]
      have hlive := live_checked w (Word.satAdd items.length 1)
      by_cases hsize : Granted
          (Charge.checkCollectionElements (Word.satAdd items.length 1) .run) w.ledger
      · have hcheck : (onLedger (Charge.checkCollectionElements (Word.satAdd items.length 1) .run)).run
            w = (.ok (), w.checked (Word.satAdd items.length 1)) := by
          simp only [onLedger]
          rw [ok_of_granted hsize]
          rfl
        rw [Proc.bind_run_ok hcheck] at hstart
        simp only [Proc.bind_run, checkElementDepth_run] at hstart
        by_cases hdeep : maxValueDepth ≤ w.depth w.operand
        · rw [if_pos (show maxValueDepth ≤ (w.checked _).depth w.operand from
            (depth_ledger w _).symm ▸ hdeep)] at hstart
          exact ⟨fun _ _ _ _ _ _ _ hd => absurd hdeep (Nat.not_le.mpr hd), fun _ =>
            allOrNothing_of_refused hstart rfl rfl hlive⟩
        · rw [if_neg (show ¬ maxValueDepth ≤ (w.checked _).depth w.operand from
            (depth_ledger w _).symm ▸ hdeep)] at hstart
          rw [allOrNothing_of_run hstart rfl rfl rfl hlive, writeTracked_allOrNothing]
          refine ⟨fun hsafe a' c' items' hc hlist _ _ => ?_, fun hall =>
            hall a _ items rfl rfl hsize (Nat.not_le.mp hdeep)⟩
          cases hc
          cases hlist
          exact hsafe
      · obtain ⟨s, hs⟩ := error_of_not_granted hsize
        have hcheck : (onLedger (Charge.checkCollectionElements (Word.satAdd items.length 1) .run)).run
            w = (.error (.stop s), w.checked (Word.satAdd items.length 1)) := by
          simp only [onLedger]
          rw [hs]
          rfl
        rw [Proc.bind_run_error hcheck] at hstart
        refine ⟨fun _ a' c' items' hc hlist hg => ?_, fun _ =>
          allOrNothing_of_refused hstart rfl rfl hlive⟩
        cases hc
        cases hlist
        exact absurd hg hsize

/-- The writes that leave everything as it was when they are refused, from every memory and every
ledger: the primitives, and the operations of the language with their checks. -/
theorem mutation_all_or_nothing_iff (w : World σ) (p : Nat) :
    (∀ phase, AllOrNothing p (listPushTracked p phase) w ↔ Safe p .listEnd phase w) ∧
    (∀ t phase, AllOrNothing p (indexSetTracked p t phase) w ↔ Safe p t phase w) ∧
    (∀ index maxCollection, AllOrNothing p (assignIndex p index maxCollection) w ↔
      ∀ a c t, w.containerAt p = some (a, c) → indexTarget c.data index maxCollection = .ok t →
        w.depth w.operand < maxValueDepth → Safe p t .run w) ∧
    (AllOrNothing p (push p) w ↔
      ∀ a c items, w.containerAt p = some (a, c) → c.data = .list items →
        Granted (Charge.checkCollectionElements (Word.satAdd items.length 1) .run) w.ledger →
        w.depth w.operand < maxValueDepth →
        Safe p .listEnd .run (w.checked (Word.satAdd items.length 1))) :=
  ⟨fun phase => writeTracked_allOrNothing p .listEnd phase w,
    fun t phase => writeTracked_allOrNothing p t phase w,
    fun index maxCollection => assignIndex_allOrNothing p index maxCollection w,
    push_allOrNothing p w⟩

/-- A list of one element that takes all the heap there is, and a second element to push. -/
def fullHeap : World Nat where
  cells := [some ⟨.list [.scalar 1], 1, 56, ⟨0, 1⟩⟩]
  places := [.ref 0]
  operand := .scalar 2
  ledger :=
    { config := ⟨1, 0, 56, 0, 0, 0, 0, 0, 0, 0, 0, 9, 0, 0, 0, 0, 0, 0, 0, 0, ⟨0, 0⟩, by decide, by decide⟩
      cancellation := fun _ => false
      clock := none
      heap := { nextId := 2, liveBytes := 56, peakBytes := 56, limit := 56 } }

/-- The second element stays in the list. -/
theorem refused_push_is_kept : ¬ AllOrNothing 0 (push 0) fullHeap := by
  rw [push_allOrNothing]
  intro h
  have hsafe := h 0 ⟨.list [.scalar 1], 1, 56, ⟨0, 1⟩⟩ [.scalar 1] rfl rfl (by decide) (by decide)
    0 _ rfl rfl
  rw [if_pos (by decide)] at hsafe
  rcases hsafe with hgranted | hsame
  · exact absurd ((granted_retrack_overwrite _ _ _ _ _).mp hgranted) (by decide)
  · have hcontents := hsame.1
    simp [World.overwrite, World.dropAll, Data.write, World.containerAt, World.cell?,
      World.checked, World.setCell, fullHeap, Data.isContainer] at hcontents

end Tsumugi.Backing
