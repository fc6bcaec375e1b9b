import Mathlib.Data.List.Basic

/-!
# One-pass code generation with jumps that are patched later

A generator appends instructions and may emit a jump whose target it writes in later. A
*label* describes the state of the machine at a position of the code. An instruction
demands something of its own label and leaves along its exits, each with a label that the
position it leads to must accept.

`Flow` says that the code generated so far is labelled consistently: `types` are the
labels of the instructions that exist, `cur` is the label of the next one, if it can be
reached, `pend` lists the jumps that wait for their target, each with the label that the
target will have to accept, and `anchors` lists positions with labels they accept, to
which later instructions may jump back.

Results:
1. `Flow.emit`, `Flow.emitNext`, `Flow.emitPending`: one more instruction.
2. `Flow.weaken`, `Flow.revive`: another label for the next position.
3. `Flow.patch`: a waiting jump gets the next position as its target.
4. `Flow.close`: code without waiting jumps and with an end that is not reached is
   labelled consistently by itself.
-/

namespace Backpatch

/-- A way an instruction may go, with the label it brings: on to the next position, forward
to a target, or back to a target. -/
inductive Exit (Ty : Type)
  | next (σ : Ty)
  | jump (target : Nat) (σ : Ty)
  | back (target : Nat) (σ : Ty)

/-- The same exit of an instruction whose jump has another target. -/
def Exit.retarget {Ty : Type} (target : Nat) : Exit Ty → Exit Ty
  | .jump _ σ => .jump target σ
  | x => x

/-- A discipline of labels: `sub σ ρ` says that a position labelled `ρ` may be reached with
`σ`. What an instruction demands may depend on tables of the code that only grow. -/
structure Discipline (Ctx Op Ty : Type) where
  sub : Ty → Ty → Prop
  grow : Ctx → Ctx → Prop
  demand : Ctx → Op → Ty → Prop
  exits : Ctx → Nat → Op → Ty → List (Exit Ty)
  sub_refl : ∀ σ, sub σ σ
  sub_trans : ∀ {σ ρ τ}, sub σ ρ → sub ρ τ → sub σ τ
  demand_grow : ∀ {ctx ctx' op τ}, grow ctx ctx' → demand ctx op τ → demand ctx' op τ
  exits_grow : ∀ {ctx ctx' pc op τ}, grow ctx ctx' → demand ctx op τ →
    exits ctx' pc op τ = exits ctx pc op τ

variable {Ctx Op Ty : Type} (D : Discipline Ctx Op Ty)

/-- The labels of the positions up to the next one. -/
def labels (types : List Ty) (cur : Option Ty) : List Ty := types ++ cur.toList

/-- The position `t` accepts `σ`. -/
def Arrives (types : List Ty) (cur : Option Ty) (t : Nat) (σ : Ty) : Prop :=
  ∃ ρ, (labels types cur)[t]? = some ρ ∧ D.sub σ ρ

/-- What an exit of the instruction at `pc` leads to accepts it. -/
def Accepted (types : List Ty) (cur : Option Ty) (pend : List (Nat × Ty)) (pc : Nat) :
    Exit Ty → Prop
  | .next σ => Arrives D types cur (pc + 1) σ
  | .jump t σ => (∀ ρ, (pc, ρ) ∈ pend → D.sub σ ρ) ∧
      ((∀ ρ, (pc, ρ) ∉ pend) → pc < t ∧ Arrives D types cur t σ)
  | .back t σ => Arrives D types cur t σ

/-- The code is labelled consistently as far as it exists. -/
structure Flow (ctx : Ctx) (code : List Op) (types : List Ty) (cur : Option Ty)
    (pend anchors : List (Nat × Ty)) : Prop where
  length_eq : types.length = code.length
  demand : ∀ (pc : Nat) op τ, code[pc]? = some op → types[pc]? = some τ → D.demand ctx op τ
  accepted : ∀ (pc : Nat) op τ, code[pc]? = some op → types[pc]? = some τ →
    ∀ x ∈ D.exits ctx pc op τ, Accepted D types cur pend pc x
  pend_lt : ∀ e ∈ pend, e.1 < code.length
  anchored : ∀ e ∈ anchors, Arrives D types cur e.1 e.2

/-- What an instruction that is being emitted with label `τ` may leave along, when the next
position is labelled `cur'` and its jump waits for a target that accepts `wait`. -/
def Emitted (anchors : List (Nat × Ty)) (cur' wait : Option Ty) : Exit Ty → Prop
  | .next σ => ∃ τ' ∈ cur', D.sub σ τ'
  | .jump _ σ => ∃ ρ ∈ wait, D.sub σ ρ
  | .back t σ => ∃ ρ, (t, ρ) ∈ anchors ∧ D.sub σ ρ

variable {D} {ctx ctx' : Ctx} {code : List Op} {types : List Ty} {cur cur' : Option Ty}
  {pend pend' anchors anchors' : List (Nat × Ty)}

theorem labels_some {τ : Ty} : labels types (some τ) = types ++ [τ] := rfl

theorem labels_length_some {τ : Ty} : (labels types (some τ))[types.length]? = some τ := by
  rw [labels_some, List.getElem?_concat_length]

/-- A position that accepts a label accepts what is below it. -/
theorem Arrives.sub {t : Nat} {σ ρ : Ty} (h : Arrives D types cur t ρ) (hsub : D.sub σ ρ) :
    Arrives D types cur t σ := by
  obtain ⟨τ, hτ, hρ⟩ := h
  exact ⟨τ, hτ, D.sub_trans hsub hρ⟩

/-- The next position accepts its own label. -/
theorem arrives_length {τ : Ty} : Arrives D types (some τ) types.length τ :=
  ⟨τ, labels_length_some, D.sub_refl τ⟩

/-- A longer code accepts at its positions what the shorter one did. -/
theorem Arrives.append {τ : Ty} {t : Nat} {σ : Ty} (h : Arrives D types (some τ) t σ) :
    Arrives D (types ++ [τ]) cur' t σ := by
  obtain ⟨ρ, hρ, hsub⟩ := h
  refine ⟨ρ, ?_, hsub⟩
  have hlt : t < (types ++ [τ]).length := (List.getElem?_eq_some_iff.mp hρ).1
  rw [labels, List.getElem?_append_left hlt]
  exact hρ

/-- Another label for the next position keeps what arrives, when it accepts what the old one
accepted. -/
theorem Arrives.relabel (h : ∀ τ ∈ cur, ∃ τ' ∈ cur', D.sub τ τ') {t : Nat} {σ : Ty}
    (ha : Arrives D types cur t σ) : Arrives D types cur' t σ := by
  obtain ⟨ρ, hρ, hsub⟩ := ha
  rcases Nat.lt_or_ge t types.length with hlt | hge
  · refine ⟨ρ, ?_, hsub⟩
    rw [labels, List.getElem?_append_left hlt] at hρ ⊢
    exact hρ
  · rw [labels, List.getElem?_append_right hge] at hρ
    cases cur with
    | none => simp at hρ
    | some τ =>
      obtain ⟨τ', hτ', hsub'⟩ := h τ rfl
      obtain ⟨ht, rfl⟩ : t - types.length = 0 ∧ τ = ρ := by
        cases hn : t - types.length with
        | zero => simpa [hn] using hρ
        | succ n => simp [hn] at hρ
      refine ⟨τ', ?_, D.sub_trans hsub hsub'⟩
      rw [labels, List.getElem?_append_right hge, ht, Option.mem_def.mp hτ']
      rfl

/-- An exit stays accepted when more labels arrive and the instruction waits as before. -/
theorem Accepted.mono {types' : List Ty} {pc : Nat} {x : Exit Ty}
    (h : Accepted D types cur pend pc x)
    (ha : ∀ {t σ}, Arrives D types cur t σ → Arrives D types' cur' t σ)
    (hp : ∀ ρ, (pc, ρ) ∈ pend' ↔ (pc, ρ) ∈ pend) : Accepted D types' cur' pend' pc x := by
  cases x with
  | next σ => exact ha h
  | jump t σ =>
    obtain ⟨hwait, hgo⟩ := h
    refine ⟨fun ρ hρ => hwait ρ ((hp ρ).mp hρ), fun hno => ?_⟩
    exact (hgo fun ρ hρ => hno ρ ((hp ρ).mpr hρ)).imp_right ha
  | back t σ => exact ha h

namespace Flow

/-- The empty code. -/
theorem nil : Flow D ctx [] [] cur [] [] where
  length_eq := rfl
  demand pc op τ h := by simp at h
  accepted pc op τ h := by simp at h
  pend_lt e h := by cases h
  anchored e h := by cases h

theorem grow (h : Flow D ctx code types cur pend anchors) (hg : D.grow ctx ctx') :
    Flow D ctx' code types cur pend anchors where
  length_eq := h.length_eq
  demand pc op τ hop hτ := D.demand_grow hg (h.demand pc op τ hop hτ)
  accepted pc op τ hop hτ := by
    rw [D.exits_grow hg (h.demand pc op τ hop hτ)]
    exact h.accepted pc op τ hop hτ
  pend_lt := h.pend_lt
  anchored := h.anchored

/-- The order in which the jumps wait does not matter. -/
theorem congr (h : Flow D ctx code types cur pend anchors) (hp : ∀ e, e ∈ pend' ↔ e ∈ pend) :
    Flow D ctx code types cur pend' anchors where
  length_eq := h.length_eq
  demand := h.demand
  accepted pc op τ hop hτ x hx :=
    (h.accepted pc op τ hop hτ x hx).mono (fun h => h) fun ρ => hp (pc, ρ)
  pend_lt e he := h.pend_lt e ((hp e).mp he)
  anchored := h.anchored

/-- The next position may be jumped back to. -/
theorem anchor {τ : Ty} (h : Flow D ctx code types (some τ) pend anchors) :
    Flow D ctx code types (some τ) pend ((code.length, τ) :: anchors) where
  length_eq := h.length_eq
  demand := h.demand
  accepted := h.accepted
  pend_lt := h.pend_lt
  anchored e he := by
    rcases List.mem_cons.mp he with rfl | he
    · exact h.length_eq ▸ arrives_length
    · exact h.anchored e he

/-- Another label for the next position, that accepts what the old one did. -/
theorem relabel (h : Flow D ctx code types cur pend anchors)
    (hc : ∀ τ ∈ cur, ∃ τ' ∈ cur', D.sub τ τ') : Flow D ctx code types cur' pend anchors where
  length_eq := h.length_eq
  demand := h.demand
  accepted pc op ρ hop hρ x hx :=
    (h.accepted pc op ρ hop hρ x hx).mono (Arrives.relabel hc) fun _ => Iff.rfl
  pend_lt := h.pend_lt
  anchored e he := (h.anchored e he).relabel hc

/-- The next position may get a label that accepts more. -/
theorem weaken {τ τ' : Ty} (h : Flow D ctx code types (some τ) pend anchors)
    (hsub : D.sub τ τ') : Flow D ctx code types (some τ') pend anchors :=
  h.relabel fun _ hm => ⟨τ', rfl, Option.some.inj hm ▸ hsub⟩

/-- A next position that is not reached may get any label. -/
theorem revive (h : Flow D ctx code types none pend anchors) (τ : Ty) :
    Flow D ctx code types (some τ) pend anchors :=
  h.relabel fun _ hm => by cases hm

/-- One more instruction, which may have to wait for its target. -/
theorem emit {τ : Ty} {op : Op} {w : Option Ty}
    (h : Flow D ctx code types (some τ) pend anchors) (hd : D.demand ctx op τ)
    (hx : ∀ x ∈ D.exits ctx code.length op τ, Emitted D anchors cur' w x) :
    Flow D ctx (code ++ [op]) (types ++ [τ]) cur'
      ((w.map (code.length, ·)).toList ++ pend) anchors where
  length_eq := by simp [h.length_eq]
  demand pc op' ρ hop' hρ := by
    rcases Nat.lt_trichotomy pc code.length with hlt | rfl | hgt
    · rw [List.getElem?_append_left hlt] at hop'
      rw [List.getElem?_append_left (h.length_eq ▸ hlt)] at hρ
      exact h.demand pc op' ρ hop' hρ
    · rw [List.getElem?_concat_length] at hop'
      rw [← h.length_eq, List.getElem?_concat_length] at hρ
      cases hop'
      cases hρ
      exact hd
    · have hle := (List.getElem?_eq_some_iff.mp hop').1
      rw [List.length_append, List.length_singleton] at hle
      exact absurd hle (Nat.not_lt.mpr hgt)
  accepted pc op' ρ hop' hρ x hm := by
    rcases Nat.lt_trichotomy pc code.length with hlt | rfl | hgt
    · rw [List.getElem?_append_left hlt] at hop'
      rw [List.getElem?_append_left (h.length_eq ▸ hlt)] at hρ
      refine (h.accepted pc op' ρ hop' hρ x hm).mono Arrives.append fun υ => ?_
      cases w with
      | none => simp
      | some w => simp [Nat.ne_of_lt hlt]
    · rw [List.getElem?_concat_length] at hop'
      rw [← h.length_eq, List.getElem?_concat_length] at hρ
      cases hop'
      cases hρ
      have hfresh : ∀ υ, (code.length, υ) ∉ pend := fun υ hυ =>
        Nat.lt_irrefl _ (h.pend_lt _ hυ)
      have hx := hx x hm
      cases x with
      | next σ =>
        obtain ⟨τ', hτ', hsub⟩ := hx
        refine Arrives.sub ?_ hsub
        rw [Option.mem_def.mp hτ', ← h.length_eq, show types.length + 1 = (types ++ [τ]).length by simp]
        exact arrives_length
      | jump t σ =>
        obtain ⟨υ, hυ, hsub⟩ := hx
        rw [Option.mem_def.mp hυ]
        refine ⟨fun ρ hρ => ?_, fun hno => absurd (by simp) (hno υ)⟩
        obtain rfl : ρ = υ := by simpa [hfresh ρ] using hρ
        exact hsub
      | back t σ =>
        obtain ⟨υ, hυ, hsub⟩ := hx
        exact ((h.anchored _ hυ).append).sub hsub
    · have hle := (List.getElem?_eq_some_iff.mp hop').1
      rw [List.length_append, List.length_singleton] at hle
      exact absurd hle (Nat.not_lt.mpr hgt)
  pend_lt e he := by
    rw [List.length_append, List.length_singleton]
    rcases List.mem_append.mp he with he | he
    · cases w with
      | none => cases he
      | some w =>
        obtain rfl : e = (code.length, w) := by simpa using he
        exact Nat.lt_succ_self _
    · exact Nat.lt_succ_of_lt (h.pend_lt e he)
  anchored e he := (h.anchored e he).append

/-- One more instruction that always goes on to the next one. -/
theorem emitNext {τ σ : Ty} {op : Op} (h : Flow D ctx code types (some τ) pend anchors)
    (hd : D.demand ctx op τ) (hx : D.exits ctx code.length op τ = [.next σ]) :
    Flow D ctx (code ++ [op]) (types ++ [τ]) (some σ) pend anchors := by
  refine h.emit (w := none) hd fun x hm => ?_
  rw [hx, List.mem_singleton] at hm
  subst hm
  exact ⟨σ, rfl, D.sub_refl σ⟩

/-- A waiting jump gets the next position as its target. -/
theorem patch {τ ρ : Ty} {op op' : Op} {off : Nat}
    (h : Flow D ctx code types (some τ) ((off, ρ) :: pend) anchors) (hsub : D.sub ρ τ)
    (hop : code[off]? = some op)
    (hd : ∀ υ, D.demand ctx op υ → D.demand ctx op' υ)
    (hx : ∀ υ, D.exits ctx off op' υ = (D.exits ctx off op υ).map (.retarget code.length)) :
    Flow D ctx (code.set off op') types (some τ) pend anchors where
  length_eq := by rw [List.length_set]; exact h.length_eq
  demand pc op'' υ hop'' hυ := by
    by_cases heq : off = pc
    · subst heq
      rw [List.getElem?_set_self (h.pend_lt _ List.mem_cons_self)] at hop''
      cases hop''
      exact hd υ (h.demand off op υ hop hυ)
    · rw [List.getElem?_set_ne heq] at hop''
      exact h.demand pc op'' υ hop'' hυ
  accepted pc op'' υ hop'' hυ x hm := by
    by_cases heq : off = pc
    · subst heq
      have hoff := h.pend_lt _ List.mem_cons_self
      rw [List.getElem?_set_self hoff] at hop''
      cases hop''
      rw [hx, List.mem_map] at hm
      obtain ⟨y, hy, rfl⟩ := hm
      have hacc := h.accepted off op υ hop hυ y hy
      cases y with
      | next σ => exact hacc
      | jump t σ =>
        -- Another entry of the same jump may still wait; then it decides.
        refine ⟨fun ρ' hρ' => hacc.1 ρ' (List.mem_cons_of_mem _ hρ'), fun _ => ⟨hoff, ?_⟩⟩
        refine (Arrives.sub ?_ hsub).sub (hacc.1 ρ List.mem_cons_self)
        exact h.length_eq ▸ arrives_length
      | back t σ => exact hacc
    · rw [List.getElem?_set_ne heq] at hop''
      refine (h.accepted pc op'' υ hop'' hυ x hm).mono (fun h => h) fun ρ' => ?_
      simp [Ne.symm heq]
  pend_lt e he := by
    rw [List.length_set]
    exact h.pend_lt e (List.mem_cons_of_mem _ he)
  anchored := h.anchored

end Flow

/-! ## Finished code -/

variable (D)

/-- In finished code an exit leads to a position that accepts it. -/
def Leads (types : List Ty) (pc : Nat) : Exit Ty → Prop
  | .next σ => ∃ ρ, types[pc + 1]? = some ρ ∧ D.sub σ ρ
  | .jump t σ => pc < t ∧ ∃ ρ, types[t]? = some ρ ∧ D.sub σ ρ
  | .back t σ => ∃ ρ, types[t]? = some ρ ∧ D.sub σ ρ

/-- Finished code with its labels. -/
structure Closed (ctx : Ctx) (code : List Op) (types : List Ty) : Prop where
  length_eq : types.length = code.length
  demand : ∀ (pc : Nat) op τ, code[pc]? = some op → types[pc]? = some τ → D.demand ctx op τ
  leads : ∀ (pc : Nat) op τ, code[pc]? = some op → types[pc]? = some τ →
    ∀ x ∈ D.exits ctx pc op τ, Leads D types pc x

variable {D}

theorem arrives_none {t : Nat} {σ : Ty} :
    Arrives D types none t σ ↔ ∃ ρ, types[t]? = some ρ ∧ D.sub σ ρ := by
  rw [Arrives, labels, Option.toList_none, List.append_nil]

theorem Flow.close (h : Flow D ctx code types none [] anchors) : Closed D ctx code types where
  length_eq := h.length_eq
  demand := h.demand
  leads pc op τ hop hτ x hx := by
    have hacc := h.accepted pc op τ hop hτ x hx
    cases x with
    | next σ => exact arrives_none.mp hacc
    | jump t σ => exact (hacc.2 fun ρ => List.not_mem_nil).imp_right arrives_none.mp
    | back t σ => exact arrives_none.mp hacc

end Backpatch
