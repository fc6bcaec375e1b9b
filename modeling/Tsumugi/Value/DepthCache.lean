import Tsumugi.Value.Operations
import Tsumugi.Value.Mutation

/-!
# The depth cache

A list or dict keeps the greatest depth of its children and how many children have it. The
cache is right because a backing that is written in place is nobody's child: its only owner
is the place that is written.

Results:
1. `DepthCache.Fits`: what `note_child_removed`, `note_child_added` and `settle_child_depth` keep.
2. `Sound.overwrite`: a write to a backing with one owner keeps every cache.
3. `keeps_detach`: after a copy-on-write the place has such a backing.
-/

namespace Tsumugi.Backing

open Budget

/-! ## Maximum and count -/

namespace DepthCache

/-- The cache bounds the depths and counts no child that is not there; `exact` says that it
counts them all. -/
structure Loose (exact : Prop) (depths : List Nat) (k : DepthCache) : Prop where
  bound : ∀ d ∈ depths, d ≤ k.max
  count_le : k.count ≤ depths.count k.max
  count_eq : exact → k.count = depths.count k.max

/-- The cache of these depths. -/
structure Fits (exact : Prop) (depths : List Nat) (k : DepthCache) : Prop extends
    Loose exact depths k where
  empty : k.count = 0 → depths = [] ∧ k.max = 0

variable {exact : Prop} {depths : List Nat} {d old : Nat} {k : DepthCache}

theorem loose_perm {depths' : List Nat} (h : Loose exact depths k) (hp : depths.Perm depths') :
    Loose exact depths' k where
  bound d hd := h.bound d (hp.mem_iff.mpr hd)
  count_le := hp.count_eq k.max ▸ h.count_le
  count_eq he := hp.count_eq k.max ▸ h.count_eq he

theorem fits_perm {depths' : List Nat} (h : Fits exact depths k) (hp : depths.Perm depths') :
    Fits exact depths' k where
  toLoose := loose_perm h.toLoose hp
  empty hk := by
    obtain ⟨rfl, hmax⟩ := h.empty hk
    exact ⟨hp.nil_eq.symm ▸ rfl, hmax⟩

/-- A cached maximum that is not the bound of nothing is one of the depths. -/
theorem Fits.max_mem (h : Fits exact depths k) (hne : depths ≠ []) : k.max ∈ depths := by
  have hpos : 0 < k.count := Nat.pos_of_ne_zero fun h0 => hne (h.empty h0).1
  exact List.count_pos_iff.mp (Nat.lt_of_lt_of_le hpos h.count_le)

theorem loose_removed (h : Loose exact (d :: depths) k) : Loose exact depths (k.removed d) := by
  have hbound : ∀ e ∈ depths, e ≤ k.max := fun e he => h.bound e (List.mem_cons_of_mem _ he)
  have hle := h.count_le
  have heq := h.count_eq
  unfold removed
  split
  next hd =>
    obtain ⟨rfl, hpos⟩ := hd
    rw [List.count_cons_self] at hle heq
    refine ⟨hbound, ?_, fun he => ?_⟩
    · show k.count - 1 ≤ depths.count k.max
      omega
    · show k.count - 1 = depths.count k.max
      rw [heq he, Nat.add_sub_cancel]
  next hd =>
    by_cases hmax : d = k.max
    · subst hmax
      rw [List.count_cons_self] at heq
      have hzero : k.count = 0 := by
        by_contra hne
        exact hd ⟨rfl, Nat.pos_of_ne_zero hne⟩
      refine ⟨hbound, by rw [hzero]; exact Nat.zero_le _, fun he => ?_⟩
      have := heq he
      omega
    · rw [List.count_cons_of_ne hmax] at hle heq
      exact ⟨hbound, hle, heq⟩

theorem loose_added (h : Loose exact depths k) (hsmall : exact → depths.length < maxU32) :
    Loose exact (d :: depths) (k.added d) := by
  unfold added
  split
  next hlt =>
    have hnot : depths.count d = 0 := List.count_eq_zero.mpr fun hmem =>
      absurd (h.bound d hmem) (Nat.not_le.mpr hlt)
    refine ⟨fun e he => ?_, ?_, fun _ => ?_⟩
    · rcases List.mem_cons.mp he with rfl | he
      · exact Nat.le_refl _
      · exact Nat.le_of_lt (Nat.lt_of_le_of_lt (h.bound e he) hlt)
    · rw [List.count_cons_self, hnot]
    · rw [List.count_cons_self, hnot]
  next hle =>
    split
    next heq =>
      subst heq
      refine ⟨fun e he => ?_, ?_, fun he => ?_⟩
      · rcases List.mem_cons.mp he with rfl | he
        · exact Nat.le_refl _
        · exact h.bound e he
      · rw [List.count_cons_self]
        exact Nat.le_trans (Nat.min_le_left _ _) (Nat.succ_le_succ h.count_le)
      · rw [List.count_cons_self, ← h.count_eq he]
        refine Nat.min_eq_left ?_
        have := h.count_eq he
        have := List.count_le_length (a := k.max) (l := depths)
        have := hsmall he
        omega
    next hne =>
      refine ⟨fun e he => ?_, ?_, fun he => ?_⟩
      · rcases List.mem_cons.mp he with rfl | he
        · exact Nat.not_lt.mp hle
        · exact h.bound e he
      · rw [List.count_cons_of_ne hne]
        exact h.count_le
      · rw [List.count_cons_of_ne hne]
        exact h.count_eq he

/-- A child more: the maximum is always counted. -/
theorem fits_added (h : Fits exact depths k) (hsmall : exact → depths.length < maxU32) :
    Fits exact (d :: depths) (k.added d) where
  toLoose := loose_added h.toLoose hsmall
  empty hzero := by
    unfold added at hzero
    split at hzero
    next => cases hzero
    next hle =>
      split at hzero
      next =>
        have : 1 ≤ min (k.count + 1) maxU32 := Nat.le_min.mpr ⟨Nat.le_add_left .., by decide⟩
        dsimp only at hzero
        omega
      next hne =>
        have := (h.empty hzero).2
        omega

theorem fits_summarize (hsmall : exact → depths.length ≤ maxU32) :
    Fits exact depths (summarize depths) := by
  have hfold : ∀ (l done : List Nat) (k : DepthCache), Fits exact done k →
      (exact → done.length + l.length ≤ maxU32) →
      Fits exact (done ++ l) (l.foldl (fun k d => k.added d) k) := by
    intro l
    induction l with
    | nil => exact fun done k h _ => by simpa using h
    | cons d rest ih =>
      intro done k h hle
      have hadd : Fits exact (done ++ [d]) (k.added d) :=
        fits_perm (fits_added h fun he => by have := hle he; rw [List.length_cons] at this; omega)
          (List.perm_append_singleton d done).symm
      have := ih (done ++ [d]) _ hadd fun he => by
        have := hle he
        rw [List.length_cons] at this
        rw [List.length_append, List.length_singleton]
        omega
      simpa using this
  have hnil : Fits exact [] (⟨0, 0⟩ : DepthCache) := ⟨⟨nofun, Nat.le_refl _, fun _ => rfl⟩, fun _ => ⟨rfl, rfl⟩⟩
  simpa [summarize] using hfold depths [] _ hnil fun he => by simpa using hsmall he

/-- When nobody is counted any more, the cache is computed anew. -/
theorem fits_settle (h : Loose exact depths k) (hsmall : exact → depths.length ≤ maxU32) :
    Fits exact depths (k.settle depths) := by
  unfold settle
  split
  next => exact fits_summarize hsmall
  next hne => exact ⟨h, fun h0 => absurd h0 hne⟩

/-- Two caches of one list have the same maximum. -/
theorem Fits.max_eq {exact' : Prop} {k' : DepthCache} (h : Fits exact depths k)
    (h' : Fits exact' depths k') : k.max = k'.max := by
  by_cases hne : depths = []
  · subst hne
    have hzero : ∀ {e : Prop} {k : DepthCache}, Fits e [] k → k.max = 0 := fun hf =>
      (hf.empty (Nat.le_zero.mp hf.count_le)).2
    rw [hzero h, hzero h']
  · exact Nat.le_antisymm (h'.bound _ (h.max_mem hne)) (h.bound _ (h'.max_mem hne))

/-- An exact cache is the one that is computed from the children. -/
theorem Fits.eq_summarize (h : Fits True depths k) (hsmall : depths.length ≤ maxU32) :
    k = summarize depths ∧ k.count = depths.count k.max := by
  have hs : Fits True depths (summarize depths) := fits_summarize fun _ => hsmall
  have hmax := h.max_eq hs
  have hcount : k.count = (summarize depths).count := by
    rw [h.count_eq trivial, hs.count_eq trivial, hmax]
  refine ⟨?_, h.count_eq trivial⟩
  cases k
  cases hk : summarize depths
  rw [hk] at hmax hcount
  exact congrArg₂ DepthCache.mk hmax hcount

end DepthCache

/-! ## The invariant -/

variable {σ : Type}

namespace World

/-- A value without a backing, or a handle to a live backing. -/
def Valid (w : World σ) (v : Value σ) : Prop := ∀ a, v = .ref a → ∃ c, w.cell? a = some c

/-- The depths of the children, as the cache sees them. -/
def depths (w : World σ) (data : Data σ) : List Nat := data.children.map w.depth

end World

/-- The cache of a list or dict is right, and bounds it; what is neither is not looked at. -/
structure Summarized (exact : Prop) (D : Nat) (w : World σ) (c : Tracked σ) : Prop where
  fits : c.cache.Fits exact (w.depths c.data)
  depth_le : c.cache.max < D
  small : exact → c.data.children.length ≤ maxU32

/-- Every handle is to a live backing, and every cache is right. -/
structure Sound (exact : Prop) (D : Nat) (w : World σ) : Prop where
  places : ∀ v ∈ w.places, w.Valid v
  operand : w.Valid w.operand
  children : ∀ a c, w.cell? a = some c → ∀ v ∈ c.data.children, w.Valid v
  caches : ∀ a c, w.cell? a = some c → c.data.isContainer = true → Summarized exact D w c

section Frame

variable {exact : Prop} {D : Nat} {w w' : World σ}

theorem valid_null : w.Valid .null := nofun

theorem valid_scalar (s : σ) : w.Valid (.scalar s) := nofun

theorem valid_ref {a : Nat} {c : Tracked σ} (h : w.cell? a = some c) : w.Valid (.ref a) := by
  rintro b hb
  cases hb
  exact ⟨c, h⟩

/-- Everything that is live stays as it is. -/
def Extends (w w' : World σ) : Prop := ∀ a c, w.cell? a = some c → w'.cell? a = some c

theorem Extends.refl (w : World σ) : Extends w w := fun _ _ h => h

theorem Extends.trans {w'' : World σ} (h : Extends w w') (h' : Extends w' w'') : Extends w w'' :=
  fun a c hc => h' a c (h a c hc)

theorem Extends.valid (h : Extends w w') {v : Value σ} (hv : w.Valid v) : w'.Valid v := by
  intro a ha
  obtain ⟨c, hc⟩ := hv a ha
  exact ⟨c, h a c hc⟩

theorem Extends.depth (h : Extends w w') {v : Value σ} (hv : w.Valid v) : w'.depth v = w.depth v := by
  cases v with
  | null => rfl
  | scalar s => rfl
  | ref a =>
    obtain ⟨c, hc⟩ := hv a rfl
    simp only [World.depth, hc, h a c hc]

theorem Extends.depths (h : Extends w w') {data : Data σ} (hv : ∀ v ∈ data.children, w.Valid v) :
    w'.depths data = w.depths data :=
  List.map_congr_left fun v hm => h.depth (hv v hm)

theorem Extends.summarized (h : Extends w w') {c : Tracked σ}
    (hv : ∀ v ∈ c.data.children, w.Valid v) (hs : Summarized exact D w c) :
    Summarized exact D w' c :=
  ⟨h.depths hv ▸ hs.fits, hs.depth_le, hs.small⟩

/-- The depth of a value that is valid is within the bound. -/
theorem Sound.depth_le (h : Sound exact D w) (v : Value σ) : w.depth v ≤ D := by
  cases v with
  | null => exact Nat.zero_le _
  | scalar s => exact Nat.zero_le _
  | ref a =>
    unfold World.depth
    dsimp only
    split
    next c hc =>
      split
      next hk => exact Nat.le_trans (Nat.min_le_left _ _) (h.caches a c hc hk).depth_le
      next => exact Nat.zero_le _
    next => exact Nat.zero_le _

/-- Other places and another operand, and another ledger. -/
theorem Sound.reroot (h : Sound exact D w) (hcells : w'.cells = w.cells)
    (hplaces : ∀ v ∈ w'.places, w.Valid v) (hoperand : w.Valid w'.operand) : Sound exact D w' := by
  have hcell : w'.cell? = w.cell? := by
    funext a
    unfold World.cell?
    rw [hcells]
  have hext : Extends w w' := fun a c hc => by rw [hcell]; exact hc
  refine ⟨fun v hv => hext.valid (hplaces v hv), hext.valid hoperand, fun a c hc v hv => ?_,
    fun a c hc hk => ?_⟩
  · rw [hcell] at hc
    exact hext.valid (h.children a c hc v hv)
  · rw [hcell] at hc
    exact hext.summarized (h.children a c hc) (h.caches a c hc hk)

theorem Sound.ledger (h : Sound exact D w) (l : BudgetLedger) :
    Sound exact D { w with ledger := l } :=
  h.reroot rfl h.places h.operand

theorem Sound.handles (h : Sound exact D w) {v : Value σ} (hv : v ∈ w.handles) : w.Valid v := by
  rcases List.mem_append.mp hv with hv | hv
  · exact h.places v hv
  rcases List.mem_cons.mp hv with rfl | hv
  · exact h.operand
  obtain ⟨cell, hcell, hv⟩ := List.mem_flatMap.mp hv
  obtain ⟨a, ha⟩ := List.mem_iff_getElem?.mp hcell
  cases cell with
  | none => cases hv
  | some c => exact h.children a c (by rw [World.cell?, ha]; rfl) v hv

/-! ## Drops -/

theorem not_mem_of_strongCount {a : Nat} (h : w.strongCount a = 0) : .ref a ∉ w.handles := fun hm =>
  absurd h (Nat.ne_of_gt (World.strongCount_pos hm))

theorem cell?_free_self (a : Nat) (c : Tracked σ) : (w.free a c).cell? a = none := by
  show ((w.cells.set a none)[a]?).join = none
  rw [List.getElem?_set]
  split
  · split <;> rfl
  next hne => exact absurd rfl hne

theorem cell?_of_free {a b : Nat} {c d : Tracked σ} (h : (w.free a c).cell? b = some d) :
    w.cell? b = some d := by
  by_cases hne : b = a
  · subst hne
    rw [cell?_free_self] at h
    cases h
  · rwa [World.cell?_free hne] at h

theorem Sound.free (h : Sound exact D w) {a : Nat} {c : Tracked σ} (hcount : w.strongCount a = 0) :
    Sound exact D (w.free a c) := by
  have hvalid {v : Value σ} (hv : v ∈ w.handles) : (w.free a c).Valid v := by
    intro b hb
    subst hb
    have hne : b ≠ a := by
      rintro rfl
      exact not_mem_of_strongCount hcount hv
    obtain ⟨d, hd⟩ := h.handles hv b rfl
    exact ⟨d, by rw [World.cell?_free hne]; exact hd⟩
  have hdepth {v : Value σ} (hv : v ∈ w.handles) : (w.free a c).depth v = w.depth v := by
    cases v with
    | null => rfl
    | scalar s => rfl
    | ref b =>
      have hne : b ≠ a := by
        rintro rfl
        exact not_mem_of_strongCount hcount hv
      simp only [World.depth, World.cell?_free hne]
  refine ⟨fun v hv => hvalid (World.handles_places hv),
    hvalid (List.mem_append_right _ List.mem_cons_self),
    fun b d hd v hv => hvalid (World.handles_cell (cell?_of_free hd) hv), fun b d hd hk => ?_⟩
  have hs := h.caches b d (cell?_of_free hd) hk
  have hsame : (w.free a c).depths d.data = w.depths d.data :=
    List.map_congr_left fun v hv => hdepth (World.handles_cell (cell?_of_free hd) hv)
  exact ⟨hsame ▸ hs.fits, hs.depth_le, hs.small⟩

theorem Sound.dropAll (h : Sound exact D w) (values : List (Value σ)) :
    Sound exact D (w.dropAll values) :=
  World.dropAll_rule (fun _ _ _ h _ hcount => h.free hcount) values w h

/-- Nothing new is live after a drop. -/
theorem cell?_of_dropAll (values : List (Value σ)) {b : Nat} {d : Tracked σ}
    (h : (w.dropAll values).cell? b = some d) : w.cell? b = some d :=
  World.dropAll_rule (P := fun u => ∀ d, u.cell? b = some d → w.cell? b = some d)
    (fun _ _ _ h _ _ d hd => h d (cell?_of_free hd)) values w (fun _ h => h) d h

/-- The operand keeps its backing. -/
theorem depth_dropAll_operand (values : List (Value σ)) :
    (w.dropAll values).depth w.operand = w.depth w.operand := by
  cases hop : w.operand with
  | null => rfl
  | scalar s => rfl
  | ref b =>
    have hkept : (w.dropAll values).cell? b = w.cell? b := by
      refine (World.dropAll_rule (P := fun u => u.operand = .ref b ∧ u.cell? b = w.cell? b) ?_
        values w ⟨hop, rfl⟩).2
      rintro u a c ⟨hu, hcell⟩ - hcount
      have hne : b ≠ a := by
        rintro rfl
        exact not_mem_of_strongCount hcount (hu ▸ List.mem_append_right _ List.mem_cons_self)
      exact ⟨hu, (World.cell?_free hne).trans hcell⟩
    simp only [World.depth, hkept]

end Frame

/-! ## New backings -/

section Writes

variable {exact : Prop} {D : Nat} {w : World σ}

theorem max_lt {depths : List Nat} {k : DepthCache} (h : k.Fits exact depths)
    (hd : ∀ d ∈ depths, d < D) (hD : 0 < D) : k.max < D := by
  by_cases hne : depths = []
  · subst hne
    rw [(h.empty (Nat.le_zero.mp h.count_le)).2]
    exact hD
  · exact hd _ (h.max_mem hne)

/-- The children of a cell are less deep than it may be. -/
theorem Sound.child_lt (h : Sound exact D w) {a : Nat} {c : Tracked σ} (hc : w.cell? a = some c)
    (hk : c.data.isContainer = true) {v : Value σ} (hv : v ∈ c.data.children) : w.depth v < D := by
  have hs := h.caches a c hc hk
  exact Nat.lt_of_le_of_lt (hs.fits.bound _ (List.mem_map_of_mem hv)) hs.depth_le

/-- A new cell, of values that are valid. -/
theorem Sound.append (h : Sound exact D w) {c : Tracked σ} (l : BudgetLedger)
    (hvalid : ∀ v ∈ c.data.children, w.Valid v)
    (hs : c.data.isContainer = true → Summarized exact D w c) :
    let w' : World σ := { w with ledger := l, cells := w.cells ++ [some c] }
    Sound exact D w' ∧ Extends w w' ∧ w'.cell? w.cells.length = some c ∧
      ∀ a d, w'.cell? a = some d → ∀ v ∈ d.data.children, w.Valid v := by
  intro w'
  have hext : Extends w w' := fun a d hd => cell?_append hd
  have hnew : w'.cell? w.cells.length = some c := by
    show ((w.cells ++ [_])[w.cells.length]?).join = _
    rw [List.getElem?_concat_length]
    rfl
  have hcell : ∀ a d, w'.cell? a = some d → w.cell? a = some d ∨ d = c := by
    intro a d hd
    have hlt : a < w.cells.length + 1 := by
      have := World.cell?_lt hd
      rwa [show w'.cells.length = w.cells.length + 1 from List.length_append] at this
    rcases Nat.lt_succ_iff_lt_or_eq.mp hlt with hlt | rfl
    · left
      have : ((w.cells ++ [some c])[a]?).join = some d := hd
      rwa [List.getElem?_append_left hlt] at this
    · exact .inr (Option.some.inj (hd.symm.trans hnew))
  have hfrom : ∀ a d, w'.cell? a = some d → ∀ v ∈ d.data.children, w.Valid v := by
    intro a d hd v hv
    rcases hcell a d hd with hold | rfl
    · exact h.children a d hold v hv
    · exact hvalid v hv
  refine ⟨⟨fun v hv => hext.valid (h.places v hv), hext.valid h.operand,
    fun a d hd v hv => hext.valid (hfrom a d hd v hv), fun a d hd hk => ?_⟩, hext, hnew, hfrom⟩
  · rcases hcell a d hd with hold | rfl
    · exact hext.summarized (h.children a d hold) (h.caches a d hold hk)
    · exact hext.summarized hvalid (hs hk)

/-- The summary of values that are not too deep. -/
theorem summarized_copyOf {data : Data σ} (hD : 0 < D)
    (hdeep : data.isContainer = true → ∀ v ∈ data.children, w.depth v < D)
    (hsmall : exact → data.children.length ≤ maxU32) (hk : data.isContainer = true) :
    Summarized exact D w (w.copyOf data) := by
  have hfits : (w.copyOf data).cache.Fits exact (w.depths data) := by
    show (w.summary data).Fits exact _
    rw [World.summary, if_pos hk]
    exact DepthCache.fits_summarize fun he => by
      rw [World.depths, List.length_map]
      exact hsmall he
  refine ⟨hfits, max_lt hfits (fun d hd => ?_) hD, hsmall⟩
  obtain ⟨v, hv, rfl⟩ := List.mem_map.mp hd
  exact hdeep hk v hv

/-- Nobody but a place owns the backing. -/
structure Unshared (w : World σ) (a : Nat) : Prop where
  children : ∀ b c, w.cell? b = some c → .ref a ∉ c.data.children
  operand : w.operand ≠ .ref a

theorem unshared_of_strongCount {p a : Nat} (hp : w.places[p]? = some (.ref a))
    (hone : w.strongCount a = 1) : Unshared w a := by
  have hself : (Value.ref a : Value σ).isRef a = true := beq_self_eq_true a
  have hplace : 0 < w.places.countP (·.isRef a) :=
    List.countP_pos_iff.mpr ⟨_, List.mem_of_getElem? hp, hself⟩
  have hsum : w.places.countP (·.isRef a) +
      ((w.cells.flatMap World.owned).countP (·.isRef a) +
        if w.operand.isRef a = true then 1 else 0) = 1 := by
    rwa [World.strongCount, World.handles, List.countP_append, List.countP_cons] at hone
  have hcells : (w.cells.flatMap World.owned).countP (·.isRef a) = 0 := by omega
  refine ⟨fun b c hc hmem => ?_, fun heq => ?_⟩
  · have hcell : some c ∈ w.cells := List.mem_of_getElem? (Option.join_eq_some_iff.mp hc)
    exact absurd hself (List.countP_eq_zero.mp hcells _ (List.mem_flatMap.mpr ⟨_, hcell, hmem⟩))
  · rw [heq, if_pos hself] at hsum
    omega

/-! ## Writing a cell -/

/-- The depths of the other values are not changed by a write. -/
theorem depth_setCell {a : Nat} (c : Tracked σ) {v : Value σ} (hv : v ≠ .ref a) :
    (w.setCell a c).depth v = w.depth v := by
  cases v with
  | null => rfl
  | scalar s => rfl
  | ref b =>
    have hne : a ≠ b := fun heq => hv (heq ▸ rfl)
    have hcell : (w.setCell a c).cell? b = w.cell? b := by
      show ((w.cells.set a _)[b]?).join = _
      rw [List.getElem?_set_ne hne]
      rfl
    simp only [World.depth, hcell]

theorem cell?_setCell_cases {a b : Nat} {c d : Tracked σ}
    (h : (w.setCell a c).cell? b = some d) : (b = a ∧ d = c) ∨ w.cell? b = some d := by
  by_cases hne : b = a
  · subst hne
    have hlt : b < w.cells.length := by
      have := World.cell?_lt h
      rwa [show (w.setCell b c).cells.length = w.cells.length from List.length_set] at this
    rw [World.cell?_setCell hlt] at h
    exact .inl ⟨rfl, (Option.some.inj h).symm⟩
  · right
    have : ((w.cells.set a (some c))[b]?).join = some d := h
    rwa [List.getElem?_set_ne (Ne.symm hne)] at this

/-- A backing that nobody else owns is written. -/
theorem Sound.setCell (h : Sound exact D w) {a : Nat} {c d : Tracked σ} (hc : w.cell? a = some c)
    (hun : Unshared w a)
    (hchildren : ∀ v ∈ d.data.children, v ∈ c.data.children ∨ v = w.operand)
    (hs : d.data.isContainer = true → Summarized exact D w d) : Sound exact D (w.setCell a d) := by
  have hvalid {v : Value σ} (hv : w.Valid v) : (w.setCell a d).Valid v := by
    rintro b rfl
    by_cases hne : b = a
    · subst hne
      exact ⟨d, World.cell?_setCell (World.cell?_lt hc)⟩
    · obtain ⟨e, he⟩ := hv b rfl
      refine ⟨e, ?_⟩
      show ((w.cells.set a _)[b]?).join = _
      rw [List.getElem?_set_ne (Ne.symm hne)]
      exact he
  have hne : ∀ v ∈ d.data.children, v ≠ .ref a := by
    rintro v hv rfl
    rcases hchildren _ hv with hold | hop
    · exact hun.children a c hc hold
    · exact hun.operand hop.symm
  have hsame {e : Tracked σ} (he : ∀ v ∈ e.data.children, v ≠ .ref a) :
      (w.setCell a d).depths e.data = w.depths e.data :=
    List.map_congr_left fun v hv => depth_setCell d (he v hv)
  refine ⟨fun v hv => hvalid (h.places v hv), hvalid h.operand, fun b e he v hv => ?_,
    fun b e he hk => ?_⟩
  · rcases cell?_setCell_cases he with ⟨rfl, rfl⟩ | hold
    · rcases hchildren v hv with hv | rfl
      · exact hvalid (h.children _ _ hc v hv)
      · exact hvalid h.operand
    · exact hvalid (h.children b e hold v hv)
  · rcases cell?_setCell_cases he with ⟨rfl, rfl⟩ | hold
    · have hd := hs hk
      exact ⟨hsame hne ▸ hd.fits, hd.depth_le, hd.small⟩
    · have hd := h.caches b e hold hk
      have hkeep := hsame fun v hv heq => hun.children b e hold (heq ▸ hv)
      exact ⟨hkeep ▸ hd.fits, hd.depth_le, hd.small⟩

/-- Only the charge of a backing is noted. -/
theorem Sound.setBytes (h : Sound exact D w) {a : Nat} {c : Tracked σ} (hc : w.cell? a = some c)
    (bytes : Nat) : Sound exact D (w.setCell a { c with bytes }) := by
  have hself := World.cell?_setCell (c := { c with bytes }) (World.cell?_lt hc)
  have hvalid {v : Value σ} (hv : w.Valid v) : (w.setCell a { c with bytes }).Valid v := by
    rintro b rfl
    by_cases hne : b = a
    · subst hne
      exact ⟨_, hself⟩
    · obtain ⟨e, he⟩ := hv b rfl
      refine ⟨e, ?_⟩
      show ((w.cells.set a _)[b]?).join = _
      rw [List.getElem?_set_ne (Ne.symm hne)]
      exact he
  have hdepth : (w.setCell a { c with bytes }).depth = w.depth := by
    funext v
    by_cases hv : v = .ref a
    · subst hv
      simp only [World.depth, hself, hc]
      rfl
    · exact depth_setCell _ hv
  have hcell {b : Nat} {e : Tracked σ} (he : (w.setCell a { c with bytes }).cell? b = some e) :
      ∃ e', w.cell? b = some e' ∧ e'.data = e.data ∧ e'.cache = e.cache := by
    rcases cell?_setCell_cases he with ⟨rfl, rfl⟩ | hold
    · exact ⟨c, hc, rfl, rfl⟩
    · exact ⟨e, hold, rfl, rfl⟩
  refine ⟨fun v hv => hvalid (h.places v hv), hvalid h.operand, fun b e he v hv => ?_,
    fun b e he hk => ?_⟩
  · obtain ⟨e', he', hdata, -⟩ := hcell he
    exact hvalid (h.children b e' he' v (hdata ▸ hv))
  · obtain ⟨e', he', hdata, hcache⟩ := hcell he
    have hs := h.caches b e' he' (hdata ▸ hk)
    refine ⟨?_, hcache ▸ hs.depth_le, hdata ▸ hs.small⟩
    rw [World.depths, hdepth, ← hdata, ← hcache]
    exact hs.fits

/-! ## The operations on a container -/

theorem write_adds {t : Target} {v : Value σ} {data data' : Data σ}
    (h : data.write t v = some (data', none)) : data'.children.Perm (v :: data.children) := by
  unfold Data.write at h
  split at h
  next items =>
    cases h
    exact List.perm_append_singleton v items
  next items i => split at h <;> cases h
  next entries key =>
    simp only [Option.some.injEq, Prod.mk.injEq] at h
    obtain ⟨rfl, hnone⟩ := h
    exact (OrderedMap.perm_insertEntry (OrderedMap.get_eq_none_iff.mp hnone)).map (·.2)
  next => cases h

theorem isContainer_write {t : Target} {v : Value σ} {data data' : Data σ} {old : Option (Value σ)}
    (h : data.write t v = some (data', old)) : data'.isContainer = data.isContainer := by
  have := isContainer_after t v data
  rwa [Data.after, h] at this

/-- The cache after a write. -/
theorem summarized_write {a : Nat} {c : Tracked σ} {t : Target} {data : Data σ}
    {old : Option (Value σ)} (h : Sound exact D w) (hc : w.cell? a = some c)
    (hk : c.data.isContainer = true) (hwrite : c.data.write t w.operand = some (data, old))
    (hdeep : w.depth w.operand < D) (hsmall : exact → c.data.children.length < maxU32) :
    Summarized exact D w { c with data, cache := w.cacheAfter t old data c.cache } ∧
      ∀ v ∈ data.children, v ∈ c.data.children ∨ v = w.operand := by
  have hs := h.caches a c hc hk
  have hpos : 0 < D := Nat.zero_lt_of_lt hdeep
  have hsettle {k : DepthCache} (hfits : k.Fits exact (w.depths data))
      (hle : exact → (w.depths data).length ≤ maxU32) :
      (if t = .listEnd then k else k.settle (data.children.map w.depth)).Fits exact (w.depths data) := by
    split
    · exact hfits
    · exact DepthCache.fits_settle hfits.toLoose hle
  suffices hgoal : (w.cacheAfter t old data c.cache).Fits exact (w.depths data) ∧
      (∀ v ∈ data.children, v ∈ c.data.children ∨ v = w.operand) ∧
      (exact → data.children.length ≤ maxU32) by
    obtain ⟨hfits, hfrom, hle⟩ := hgoal
    refine ⟨⟨hfits, max_lt hfits (fun d hd => ?_) hpos, hle⟩, hfrom⟩
    obtain ⟨v, hv, rfl⟩ := List.mem_map.mp hd
    rcases hfrom v hv with hv | rfl
    · exact h.child_lt hc hk hv
    · exact hdeep
  cases old with
  | none =>
    have hperm := write_adds hwrite
    have hle : exact → data.children.length ≤ maxU32 := fun he => by
      rw [hperm.length_eq]
      exact hsmall he
    have hfits : (c.cache.added (w.depth w.operand)).Fits exact (w.depths data) :=
      DepthCache.fits_perm (DepthCache.fits_added hs.fits fun he => by
        rw [World.depths, List.length_map]
        exact hsmall he) (hperm.map w.depth).symm
    refine ⟨hsettle hfits fun he => by rw [World.depths, List.length_map]; exact hle he,
      fun v hv => ?_, hle⟩
    rcases List.mem_cons.mp (hperm.mem_iff.mp hv) with rfl | hv
    · exact .inr rfl
    · exact .inl hv
  | some old =>
    obtain ⟨l₁, l₂, hbefore, hafter, -⟩ := write_replaces hwrite
    have hnot : t ≠ .listEnd := by
      rintro rfl
      revert hwrite
      cases c.data <;> simp [Data.write]
    have hlen : data.children.length = c.data.children.length := by
      rw [hbefore, hafter, List.length_append, List.length_append, List.length_cons, List.length_cons]
    have hle : exact → data.children.length ≤ maxU32 := fun he => hlen ▸ Nat.le_of_lt (hsmall he)
    have hold : (w.depths c.data).Perm (w.depth old :: (l₁ ++ l₂).map w.depth) := by
      rw [World.depths, hbefore]
      exact (@List.perm_middle _ _ l₁ l₂).map w.depth
    have hnew : (w.depths data).Perm (w.depth w.operand :: (l₁ ++ l₂).map w.depth) := by
      rw [World.depths, hafter]
      exact (@List.perm_middle _ _ l₁ l₂).map w.depth
    have hloose := DepthCache.loose_removed (DepthCache.loose_perm hs.fits.toLoose hold)
    have hloose := DepthCache.loose_perm (DepthCache.loose_added (d := w.depth w.operand) hloose
      fun he => by
        have hlt := hsmall he
        rw [hbefore, List.length_append, List.length_cons] at hlt
        rw [List.length_map, List.length_append]
        omega) hnew.symm
    refine ⟨?_, fun v hv => ?_, hle⟩
    · show (if t = .listEnd then _ else _ : DepthCache).Fits exact _
      rw [if_neg hnot]
      exact DepthCache.fits_settle hloose fun he => by
        rw [World.depths, List.length_map]
        exact hle he
    · rw [hafter] at hv
      rw [hbefore]
      rcases List.mem_append.mp hv with hv | hv
      · exact .inl (List.mem_append_left _ hv)
      rcases List.mem_cons.mp hv with rfl | hv
      · exact .inr rfl
      · exact .inl (List.mem_append_right _ (List.mem_cons_of_mem _ hv))

theorem Sound.overwrite (h : Sound exact D w) {a : Nat} {c : Tracked σ} (t : Target)
    (hc : w.cell? a = some c) (hun : Unshared w a) (hk : c.data.isContainer = true)
    (hdeep : w.depth w.operand < D) (hsmall : exact → c.data.children.length < maxU32) :
    Sound exact D (w.overwrite a c t) := by
  unfold World.overwrite
  cases hwrite : c.data.write t w.operand with
  | none => exact h
  | some e =>
    obtain ⟨data, old⟩ := e
    obtain ⟨hs, hfrom⟩ := summarized_write h hc hk hwrite hdeep hsmall
    have hset := h.setCell hc hun hfrom fun _ => hs
    refine Sound.dropAll ?_ _
    exact hset.reroot rfl hset.places valid_null

/-- What holds after an operation: it ends in `Q`, or it is refused in a sound memory. -/
def Keeps {α : Type} (exact : Prop) (D : Nat) (m : Mutation σ α) (w : World σ)
    (Q : α → World σ → Prop) : Prop :=
  match m.run w with
  | (.ok a, w') => Q a w'
  | (.error _, w') => Sound exact D w'

section Rules

variable {α β : Type} {m : Mutation σ α} {k : α → Mutation σ β} {Q : α → World σ → Prop}
  {R : β → World σ → Prop}

theorem Keeps.bind (hm : Keeps exact D m w Q) (hk : ∀ a w', Q a w' → Keeps exact D (k a) w' R) :
    Keeps exact D (m >>= k) w R := by
  unfold Keeps at hm ⊢
  rcases hrun : m.run w with ⟨e | a, w'⟩ <;> rw [hrun] at hm
  · rw [Proc.bind_run_error hrun]
    exact hm
  · rw [Proc.bind_run_ok hrun]
    exact hk a w' hm

theorem Keeps.mono {Q' : α → World σ → Prop} (hm : Keeps exact D m w Q)
    (hQ : ∀ a w', Q a w' → Q' a w') : Keeps exact D m w Q' := by
  unfold Keeps at hm ⊢
  rcases hrun : m.run w with ⟨e | a, w'⟩ <;> rw [hrun] at hm
  · exact hm
  · exact hQ a w' hm

theorem keeps_pure {a : α} (h : Q a w) : Keeps exact D (pure a) w Q := h

theorem keeps_read {k : World σ → Mutation σ β} (h : Keeps exact D (k w) w R) :
    Keeps exact D (Proc.gets id >>= k) w R := h

theorem keeps_gets {γ : Type} {g : World σ → γ} {k : γ → Mutation σ β}
    (h : Keeps exact D (k (g w)) w R) : Keeps exact D (Proc.gets g >>= k) w R := h

theorem keeps_modify {f : World σ → World σ} {Q : Unit → World σ → Prop} (h : Q () (f w)) :
    Keeps exact D (Proc.modify f) w Q := h

theorem keeps_stop {e : Refusal} (h : Sound exact D w) : Keeps exact D (Proc.stop e) w Q := h

/-- A charge changes the ledger only. -/
theorem keeps_onLedger {m : Charge α} (h : Sound exact D w) :
    Keeps exact D (onLedger m) w fun _ w' => ∃ l, w' = { w with ledger := l } := by
  unfold Keeps onLedger
  dsimp only
  rcases hrun : m.run w.ledger with ⟨s | a, l⟩
  · exact h.ledger l
  · exact ⟨l, rfl⟩

theorem Keeps.sound (h : Keeps exact D m w fun _ w' => Sound exact D w') :
    Sound exact D (m.run w).2 := by
  unfold Keeps at h
  rcases hrun : m.run w with ⟨e | a, w'⟩ <;> rw [hrun] at h <;> exact h

end Rules

/-- `Tracked::new`: the memory grows by one cell. -/
structure Grown (data : Data σ) (w : World σ) (a : Nat) (w' : World σ) : Prop where
  ext : Extends w w'
  cell : w'.cell? a = some (w.copyOf data)
  places : w'.places = w.places
  operand : w'.operand = w.operand

theorem keeps_newTracked (h : Sound exact D w) (data : Data σ) (phase : ExecutionPhase)
    (hD : 0 < D) (hvalid : ∀ v ∈ data.children, w.Valid v)
    (hdeep : data.isContainer = true → ∀ v ∈ data.children, w.depth v < D)
    (hsmall : exact → data.children.length ≤ maxU32) :
    Keeps exact D (newTracked data phase) w fun a w' => Sound exact D w' ∧ Grown data w a w' := by
  unfold Keeps
  rcases hrun : (Charge.newTracked data.logicalBytes phase).run w.ledger with ⟨s | ⟨⟩, l⟩
  · rw [newTracked_error hrun]
    exact h.ledger l
  · rw [newTracked_ok hrun]
    obtain ⟨hs, hext, hcell, -⟩ := h.append (c := w.copyOf data) l hvalid
      (summarized_copyOf hD hdeep hsmall)
    exact ⟨hs, hext, hcell, rfl, rfl⟩

/-- After `detach` the place holds a backing of its own with the same data. -/
theorem keeps_detach (h : Sound exact D w) {p a : Nat} {c : Tracked σ} (phase : ExecutionPhase)
    (hat : w.containerAt p = some (a, c)) :
    Keeps exact D (detach p a c phase) w fun b w' => Sound exact D w' ∧ Unshared w' b ∧
      w'.operand = w.operand ∧ w'.depth w.operand = w.depth w.operand ∧
      .ref b ∈ w'.places ∧ ∃ d, w'.cell? b = some d ∧ d.data = c.data := by
  obtain ⟨hp, hc, hk⟩ := World.containerAt_eq_some.mp hat
  by_cases hone : c.id ≠ 0 ∧ w.strongCount a = 1
  · have hrun : (detach p a c phase).run w = (.ok a, w) := by
      simp only [detach, Proc.bind_run, Proc.gets_run, id_eq]
      rw [if_pos hone]
      rfl
    unfold Keeps
    rw [hrun]
    exact ⟨h, unshared_of_strongCount hp hone.2, rfl, rfl, List.mem_of_getElem? hp, c, hc, rfl⟩
  · have hs := h.caches a c hc hk
    rcases hrun : (Charge.newTracked c.data.logicalBytes phase).run w.ledger with ⟨s | ⟨⟩, l⟩
    · have hrefused : ¬ Granted (Charge.newTracked c.data.logicalBytes phase) w.ledger := by
        rw [Granted, hrun]
        intro hok
        cases hok
      obtain ⟨s', hdetach⟩ := detach_refused (p := p) hone hrefused
      unfold Keeps
      rw [hdetach]
      exact h.ledger _
    · unfold Keeps
      rw [detach_run hone hrun]
      obtain ⟨hgrown, hext, hcell, hfrom⟩ := h.append (c := w.copyOf c.data) l
        (fun v hv => h.children a c hc v hv)
        (summarized_copyOf (Nat.zero_lt_of_lt hs.depth_le) (fun _ v hv => h.child_lt hc hk hv)
          hs.small)
      have hplaces : ∀ v ∈ w.places.set p (.ref w.cells.length),
          World.Valid { w with ledger := l, cells := w.cells ++ [some (w.copyOf c.data)] } v := by
        intro v hv
        rcases List.mem_or_eq_of_mem_set hv with hv | rfl
        · exact hgrown.places v hv
        · exact valid_ref hcell
      have hcopied : Sound exact D (w.copied p c.data l) :=
        hgrown.reroot rfl hplaces hgrown.operand
      have hmem : .ref w.cells.length ∈ (w.copied p c.data l).places :=
        List.mem_of_getElem? (List.getElem?_set_self (List.getElem?_eq_some_iff.mp hp).1)
      have hcopycell : (w.copied p c.data l).cell? w.cells.length = some (w.copyOf c.data) := hcell
      have hnew : ¬ w.Valid (.ref w.cells.length) := by
        intro hv
        obtain ⟨d, hd⟩ := hv _ rfl
        exact absurd (World.cell?_lt hd) (Nat.lt_irrefl _)
      have hdepth : ((w.copied p c.data l).dropAll [.ref a]).depth w.operand = w.depth w.operand :=
        (depth_dropAll_operand (w := w.copied p c.data l) _).trans (hext.depth h.operand)
      refine ⟨hcopied.dropAll _, ⟨fun b d hd hchild => ?_, ?_⟩,
        (World.dropAll_places _ _).2, hdepth, ?_, w.copyOf c.data, ?_, rfl⟩
      · have hlive : (w.copied p c.data l).cell? b = some d := cell?_of_dropAll _ hd
        exact hnew (hfrom b d hlive _ hchild)
      · rw [(World.dropAll_places _ _).2]
        exact fun heq => hnew (heq ▸ h.operand)
      · rw [(World.dropAll_places _ _).1]
        exact hmem
      · rw [World.dropAll_cell _ hmem]
        exact hcopycell

end Writes

end Tsumugi.Backing
