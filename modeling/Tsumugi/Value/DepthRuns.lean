import Tsumugi.Value.DepthCache

/-!
# The depth of every value of a run

Each operation keeps the memory sound, as long as the host returns nothing deeper than `D`.
The count of a cache is exact as long as no list or dict has more than `u32::MAX` elements.

Results:
1. `keeps_mutation`: what one operation does to a sound memory.
2. `nests_iff_depth_le`: the cached depth is the nesting of the value.
3. `depth_cache_exact`: the caches and the depths of every run.
-/

namespace Tsumugi.Backing

open Budget

variable {σ : Type} {exact : Prop} {D : Nat} {w : World σ}

/-! ## Writes -/

theorem keeps_retrack (h : Sound exact D w) (a oldBytes : Nat) (phase : ExecutionPhase) :
    Keeps exact D (retrack a oldBytes phase) w fun _ w' => Sound exact D w' := by
  refine keeps_read ?_
  rcases hc : w.cell? a with _ | c
  · exact keeps_pure h
  · refine (keeps_onLedger h).bind fun _ w' hw' => ?_
    obtain ⟨l, rfl⟩ := hw'
    exact keeps_modify ((h.ledger l).setBytes hc _)

theorem keeps_writeDetached (h : Sound exact D w) {a : Nat} {c : Tracked σ} (t : Target)
    (phase : ExecutionPhase) (hc : w.cell? a = some c) (hun : Unshared w a)
    (hk : c.data.isContainer = true) (hdeep : w.depth w.operand < D)
    (hsmall : exact → c.data.children.length < maxU32) :
    Keeps exact D (writeDetached a t phase) w fun _ w' => Sound exact D w' := by
  refine keeps_read ?_
  simp only [hc]
  exact (keeps_modify (Q := fun _ w' => Sound exact D w')
    (h.overwrite t hc hun hk hdeep hsmall)).bind fun _ w' hw' => keeps_retrack hw' _ _ _

/-- `Small` for the operations that add one element to a container. -/
def World.RoomAt (w : World σ) (p : Nat) : Prop :=
  ∀ a c, w.containerAt p = some (a, c) → c.data.children.length < maxU32

theorem keeps_writeTracked (h : Sound exact D w) (p : Nat) (t : Target) (phase : ExecutionPhase)
    (hdeep : w.depth w.operand < D) (hsmall : exact → w.RoomAt p) :
    Keeps exact D (writeTracked p t phase) w fun _ w' => Sound exact D w' := by
  refine keeps_read ?_
  rcases hat : w.containerAt p with _ | ⟨a, c⟩
  · exact keeps_pure h
  · obtain ⟨-, -, hk⟩ := World.containerAt_eq_some.mp hat
    show Keeps exact D (Proc.when _ _) w _
    unfold Proc.when
    split
    · refine (keeps_detach h phase hat).bind fun b w' hw' => ?_
      obtain ⟨hs, hun, hop, hdepth, -, d, hd, hdata⟩ := hw'
      refine keeps_writeDetached hs t phase hd hun (hdata ▸ hk) ?_ fun he => ?_
      · rw [hop, hdepth]
        exact hdeep
      · rw [hdata]
        exact hsmall he a c hat
    · exact keeps_pure h

theorem keeps_checkElementDepth (h : Sound exact D w) (hD : maxValueDepth ≤ D) (v : Value σ) :
    Keeps exact D (checkElementDepth v) w fun _ w' => w' = w ∧ w.depth v < D := by
  refine keeps_read ?_
  show Keeps exact D (Proc.when _ _) w _
  unfold Proc.when
  split
  · exact keeps_stop h
  next hlt => exact keeps_pure ⟨rfl, Nat.lt_of_lt_of_le (Nat.not_le.mp hlt) hD⟩

theorem keeps_assignIndex (h : Sound exact D w) (hD : maxValueDepth ≤ D) (p : Nat) (index : Index)
    (maxCollection : Nat) (hsmall : exact → w.RoomAt p) :
    Keeps exact D (assignIndex p index maxCollection) w fun _ w' => Sound exact D w' := by
  refine keeps_read ?_
  rcases w.containerAt p with _ | ⟨a, c⟩
  · exact keeps_stop h
  · dsimp only
    cases indexTarget c.data index maxCollection with
    | error e => exact keeps_stop h
    | ok t =>
      refine (keeps_checkElementDepth h hD w.operand).bind fun _ w' hw' => ?_
      obtain ⟨rfl, hdeep⟩ := hw'
      exact keeps_writeTracked h p t .run hdeep hsmall

theorem keeps_push (h : Sound exact D w) (hD : maxValueDepth ≤ D) (p : Nat)
    (hsmall : exact → w.RoomAt p) :
    Keeps exact D (push p) w fun _ w' => Sound exact D w' := by
  refine keeps_read ?_
  split
  next items _ _ _ _ =>
    refine (keeps_onLedger h).bind fun _ w' hw' => ?_
    obtain ⟨l, rfl⟩ := hw'
    refine (keeps_checkElementDepth (h.ledger l) hD w.operand).bind fun _ w' hw' => ?_
    obtain ⟨rfl, hdeep⟩ := hw'
    refine keeps_writeTracked (h.ledger l) p .listEnd .run hdeep fun he a c hat => ?_
    exact hsmall he a c hat
  next => exact keeps_stop h

/-- The cache after the last element is gone. -/
theorem summarized_dropLast {a : Nat} {c : Tracked σ} (h : Sound exact D w)
    (hc : w.cell? a = some c) (hk : c.data.isContainer = true) {last : Value σ}
    (hlast : c.data.children.getLast? = some last) :
    Summarized exact D w { c with
      data := .list c.data.children.dropLast
      cache := (c.cache.removed (w.depth last)).settle
        (c.data.children.dropLast.map w.depth) } := by
  have hs := h.caches a c hc hk
  obtain ⟨init, hinit⟩ : ∃ init, c.data.children = init ++ [last] :=
    List.getLast?_eq_some_iff.mp hlast
  have hle : exact → init.length ≤ maxU32 := fun he => by
    have := hs.small he
    rw [hinit, List.length_append] at this
    omega
  have hloose : DepthCache.Loose exact (init.map w.depth) (c.cache.removed (w.depth last)) := by
    refine DepthCache.loose_removed (DepthCache.loose_perm hs.fits.toLoose ?_)
    rw [World.depths, hinit, List.map_append]
    exact List.perm_append_singleton (w.depth last) (init.map w.depth)
  have hfits := DepthCache.fits_settle hloose fun he => by
    rw [List.length_map]
    exact hle he
  rw [hinit, List.dropLast_concat]
  refine ⟨hfits, max_lt hfits (fun d hd => ?_) (Nat.zero_lt_of_lt hs.depth_le), hle⟩
  obtain ⟨v, hv, rfl⟩ := List.mem_map.mp hd
  exact h.child_lt hc hk (hinit ▸ List.mem_append_left _ hv)

theorem keeps_listPopTracked (h : Sound exact D w) (p : Nat) (phase : ExecutionPhase) :
    Keeps exact D (listPopTracked p phase) w fun _ w' => Sound exact D w' := by
  refine keeps_read ?_
  split
  next a item items id bytes cache hat =>
    refine (keeps_detach h phase hat).bind fun b w' hw' => ?_
    obtain ⟨hs, hun, -, -, -, d, hd, hdata⟩ := hw'
    have hk : d.data.isContainer = true := by
      rw [hdata]
      rfl
    have hlast : d.data.children.getLast? = some ((item :: items).getLast (List.cons_ne_nil _ _)) := by
      rw [hdata]
      exact List.getLast?_eq_some_getLast (List.cons_ne_nil _ _)
    refine keeps_gets ?_
    simp only [hd]
    refine Keeps.bind (Q := fun _ w'' => Sound exact D w'') (keeps_modify ?_) fun _ w'' hw'' =>
      keeps_retrack hw'' _ _ _
    simp only [hlast]
    refine Sound.dropAll (hs.setCell hd hun (fun v hv => .inl ?_) fun _ => ?_) _
    · exact List.dropLast_subset _ hv
    · exact summarized_dropLast hs hd hk hlast
  next => exact keeps_pure h

/-! ## New values -/

theorem Sound.setOperand (h : Sound exact D w) {v : Value σ} (hv : w.Valid v) :
    Sound exact D (w.setOperand v) :=
  have hset : Sound exact D { w with operand := v } := h.reroot rfl h.places hv
  hset.dropAll _

theorem keeps_holding {α : Type} {m : Mutation σ α} {Q : α → World σ → Prop}
    (values : List (Value σ)) (h : Keeps exact D m w Q) : Keeps exact D (holding values m) w Q := by
  unfold Keeps at h ⊢
  unfold holding
  dsimp only
  rcases hrun : m.run w with ⟨e | a, w'⟩ <;> rw [hrun] at h
  · exact h.dropAll values
  · exact h

theorem Sound.placeValue (h : Sound exact D w) (p : Nat) : w.Valid (w.placeValue p) := by
  unfold World.placeValue
  cases hp : w.places[p]? with
  | none => exact valid_null
  | some v => exact h.places v (List.mem_of_getElem? hp)

theorem Sound.elementAt (h : Sound exact D w) (p i : Nat) : w.Valid (w.elementAt p i) := by
  unfold World.elementAt
  split
  next a c hat =>
    obtain ⟨-, hc, -⟩ := World.containerAt_eq_some.mp hat
    cases hi : c.data.children[i]? with
    | none => exact valid_null
    | some v => exact h.children a c hc v (List.mem_of_getElem? hi)
  next => exact valid_null

theorem Sound.lastPlaces (h : Sound exact D w) {n : Nat} : ∀ v ∈ w.lastPlaces n, w.Valid v :=
  fun v hv => h.places v (List.mem_of_mem_drop hv)

theorem Sound.dropPlaces (h : Sound exact D w) (n : Nat) : Sound exact D (w.dropPlaces n) :=
  h.reroot rfl (fun v hv => h.places v (List.mem_of_mem_take hv)) h.operand

theorem keeps_checkElementsDepth (h : Sound exact D w) (hD : maxValueDepth ≤ D)
    (values : List (Value σ)) : Keeps exact D (checkElementsDepth values) w
      fun _ w' => w' = w ∧ ∀ v ∈ values, w.depth v < D := by
  induction values with
  | nil => exact keeps_pure ⟨rfl, nofun⟩
  | cons v rest ih =>
    refine (keeps_checkElementDepth h hD v).bind fun _ w' hw' => ?_
    obtain ⟨rfl, hv⟩ := hw'
    exact ih.mono fun _ w' hw' => ⟨hw'.1, List.forall_mem_cons.mpr ⟨hv, hw'.2⟩⟩

/-- The values of a dict are the values it was made of. -/
theorem dictOf_entries (l : List (String × Value σ)) :
    (∀ e ∈ (dictOf l).entries, e ∈ l) ∧ (dictOf l).entries.length ≤ l.length := by
  induction l with
  | nil => exact ⟨nofun, Nat.le_refl _⟩
  | cons e rest ih =>
    refine ⟨fun x hx => ?_, ?_⟩
    · rcases OrderedMap.mem_insertEntry hx with rfl | hx
      · exact List.mem_cons_self
      · exact List.mem_cons_of_mem _ (ih.1 x hx)
    · exact Nat.le_trans (OrderedMap.length_insertEntry_le _ _ _) (Nat.succ_le_succ ih.2)

theorem dictOf_children {l : List (String × Value σ)} :
    (∀ v ∈ (Data.dict (dictOf l.reverse)).children, v ∈ l.map (·.2)) ∧
      (Data.dict (dictOf l.reverse)).children.length ≤ l.length := by
  obtain ⟨hmem, hlen⟩ := dictOf_entries l.reverse
  refine ⟨fun v hv => ?_, ?_⟩
  · obtain ⟨e, he, rfl⟩ := List.mem_map.mp hv
    exact List.mem_map_of_mem (List.mem_reverse.mp (hmem e he))
  · rw [List.length_reverse] at hlen
    show ((dictOf l.reverse).entries.map _).length ≤ _
    rwa [List.length_map]

/-! ## What the host returns -/

mutual

/-- The nesting of a returned value, when the values of the places have these depths. -/
def Untracked.depth (f : Nat → Nat) : Untracked σ → Nat
  | .null | .scalar _ | .str _ => 0
  | .place p => f p
  | .list items => depthItems f items + 1
  | .dict entries => depthEntries f entries + 1

def Untracked.depthItems (f : Nat → Nat) : List (Untracked σ) → Nat
  | [] => 0
  | t :: rest => Nat.max (t.depth f) (depthItems f rest)

def Untracked.depthEntries (f : Nat → Nat) : List (String × Untracked σ) → Nat
  | [] => 0
  | (_, t) :: rest => Nat.max (t.depth f) (depthEntries f rest)

end

mutual

/-- No list or dict of it has more than `u32::MAX` elements. -/
def Untracked.Small : Untracked σ → Prop
  | .null | .scalar _ | .str _ | .place _ => True
  | .list items => items.length ≤ maxU32 ∧ SmallItems items
  | .dict entries => entries.length ≤ maxU32 ∧ SmallEntries entries

def Untracked.SmallItems : List (Untracked σ) → Prop
  | [] => True
  | t :: rest => t.Small ∧ SmallItems rest

def Untracked.SmallEntries : List (String × Untracked σ) → Prop
  | [] => True
  | (_, t) :: rest => t.Small ∧ SmallEntries rest

end

/-- The memory after `track_result`: only backings are added. -/
structure Returned (exact : Prop) (D : Nat) (w w' : World σ) : Prop where
  sound : Sound exact D w'
  ext : Extends w w'
  places : w'.places = w.places

/-- A tracked value is not deeper than `n`. -/
structure Within (w : World σ) (n : Nat) (v : Value σ) : Prop where
  valid : w.Valid v
  depth_le : w.depth v ≤ n

theorem Within.ext {w' : World σ} {n : Nat} {v : Value σ} (h : Within w n v) (hext : Extends w w') :
    Within w' n v :=
  ⟨hext.valid h.valid, (hext.depth h.valid).symm ▸ h.depth_le⟩

theorem Within.mono {n n' : Nat} {v : Value σ} (h : Within w n v) (hn : n ≤ n') : Within w n' v :=
  ⟨h.valid, Nat.le_trans h.depth_le hn⟩

theorem Returned.refl (h : Sound exact D w) : Returned exact D w w := ⟨h, .refl w, rfl⟩

theorem Returned.trans {w' w'' : World σ} (h : Returned exact D w w')
    (h' : Returned exact D w' w'') : Returned exact D w w'' :=
  ⟨h'.sound, h.ext.trans h'.ext, h'.places.trans h.places⟩

/-- The values of the places keep their depths. -/
theorem Returned.placeDepth {w' : World σ} (hs : Sound exact D w) (h : Returned exact D w w')
    (p : Nat) : w'.depth (w'.placeValue p) = w.depth (w.placeValue p) := by
  have hvalue : w'.placeValue p = w.placeValue p := by
    unfold World.placeValue
    rw [h.places]
  rw [hvalue]
  exact h.ext.depth (hs.placeValue p)

/-- A new backing of values that are less deep. -/
theorem keeps_backing (h : Sound exact D w) (data : Data σ) {n : Nat} (phase : ExecutionPhase)
    (hn : n < D) (hin : ∀ v ∈ data.children, Within w n v)
    (hsmall : exact → data.children.length ≤ maxU32) :
    Keeps exact D (newTracked data phase) w fun a w' =>
      Returned exact D w w' ∧ Within w' (n + 1) (.ref a) := by
  refine (keeps_newTracked h data phase (Nat.zero_lt_of_lt hn) (fun v hv => (hin v hv).valid)
    (fun _ v hv => Nat.lt_of_le_of_lt (hin v hv).depth_le hn) hsmall).mono fun a w' hw' => ?_
  obtain ⟨hs, hg⟩ := hw'
  refine ⟨⟨hs, hg.ext, hg.places⟩, valid_ref hg.cell, ?_⟩
  simp only [World.depth, hg.cell]
  split
  next hk =>
    refine Nat.le_trans (Nat.min_le_left _ _) ?_
    exact (summarized_copyOf (D := n + 1) (Nat.succ_pos n)
      (fun _ v hv => Nat.lt_succ_of_le (hin v hv).depth_le) hsmall hk).depth_le
  next => exact Nat.zero_le _

mutual

/-- `track_result`: the tracked value is as deep as what was returned. -/
theorem keeps_trackResult (phase : ExecutionPhase) (f : Nat → Nat) (hD : 0 < D) :
    ∀ (t : Untracked σ) {w : World σ}, Sound exact D w → (∀ p, w.depth (w.placeValue p) = f p) →
      t.depth f ≤ D → (exact → t.Small) →
      Keeps exact D (trackResult phase t) w fun v w' =>
        Returned exact D w w' ∧ Within w' (t.depth f) v
  | .null, _, h, _, _, _ => by
    rw [trackResult]
    exact keeps_pure ⟨.refl h, valid_null, Nat.zero_le _⟩
  | .scalar s, _, h, _, _, _ => by
    rw [trackResult]
    exact keeps_pure ⟨.refl h, valid_scalar s, Nat.zero_le _⟩
  | .place p, w, h, hf, _, _ => by
    rw [trackResult]
    have hin : Within w (f p) (w.placeValue p) := ⟨h.placeValue p, Nat.le_of_eq (hf p)⟩
    rw [Untracked.depth]
    exact ⟨Returned.refl h, hin⟩
  | .str byteLen, w, h, _, hdeep, _ => by
    rw [trackResult]
    refine (keeps_onLedger h).bind fun _ w₁ hw₁ => ?_
    obtain ⟨l, rfl⟩ := hw₁
    refine (keeps_newTracked (h.ledger l) _ phase hD (fun _ hv => by cases hv)
      (fun hk => by cases hk) fun _ => Nat.zero_le _).bind
      fun a w₂ hw₂ => ?_
    obtain ⟨hs, hg⟩ := hw₂
    refine keeps_pure ⟨⟨hs, fun b c hc => hg.ext b c hc, hg.places⟩, valid_ref hg.cell, ?_⟩
    simp only [World.depth, hg.cell]
    exact Nat.zero_le _
  | .list items, w, h, hf, hdeep, hsmall => by
    rw [trackResult]
    have hlt : Untracked.depthItems f items < D := by
      rwa [Untracked.depth] at hdeep
    refine (keeps_trackItems phase f hD items h hf (Nat.le_of_lt hlt) fun he => ?_).bind
      fun values w₁ hw₁ => ?_
    · have := hsmall he
      rw [Untracked.Small] at this
      exact this.2
    obtain ⟨hret, hin, hlen⟩ := hw₁
    refine (keeps_holding values (keeps_backing hret.sound (.list values) phase hlt hin
      fun he => ?_)).bind
      fun a w₂ hw₂ => ?_
    · have := hsmall he
      rw [Untracked.Small] at this
      show values.length ≤ maxU32
      rw [hlen]
      exact this.1
    · refine keeps_pure ⟨hret.trans hw₂.1, ?_⟩
      rw [Untracked.depth]
      exact hw₂.2
  | .dict entries, w, h, hf, hdeep, hsmall => by
    rw [trackResult]
    have hlt : Untracked.depthEntries f entries < D := by
      rwa [Untracked.depth] at hdeep
    refine (keeps_trackEntries phase f hD entries h hf (Nat.le_of_lt hlt) fun he => ?_).bind
      fun values w₁ hw₁ => ?_
    · have := hsmall he
      rw [Untracked.Small] at this
      exact this.2
    obtain ⟨hret, hin, hlen⟩ := hw₁
    obtain ⟨hmem, hle⟩ := dictOf_children (l := values)
    refine (keeps_holding (values.map (·.2)) (keeps_backing hret.sound _ phase hlt
      (fun v hv => ?_) fun he => ?_)).bind fun a w₂ hw₂ => ?_
    · obtain ⟨e, he, rfl⟩ := List.mem_map.mp (hmem v hv)
      exact hin e he
    · have := hsmall he
      rw [Untracked.Small] at this
      exact Nat.le_trans hle (hlen ▸ this.1)
    · refine keeps_pure ⟨hret.trans hw₂.1, ?_⟩
      rw [Untracked.depth]
      exact hw₂.2

theorem keeps_trackItems (phase : ExecutionPhase) (f : Nat → Nat) (hD : 0 < D) :
    ∀ (items : List (Untracked σ)) {w : World σ}, Sound exact D w →
      (∀ p, w.depth (w.placeValue p) = f p) →
      Untracked.depthItems f items ≤ D → (exact → Untracked.SmallItems items) →
      Keeps exact D (trackItems phase items) w fun values w' =>
        Returned exact D w w' ∧ (∀ v ∈ values, Within w' (Untracked.depthItems f items) v) ∧
          values.length = items.length
  | [], _, h, _, _, _ => keeps_pure ⟨.refl h, nofun, rfl⟩
  | t :: rest, w, h, hf, hdeep, hsmall => by
    rw [Untracked.depthItems] at hdeep
    refine (keeps_trackResult phase f hD t h hf (Nat.le_trans (Nat.le_max_left _ _) hdeep)
      fun he => ?_).bind fun v w₁ hw₁ => ?_
    · have := hsmall he
      rw [Untracked.SmallItems] at this
      exact this.1
    obtain ⟨hret, hin⟩ := hw₁
    refine (keeps_holding [v] (keeps_trackItems phase f hD rest hret.sound
      (fun p => (hret.placeDepth h p).trans (hf p)) (Nat.le_trans (Nat.le_max_right _ _) hdeep)
      fun he => ?_)).bind fun values w₂ hw₂ => ?_
    · have := hsmall he
      rw [Untracked.SmallItems] at this
      exact this.2
    obtain ⟨hret', hin', hlen⟩ := hw₂
    refine keeps_pure ⟨hret.trans hret', ?_, congrArg Nat.succ hlen⟩
    rw [Untracked.depthItems]
    exact List.forall_mem_cons.mpr ⟨(hin.ext hret'.ext).mono (Nat.le_max_left _ _),
      fun u hu => (hin' u hu).mono (Nat.le_max_right _ _)⟩

theorem keeps_trackEntries (phase : ExecutionPhase) (f : Nat → Nat) (hD : 0 < D) :
    ∀ (entries : List (String × Untracked σ)) {w : World σ}, Sound exact D w →
      (∀ p, w.depth (w.placeValue p) = f p) →
      Untracked.depthEntries f entries ≤ D → (exact → Untracked.SmallEntries entries) →
      Keeps exact D (trackEntries phase entries) w fun values w' =>
        Returned exact D w w' ∧ (∀ e ∈ values, Within w' (Untracked.depthEntries f entries) e.2) ∧
          values.length = entries.length
  | [], _, h, _, _, _ => keeps_pure ⟨.refl h, nofun, rfl⟩
  | (key, t) :: rest, w, h, hf, hdeep, hsmall => by
    rw [Untracked.depthEntries] at hdeep
    refine (keeps_trackResult phase f hD t h hf (Nat.le_trans (Nat.le_max_left _ _) hdeep)
      fun he => ?_).bind fun v w₁ hw₁ => ?_
    · have := hsmall he
      rw [Untracked.SmallEntries] at this
      exact this.1
    obtain ⟨hret, hin⟩ := hw₁
    refine (keeps_holding [v] (keeps_trackEntries phase f hD rest hret.sound
      (fun p => (hret.placeDepth h p).trans (hf p)) (Nat.le_trans (Nat.le_max_right _ _) hdeep)
      fun he => ?_)).bind fun values w₂ hw₂ => ?_
    · have := hsmall he
      rw [Untracked.SmallEntries] at this
      exact this.2
    obtain ⟨hret', hin', hlen⟩ := hw₂
    refine keeps_pure ⟨hret.trans hret', ?_, congrArg Nat.succ hlen⟩
    rw [Untracked.depthEntries]
    exact List.forall_mem_cons.mpr ⟨(hin.ext hret'.ext).mono (Nat.le_max_left _ _),
      fun u hu => (hin' u hu).mono (Nat.le_max_right _ _)⟩

end

/-! ## Operations -/

/-- What the host returns is not deeper than `D`. -/
def Operation.Shallow (D : Nat) (w : World σ) : Operation σ → Prop
  | .returned t => t.depth (fun p => w.depth (w.placeValue p)) ≤ D
  | _ => True

/-- No list or dict gets more than `u32::MAX` elements. -/
def Operation.Small (w : World σ) : Operation σ → Prop
  | .list n => n ≤ maxU32
  | .dict keys => keys.length ≤ maxU32
  | .gather _ positions => positions.length ≤ maxU32
  | .returned t => t.Small
  | .push p | .assignIndex p _ _ => w.RoomAt p
  | _ => True

theorem length_lastPlaces_le (w : World σ) (n : Nat) : (w.lastPlaces n).length ≤ n := by
  unfold World.lastPlaces
  rw [List.length_drop]
  omega

theorem keeps_makeList (h : Sound exact D w) (hD : maxValueDepth ≤ D) (n : Nat)
    (hsmall : exact → n ≤ maxU32) :
    Keeps exact D (makeList n) w fun _ w' => Sound exact D w' := by
  refine keeps_read ((keeps_checkElementsDepth h hD _).bind fun _ w₁ hw₁ => ?_)
  obtain ⟨hw₁, hdeep⟩ := hw₁
  rw [hw₁]
  refine Keeps.bind (keeps_modify (Q := fun _ w' => w' = w.dropPlaces n) rfl) fun _ w' hw' => ?_
  subst hw'
  refine (keeps_holding _ (keeps_newTracked (h.dropPlaces n) (.list (w.lastPlaces n)) .run
    (Nat.lt_of_lt_of_le (by decide) hD) h.lastPlaces (fun _ => hdeep)
    fun he => Nat.le_trans (length_lastPlaces_le w n) (hsmall he))).bind fun a w' hw' => ?_
  obtain ⟨hs, hg⟩ := hw'
  exact keeps_modify (hs.setOperand (valid_ref hg.cell))

theorem keeps_makeDict (h : Sound exact D w) (hD : maxValueDepth ≤ D) (keys : List String)
    (hsmall : exact → keys.length ≤ maxU32) :
    Keeps exact D (makeDict keys) w fun _ w' => Sound exact D w' := by
  refine keeps_read ((keeps_checkElementsDepth h hD _).bind fun _ w₁ hw₁ => ?_)
  obtain ⟨hw₁, hdeep⟩ := hw₁
  rw [hw₁]
  refine Keeps.bind (keeps_modify (Q := fun _ w' => w' = w.dropPlaces keys.length) rfl)
    fun _ w' hw' => ?_
  subst hw'
  obtain ⟨hmem, hlen⟩ := dictOf_children (l := keys.zip (w.lastPlaces keys.length))
  have hfrom : ∀ v ∈ (Data.dict (dictOf (keys.zip (w.lastPlaces keys.length)).reverse)).children,
      v ∈ w.lastPlaces keys.length := by
    intro v hv
    obtain ⟨e, he, rfl⟩ := List.mem_map.mp (hmem v hv)
    exact (List.of_mem_zip he).2
  refine (keeps_holding _ (keeps_newTracked (h.dropPlaces keys.length) _ .run
    (Nat.lt_of_lt_of_le (by decide) hD) (fun v hv => h.lastPlaces v (hfrom v hv))
    (fun _ v hv => hdeep v (hfrom v hv)) fun he => ?_)).bind fun a w' hw' => ?_
  · refine Nat.le_trans hlen (Nat.le_trans ?_ (hsmall he))
    rw [List.length_zip]
    exact Nat.min_le_left _ _
  · obtain ⟨hs, hg⟩ := hw'
    exact keeps_modify ((hs.setOperand (valid_ref hg.cell)).dropAll _)

/-- A new cell that is not a list or dict, or an empty one, becomes the operand. -/
theorem Sound.setNew (h : Sound exact D w) {c : Tracked σ} (hvalid : ∀ v ∈ c.data.children, w.Valid v)
    (hs : c.data.isContainer = true → Summarized exact D w c) :
    Sound exact D (World.setOperand (.ref w.cells.length)
      { w with cells := w.cells ++ [some c] }) := by
  obtain ⟨hsound, -, hcell, -⟩ := h.append w.ledger hvalid hs
  exact hsound.setOperand (valid_ref hcell)

theorem keeps_makeClosure (h : Sound exact D w) (n header : Nat) :
    Keeps exact D (makeClosure n header) w fun _ w' => Sound exact D w' := by
  refine keeps_read (Keeps.bind (keeps_modify (Q := fun _ w' => w' = w.dropPlaces n) rfl)
    fun _ w' hw' => ?_)
  subst hw'
  refine Keeps.bind (Q := fun _ w' => w' = w.dropPlaces n) rfl fun id w' hw' => ?_
  subst hw'
  refine (keeps_holding _ (keeps_onLedger (h.dropPlaces n))).bind fun _ w' hw' => ?_
  obtain ⟨l, rfl⟩ := hw'
  exact keeps_modify (((h.dropPlaces n).ledger l).setNew (fun v hv => h.lastPlaces v hv)
    fun hk => by cases hk)

theorem keeps_gather (h : Sound exact D w) (hD : 0 < D) (p : Nat) (positions : List Nat)
    (hsmall : exact → positions.length ≤ maxU32) :
    Keeps exact D (gather p positions) w fun _ w' => Sound exact D w' := by
  refine keeps_read ?_
  rcases hat : w.containerAt p with _ | ⟨a, c⟩
  · exact keeps_pure h
  · obtain ⟨-, hc, hk⟩ := World.containerAt_eq_some.mp hat
    have hfrom : ∀ v ∈ positions.filterMap fun i => c.data.children[i]?, v ∈ c.data.children := by
      intro v hv
      obtain ⟨i, -, hi⟩ := List.mem_filterMap.mp hv
      exact List.mem_of_getElem? hi
    refine (keeps_newTracked h (.list _) .run hD
      (fun v hv => h.children a c hc v (hfrom v hv)) (fun _ v hv => h.child_lt hc hk (hfrom v hv))
      fun he => Nat.le_trans (List.length_filterMap_le _ _) (hsmall he)).bind fun b w' hw' => ?_
    obtain ⟨hs, hg⟩ := hw'
    exact keeps_modify (hs.setOperand (valid_ref hg.cell))

theorem keeps_loadConstant (h : Sound exact D w) (hD : 0 < D) (isList : Bool) :
    Keeps exact D (loadConstant isList) w fun _ w' => Sound exact D w' := by
  refine keeps_modify (h.setNew (fun v hv => ?_) fun _ => ?_)
  · cases isList <;> cases hv
  · refine ⟨⟨⟨fun d hd => ?_, Nat.zero_le _, fun _ => ?_⟩, fun _ => ⟨?_, rfl⟩⟩, hD, fun _ => ?_⟩
    all_goals cases isList <;> first | rfl | exact Nat.zero_le _ | cases hd

/-- One operation keeps the memory sound. -/
theorem keeps_mutation (h : Sound exact D w) (hD : maxValueDepth ≤ D) (o : Operation σ)
    (hshallow : o.Shallow D w) (hsmall : exact → o.Small w) :
    Keeps exact D o.mutation w fun _ w' => Sound exact D w' := by
  have hpos : 0 < D := Nat.lt_of_lt_of_le (by decide) hD
  cases o with
  | scalar s => exact keeps_modify (h.setOperand (valid_scalar s))
  | load p => exact keeps_modify (h.setOperand (h.placeValue p))
  | element p i => exact keeps_modify (h.setOperand (h.elementAt p i))
  | declare =>
    refine keeps_modify (h.reroot rfl (fun v hv => ?_) valid_null)
    rcases List.mem_append.mp hv with hv | hv
    · exact h.places v hv
    · exact List.mem_singleton.mp hv ▸ h.operand
  | assign p =>
    have hassigned : Sound exact D { w with places := w.places.set p w.operand, operand := .null } := by
      refine h.reroot rfl (fun v hv => ?_) valid_null
      rcases List.mem_or_eq_of_mem_set hv with hv | rfl
      · exact h.places v hv
      · exact h.operand
    exact keeps_modify (hassigned.dropAll _)
  | leave n => exact keeps_modify ((h.dropPlaces n).dropAll _)
  | constant isList => exact keeps_loadConstant h hpos isList
  | list n => exact keeps_makeList h hD n hsmall
  | dict keys => exact keeps_makeDict h hD keys hsmall
  | closure n header => exact keeps_makeClosure h n header
  | gather p positions => exact keeps_gather h hpos p positions hsmall
  | returned t =>
    refine (keeps_trackResult .run _ hpos t h (fun _ => rfl) hshallow hsmall).bind
      fun v w' hw' => ?_
    exact keeps_modify (hw'.1.sound.setOperand hw'.2.valid)
  | push p => exact keeps_push h hD p hsmall
  | pop p => exact keeps_listPopTracked h p .run
  | assignIndex p index maxCollection => exact keeps_assignIndex h hD p index maxCollection hsmall

/-! ## Runs -/

theorem reach_sound (hD : maxValueDepth ≤ D)
    (h : Transition.Reach (memory σ) (fun w o => o.Shallow D w ∧ (exact → o.Small w)) w) :
    Sound exact D w := by
  refine h.invariant (fun w hw => ?_) fun w o w' hs hok hstep => ?_
  · obtain ⟨hcells, hplaces, hop⟩ := hw
    have hnone : ∀ a, w.cell? a = none := fun a => by
      rw [World.cell?, hcells]
      rfl
    refine ⟨fun v hv => ?_, hop ▸ valid_null, fun a c hc => ?_, fun a c hc => ?_⟩
    · rw [hplaces] at hv
      cases hv
    all_goals
      rw [hnone] at hc
      cases hc
  · cases hstep
    exact (keeps_mutation hs hD o hok.1 hok.2).sound

/-- The nesting of a value is at most `n`, as its contents are. -/
inductive Nests (w : World σ) : Value σ → Nat → Prop
  | leaf {v : Value σ} {n : Nat} :
    (∀ a c, v = .ref a → w.cell? a = some c → c.data.isContainer = false) → Nests w v n
  | cell {a n : Nat} {c : Tracked σ} :
    w.cell? a = some c → (∀ v ∈ c.data.children, Nests w v n) → Nests w (.ref a) (n + 1)

theorem nests_of_depth_le (h : Sound exact D w) (hmax : D ≤ maxU32) {n : Nat} :
    ∀ {v : Value σ}, w.depth v ≤ n → Nests w v n := by
  have hleaf {v : Value σ} {n : Nat} (hv : w.depth v ≤ n) (hc : ∀ a c, v = .ref a →
      w.cell? a = some c → c.data.isContainer = true → c.cache.max + 1 ≤ n → Nests w v n) :
      Nests w v n := by
    by_cases hex : ∃ a c, v = .ref a ∧ w.cell? a = some c ∧ c.data.isContainer = true
    · obtain ⟨a, c, rfl, hcell, hk⟩ := hex
      refine hc a c rfl hcell hk ?_
      have hlt := (h.caches a c hcell hk).depth_le
      simp only [World.depth, hcell, hk, if_true, Tracked.depth] at hv
      omega
    · refine .leaf fun a c hva hcell => ?_
      cases hk : c.data.isContainer with
      | false => rfl
      | true => exact absurd ⟨a, c, hva, hcell, hk⟩ hex
  induction n with
  | zero => exact fun hv => hleaf hv fun a c _ _ _ hle => absurd hle (Nat.not_succ_le_zero _)
  | succ n ih =>
    intro v hv
    refine hleaf hv fun a c hva hcell hk hle => ?_
    subst hva
    exact .cell hcell fun u hu => ih (Nat.le_trans
      ((h.caches a c hcell hk).fits.bound _ (List.mem_map_of_mem hu)) (Nat.le_of_succ_le_succ hle))

theorem depth_le_of_nests (h : Sound exact D w) {n : Nat} {v : Value σ} (hv : Nests w v n) :
    w.depth v ≤ n := by
  induction hv with
  | @leaf v n hleaf =>
    cases v with
    | null => exact Nat.zero_le _
    | scalar s => exact Nat.zero_le _
    | ref a =>
      unfold World.depth
      dsimp only
      split
      next c hc =>
        rw [hleaf a c rfl hc]
        exact Nat.zero_le _
      next => exact Nat.zero_le _
  | @cell a n c hc _ ih =>
    simp only [World.depth, hc]
    split
    next hk =>
      refine Nat.le_trans (Nat.min_le_left _ _) (max_lt (h.caches a c hc hk).fits (fun d hd => ?_)
        (Nat.succ_pos n))
      obtain ⟨v, hv, rfl⟩ := List.mem_map.mp hd
      exact Nat.lt_succ_of_le (ih v hv)
    next => exact Nat.zero_le _

/-- The cached depth is the nesting of the contents. -/
theorem nests_iff_depth_le (h : Sound exact D w) (hmax : D ≤ maxU32) {n : Nat} {v : Value σ} :
    Nests w v n ↔ w.depth v ≤ n :=
  ⟨depth_le_of_nests h, nests_of_depth_le h hmax⟩

/-- When the host returns nothing deeper than `D`, the cached maximum of every list and dict is
the recomputed one, and every value is nested at most `D` deep, as its cached depth says; when
also no list or dict gets more than `u32::MAX` elements, the count is the recomputed one. -/
theorem depth_cache_exact (hD : maxValueDepth ≤ D) (hmax : D ≤ maxU32)
    (h : Transition.Reach (memory σ) (fun w o => o.Shallow D w) w) :
    (∀ a c, w.cell? a = some c → c.data.isContainer = true →
      c.cache.max = (DepthCache.summarize (w.depths c.data)).max) ∧
    (∀ v ∈ w.handles, Nests w v D ∧ ∀ n, Nests w v n ↔ w.depth v ≤ n) ∧
    (Transition.Reach (memory σ) (fun w o => o.Shallow D w ∧ o.Small w) w →
      ∀ a c, w.cell? a = some c → c.data.isContainer = true →
        c.cache = DepthCache.summarize (w.depths c.data) ∧
          c.cache.count = (w.depths c.data).count c.cache.max) := by
  have hs : Sound False D w := reach_sound hD (h.mono fun _ _ hok => ⟨hok, False.elim⟩)
  refine ⟨fun a c hc hk => ?_, fun v _ => ⟨?_, fun n => nests_iff_depth_le hs hmax⟩,
    fun hsmall a c hc hk => ?_⟩
  · have hfits : (DepthCache.summarize (w.depths c.data)).Fits False (w.depths c.data) :=
      DepthCache.fits_summarize False.elim
    exact (hs.caches a c hc hk).fits.max_eq hfits
  · exact (nests_iff_depth_le hs hmax).mpr (hs.depth_le v)
  · have he : Sound True D w := reach_sound hD (hsmall.mono fun _ _ hok => ⟨hok.1, fun _ => hok.2⟩)
    have hc := he.caches a c hc hk
    refine hc.fits.eq_summarize ?_
    rw [World.depths, List.length_map]
    exact hc.small trivial

/-! ## What the two conditions exclude -/

/-- An empty memory with all the heap there can be. -/
def roomy : World Unit where
  cells := []
  places := []
  operand := .null
  ledger :=
    { config := ⟨1, 0, Word.maxU64, 0, 0, 0, 0, 0, 0, 0, 0, 9, 0, 0, 0, 0, 0, 0, 0, 0, ⟨0, 0⟩,
        Budget.zero_lt_u32, Budget.zero_lt_u32⟩
      cancellation := fun _ => false
      clock := none
      heap := { nextId := 1, liveBytes := 0, peakBytes := 0, limit := Word.maxU64 } }

/-- A list in a list, and so on. -/
def nested : Nat → Untracked Unit
  | 0 => .null
  | n + 1 => .list [nested n]

theorem trackItems_replicate (phase : ExecutionPhase) (n : Nat) (w : World σ) :
    (trackItems phase (List.replicate n .null)).run w = (.ok (List.replicate n .null), w) := by
  induction n with
  | zero => rfl
  | succ n ih =>
    simp only [List.replicate_succ, trackItems, trackResult, Proc.bind_run, Proc.pure_run, holding, ih]

/-- Children without depth are counted up to `u32::MAX`. -/
theorem summarize_replicate (n : Nat) :
    DepthCache.summarize (List.replicate n 0) = ⟨0, min n maxU32⟩ := by
  have hfold : ∀ n c, (List.replicate n 0).foldl (fun k d => k.added d) (⟨0, min c maxU32⟩ : DepthCache) =
      ⟨0, min (c + n) maxU32⟩ := by
    intro n
    induction n with
    | zero => exact fun c => rfl
    | succ n ih =>
      intro c
      have hadd : (⟨0, min c maxU32⟩ : DepthCache).added 0 = ⟨0, min (c + 1) maxU32⟩ := by
        simp only [DepthCache.added, Nat.lt_irrefl, if_false, if_true, DepthCache.mk.injEq, true_and]
        omega
      rw [List.replicate_succ, List.foldl_cons, hadd, ih]
      congr 2
      omega
  have := hfold n 0
  rwa [Nat.zero_min, Nat.zero_add] at this

/-- A returned list of `n` nulls, in a variable. -/
def wide (n : Nat) : World Unit :=
  { roomy with
    cells := [some ⟨.list (List.replicate n .null), 1, 24 + n * 32, ⟨0, min n maxU32⟩⟩]
    places := [.ref 0]
    ledger := ((Charge.newTracked (24 + n * 32) .run).run roomy.ledger).2 }

theorem granted_roomy {bytes : Nat} (h : bytes ≤ Word.maxU64) :
    Granted (Charge.newTracked bytes .run) roomy.ledger := by
  have hid : 2 ≤ Word.maxU64 := by decide
  simp only [Granted, Except.isOk, Except.toBool, Charge.newTracked, Charge.chargeHeap,
    Charge.checkCancel, Charge.checkDeadline, ge_iff_le, Charge.heapChargeRaw, Charge.onHeap,
    AllocationLedger.charge, Word.checkedAdd, Charge.allocateHeapId, AllocationLedger.allocateId, roomy,
    Proc.bind_run, Proc.gets_run, id_eq, Bool.false_eq_true, ↓reduceIte, Proc.modify_run, zero_add,
    Proc.pure_run, h, zero_le, sup_of_le_right, Nat.reduceAdd, hid]

theorem wide_reached {n : Nat} {ok : World Unit → Operation Unit → Prop}
    (h : 24 + n * 32 ≤ Word.maxU64) (hreturn : ok roomy (.returned (.list (List.replicate n .null))))
    (hdeclare : ∀ w, ok w .declare) : Transition.Reach (memory Unit) ok (wide n) := by
  have hbytes : (Data.list (List.replicate n (.null : Value Unit))).logicalBytes = 24 + n * 32 := by
    simp only [Data.logicalBytes, List.length_replicate, Word.satAdd, Word.satMul]
    omega
  have hnew := @newTracked_ok _ roomy (.list (List.replicate n .null)) .run _
    (hbytes ▸ ok_of_granted (granted_roomy h))
  have hcopy : roomy.copyOf (.list (List.replicate n .null)) =
      ⟨.list (List.replicate n .null), 1, 24 + n * 32, ⟨0, min n maxU32⟩⟩ := by
    have hsummary : roomy.summary (.list (List.replicate n .null)) = ⟨0, min n maxU32⟩ := by
      rw [← summarize_replicate, World.summary, Data.isContainer, if_pos rfl, Data.children,
        List.map_replicate]
      rfl
    rw [World.copyOf, hbytes, hsummary]
    rfl
  rw [hcopy, hbytes] at hnew
  have hreturned : (Operation.mutation (.returned (.list (List.replicate n .null)))).run roomy =
      (.ok (), { wide n with places := [], operand := .ref 0 }) := by
    simp only [Operation.mutation, trackResult, Proc.bind_run, trackItems_replicate, holding, hnew,
      Proc.pure_run, Proc.modify_run, World.setOperand]
    simp [World.dropAll, wide, roomy]
  have hinit : Transition.Reach (memory Unit) ok roomy := .init ⟨rfl, rfl, rfl⟩
  have hone : Transition.Reach (memory Unit) ok { wide n with places := [], operand := .ref 0 } := by
    refine hinit.step (a := .returned (.list (List.replicate n .null))) hreturn ?_
    show some (Proc.run _ roomy).2 = _
    rw [hreturned]
  exact hone.step (a := .declare) (hdeclare _) rfl

/-- A list of two nulls, in a variable. -/
theorem wide_two_nests : Nests (wide 2) (.ref 0) maxValueDepth :=
  ((depth_cache_exact (by decide) (by decide)
    (wide_reached (by decide) (show Untracked.depth _ _ ≤ maxValueDepth by decide) fun _ => trivial)).2.1
      (.ref 0) List.mem_cons_self).1

/-- `retrack` notes the charge and nothing else. -/
theorem cell?_retrack {w : World σ} {a old : Nat} {phase : ExecutionPhase} {c : Tracked σ}
    (hc : w.cell? a = some c) :
    ∃ bytes, ((retrack a old phase).run w).2.cell? a = some { c with bytes } := by
  simp only [retrack, Proc.bind_run, Proc.gets_run, id_eq, hc, onLedger]
  rcases hrun : (Charge.retrack old c.data.logicalBytes phase).run w.ledger with ⟨s | ⟨⟩, l⟩
  · exact ⟨c.bytes, hc⟩
  · exact ⟨c.data.logicalBytes, World.cell?_setCell (World.cell?_lt hc)⟩

/-- A `pop` counts down from `u32::MAX`. -/
theorem pop_wide {n : Nat} (hn : 0 < n) : ∃ bytes,
    ((Operation.pop 0).mutation.run (wide (n + 1))).2.cell? 0 = some
      ⟨.list (List.replicate n .null), 1, bytes, ⟨0, min (n + 1) maxU32 - 1⟩⟩ := by
  have hcount : (wide (n + 1)).strongCount 0 = 1 := by
    simp [World.strongCount, World.handles, wide, roomy, World.owned, Data.children,
      List.countP_replicate, Value.isRef]
  have hcell : (wide (n + 1)).cell? 0 = some
      ⟨.list (.null :: List.replicate n .null), 1, 24 + (n + 1) * 32, ⟨0, min (n + 1) maxU32⟩⟩ := rfl
  have hat : (wide (n + 1)).containerAt 0 = some (0,
      ⟨.list (.null :: List.replicate n .null), 1, 24 + (n + 1) * 32, ⟨0, min (n + 1) maxU32⟩⟩) := rfl
  have hlast : ((.null : Value Unit) :: List.replicate n .null).getLast? = some .null := by
    rw [← List.replicate_succ, List.getLast?_replicate, if_neg (Nat.succ_ne_zero n)]
  have htwo : 2 ≤ min (n + 1) maxU32 := Nat.le_min.mpr ⟨Nat.succ_le_succ hn, by decide⟩
  have hcache : (DepthCache.removed 0 ⟨0, min (n + 1) maxU32⟩) = ⟨0, min (n + 1) maxU32 - 1⟩ :=
    if_pos ⟨rfl, Nat.lt_of_lt_of_le (by decide) htwo⟩
  have hsettle (depths : List Nat) : DepthCache.settle depths ⟨0, min (n + 1) maxU32 - 1⟩ =
      ⟨0, min (n + 1) maxU32 - 1⟩ := if_neg (Nat.ne_of_gt (Nat.sub_pos_of_lt htwo))
  have hdetach : (detach 0 0 ⟨.list (.null :: List.replicate n .null), 1, 24 + (n + 1) * 32,
      ⟨0, min (n + 1) maxU32⟩⟩ .run).run (wide (n + 1)) = (.ok 0, wide (n + 1)) := by
    simp only [detach, Proc.bind_run, Proc.gets_run, id_eq]
    rw [if_pos ⟨Nat.one_ne_zero, hcount⟩]
    rfl
  have hdrop : (List.replicate n (.null : Value Unit)) =
      ((.null : Value Unit) :: List.replicate n .null).dropLast := by
    rw [← List.replicate_succ, List.dropLast_replicate, Nat.add_sub_cancel]
  simp only [Operation.mutation, listPopTracked, Proc.bind_run, Proc.gets_run, id_eq, hat, hdetach,
    hcell, Data.children, Proc.modify_run, hlast, Option.toList, World.depth, hcache, hsettle]
  rw [World.dropAll, World.dropAll, ← hdrop]
  exact cell?_retrack (World.cell?_setCell (World.cell?_lt hcell))

theorem depth_operand (w : World σ) (v : Value σ) :
    ({ w with operand := v } : World σ).depth = w.depth := by
  funext u
  cases u <;> rfl

/-- Nothing bounds what the host returns, and a list of more than `u32::MAX` elements counts
fewer than it has. -/
theorem depth_cache_limits :
    (∃ w : World Unit, Transition.Reach (memory Unit) Transition.anyStep w ∧
      ∃ v ∈ w.handles, ¬ Nests w v maxValueDepth) ∧
    ∃ w : World Unit, Transition.Reach (memory Unit) Transition.anyStep w ∧
      ∃ a c, w.cell? a = some c ∧ c.data.isContainer = true ∧
        c.cache.count ≠ (DepthCache.summarize (w.depths c.data)).count := by
  refine ⟨?_, ?_⟩
  · have hdeep : (nested 257).depth (fun p => roomy.depth (roomy.placeValue p)) ≤ 257 := by
      decide +kernel
    have hinit : Transition.Reach (memory Unit) (fun w o => o.Shallow 257 w) roomy :=
      .init ⟨rfl, rfl, rfl⟩
    have hreach : Transition.Reach (memory Unit) (fun w o => o.Shallow 257 w)
        ((Operation.returned (nested 257)).mutation.run roomy).2 :=
      hinit.step (a := .returned (nested 257)) hdeep rfl
    have hrun : ((trackResult .run (nested 257)).run roomy).1.toOption = some (.ref 256) := by
      decide +kernel
    have hdepth : ((trackResult .run (nested 257)).run roomy).2.depth (.ref 256) = 257 := by
      decide +kernel
    have hop : ((trackResult .run (nested 257)).run roomy).2.operand = .null := by decide +kernel
    have hreturned : (Operation.returned (nested 257)).mutation.run roomy = (.ok (),
        { ((trackResult .run (nested 257)).run roomy).2 with operand := .ref 256 }) := by
      simp only [Operation.mutation, Proc.bind_run]
      rcases hres : (trackResult .run (nested 257)).run roomy with ⟨e | v, w⟩
      · rw [hres] at hrun
        cases hrun
      · rw [hres] at hrun hop
        cases hrun
        dsimp only at hop ⊢
        rw [Proc.modify_run, World.setOperand, hop, World.dropAll, World.dropAll]
    refine ⟨_, hreach.mono fun _ _ _ => trivial, .ref 256, ?_, ?_⟩
    · rw [hreturned]
      exact List.mem_append_right _ List.mem_cons_self
    · intro hnests
      have hsound : Sound False 257 ((Operation.returned (nested 257)).mutation.run roomy).2 :=
        reach_sound (by decide) (hreach.mono fun _ _ hok => ⟨hok, False.elim⟩)
      have hle := (nests_iff_depth_le hsound (by decide)).mp hnests
      rw [hreturned] at hle
      rw [depth_operand, hdepth] at hle
      exact absurd hle (by decide)
  · have hreach : Transition.Reach (memory Unit) Transition.anyStep
        ((Operation.pop 0).mutation.run (wide (2 ^ 32 + 1))).2 :=
      (wide_reached (by decide) trivial fun _ => trivial).step (a := .pop 0) trivial rfl
    obtain ⟨bytes, hcell⟩ := pop_wide (n := 2 ^ 32) (by decide)
    refine ⟨_, hreach, 0, _, hcell, rfl, ?_⟩
    have hdepths (u : World Unit) (n : Nat) :
        u.depths (.list (List.replicate n .null)) = List.replicate n 0 := by
      rw [World.depths, Data.children, List.map_replicate]
      rfl
    rw [hdepths, summarize_replicate]
    show min (2 ^ 32 + 1) maxU32 - 1 ≠ min (2 ^ 32) maxU32
    decide

end Tsumugi.Backing
