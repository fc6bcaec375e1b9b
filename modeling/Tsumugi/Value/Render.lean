import Tsumugi.Budget.LedgerLaw
import Tsumugi.Value.Shared

/-!
# Rendering under a budget (`budget.rs`, `render_display`)

`render_into` writes what `Display` writes, one node after another. It charges fuel for
every list and dict it unfolds, and looks at the length of the output where a node starts,
never after one has been written.

Results:
1. `renderInto_eq_ok`: what is written, and when it is.
2. `render_display_fits_iff`: the text always is that of `Display`; it is within the
   limit for one string exactly when the limit is not passed within the last node.
-/

namespace Tsumugi.Shared

open Budget

section Render

-- `floatToString` is the text the standard library formats an `f64` to.
variable (floatToString : UInt64 → String) (phase : ExecutionPhase)

mutual

/-- `render_into`: the output with the text of the value added. -/
def renderInto (repr : Bool) (value : Value) (out : String) : Charge String := do
  Charge.checkRendered out.utf8ByteSize phase
  match value with
  | .str _ s => pure (if repr then out ++ "\"" ++ s ++ "\"" else out ++ s)
  | .int n => pure (out ++ toString n)
  | .float bits => pure (out ++ floatToString bits)
  | .bool b => pure (out ++ if b then "true" else "false")
  | .null => pure (out ++ "null")
  | .list _ items => do
    Charge.chargeFuel 1 phase
    let out ← renderItems true items (out ++ "[")
    pure (out ++ "]")
  | .dict _ entries => do
    Charge.chargeFuel 1 phase
    let out ← renderEntries true entries (out ++ "\x7b")
    pure (out ++ "\x7d")
  | .fn _ name params =>
    pure (out ++ ("<fn " ++ name ++ "(" ++ ", ".intercalate params ++ ")>"))
  | .vmFn _ name params =>
    pure (out ++ ("<fn " ++ name ++ "(" ++ ", ".intercalate params ++ ")>"))
  | .error _ message _ => pure (out ++ message)

/-- The loop over the items of a list: all but the first come after a comma. -/
def renderItems (first : Bool) : List Value → String → Charge String
  | [], out => pure out
  | v :: rest, out => do
    let out ← renderInto true v (if first then out else out ++ ", ")
    renderItems false rest out

/-- The loop over the entries of a dict. -/
def renderEntries (first : Bool) : List (String × Value) → String → Charge String
  | [], out => pure out
  | (key, v) :: rest, out => do
    let out ← renderInto true v ((if first then out else out ++ ", ") ++ "\"" ++ key ++ "\": ")
    renderEntries false rest out

end

/-- `render_display`. -/
def renderDisplay (v : Value) : Charge String := renderInto floatToString phase false v ""

/-! ## What is written, and where its nodes start -/

/-- The text of a value, as an item (`repr`) or on its own. -/
def written (repr : Bool) (v : Value) : String :=
  if repr then v.formatValueRepr floatToString else v.display floatToString

/-- Texts with commas between them, and with one before the first unless `first` is set. -/
def joined (first : Bool) (texts : List String) : String :=
  if first then ", ".intercalate texts else texts.foldr (fun text rest => ", " ++ text ++ rest) ""

theorem joined_cons (first : Bool) (text : String) (texts : List String) :
    joined first (text :: texts) = (if first then "" else ", ") ++ text ++ joined false texts := by
  cases first with
  | false => simp [joined]
  | true =>
    induction texts generalizing text with
    | nil => simp [joined]
    | cons next rest ih =>
      have hrest := ih next
      simp only [joined, if_true, Bool.false_eq_true, if_false] at hrest ⊢
      rw [String.intercalate_cons_cons, hrest]
      simp [String.append_assoc]

/-- The text of an entry of a dict. -/
def entryText (e : String × Value) : String :=
  "\"" ++ e.1 ++ "\": " ++ e.2.formatValueRepr floatToString

mutual

/-- The lengths the output has where the nodes of a value start, if it starts at `pos`. -/
def starts (pos : Nat) : Value → List Nat
  | .list _ items => pos :: itemStarts (pos + 1) true items
  | .dict _ entries => pos :: entryStarts (pos + 1) true entries
  | _ => [pos]

def itemStarts (pos : Nat) (first : Bool) : List Value → List Nat
  | [] => []
  | v :: rest =>
    starts (pos + if first then 0 else 2) v ++
      itemStarts ((pos + if first then 0 else 2) + (v.formatValueRepr floatToString).utf8ByteSize)
        false rest

def entryStarts (pos : Nat) (first : Bool) : List (String × Value) → List Nat
  | [] => []
  | (key, v) :: rest =>
    starts ((pos + if first then 0 else 2) + (key.utf8ByteSize + 4)) v ++
      entryStarts ((pos + if first then 0 else 2) + (key.utf8ByteSize + 4) +
        (v.formatValueRepr floatToString).utf8ByteSize) false rest

end

mutual

/-- The lists and dicts of a value, each counted where it is shown. -/
def containers : Value → Nat
  | .list _ items => 1 + itemContainers items
  | .dict _ entries => 1 + entryContainers entries
  | _ => 0

def itemContainers : List Value → Nat
  | [] => 0
  | v :: rest => containers v + itemContainers rest

def entryContainers : List (String × Value) → Nat
  | [] => 0
  | (_, v) :: rest => containers v + entryContainers rest

end

/-- One unit of fuel, charged `n` times. -/
def fuelUnits : Nat → Charge Unit
  | 0 => pure ()
  | n + 1 => do
    Charge.chargeFuel 1 phase
    fuelUnits n

/-! ## When the renderer returns -/

variable {phase} in
theorem checkRendered_eq_ok {rendered : Nat} {l t : BudgetLedger} {u : Unit} :
    (Charge.checkRendered rendered phase).run l = (.ok u, t) ↔
      rendered ≤ l.config.maxSingleStringBytes ∧ t = l := by
  unfold Charge.checkRendered Charge.perItem
  rw [Proc.bind_run, Proc.gets_run]
  dsimp only [BudgetConfig.limitOf]
  split
  next hgt =>
    have hstop : ∀ {m : Charge Unit} {stop : ControlStop},
        (m >>= fun _ => (Proc.stop stop : Charge Unit)).run l ≠ (.ok u, t) := by
      intro m stop h
      obtain ⟨a, w, -, hw⟩ := Proc.bind_run_eq_ok.mp h
      cases hw
    exact iff_of_false hstop fun h => by omega
  next hle => exact ⟨fun h => by cases h; exact ⟨by omega, rfl⟩, fun h => by rw [h.2]; rfl⟩

variable {phase} in
theorem chargeFuel_config {amount : Nat} {l t : BudgetLedger} {u : Unit}
    (h : (Charge.chargeFuel amount phase).run l = (.ok u, t)) : t.config = l.config := by
  have hmeets := LedgerLemmas.limited_chargeAll [⟨.fuel, amount⟩] phase l
  rwa [show (Charge.chargeAll [⟨.fuel, amount⟩] phase).run l = _ from h] at hmeets

variable {phase} in
theorem fuelUnits_config {n : Nat} {l t : BudgetLedger}
    (h : (fuelUnits phase n).run l = (.ok (), t)) : t.config = l.config := by
  induction n generalizing l with
  | zero => cases h; rfl
  | succ n ih =>
    obtain ⟨_, u, hu, ht⟩ := Proc.bind_run_eq_ok.mp h
    exact (ih ht).trans (chargeFuel_config hu)

variable {phase} in
theorem fuelUnits_add_eq_ok {m n : Nat} {l t : BudgetLedger} :
    (fuelUnits phase (m + n)).run l = (.ok (), t) ↔
      ∃ u, (fuelUnits phase m).run l = (.ok (), u) ∧ (fuelUnits phase n).run u = (.ok (), t) := by
  induction m generalizing l with
  | zero => simp [fuelUnits]
  | succ m ih =>
    rw [Nat.add_right_comm]
    simp only [fuelUnits, Proc.bind_run_eq_ok, ih]
    constructor
    · rintro ⟨_, v, hv, u, hu, ht⟩
      exact ⟨u, ⟨(), v, hv, hu⟩, ht⟩
    · rintro ⟨u, ⟨_, v, hv, hu⟩, ht⟩
      exact ⟨(), v, hv, u, hu, ht⟩

/-- None of the lengths is over the limit for one string. -/
def Within (l : BudgetLedger) (lengths : List Nat) : Prop :=
  ∀ n ∈ lengths, n ≤ l.config.maxSingleStringBytes

/-- `m` returns, with this text, exactly if no node starts past the limit and the fuel for
`n` lists and dicts is granted. -/
def Writes (m : Charge String) (text : String) (lengths : List Nat) (n : Nat) : Prop :=
  ∀ l s t, m.run l = (.ok s, t) ↔
    s = text ∧ Within l lengths ∧ (fuelUnits phase n).run l = (.ok (), t)

theorem Writes.bind {m : Charge String} {f : String → Charge String} {text text' : String}
    {lengths lengths' : List Nat} {n n' : Nat} (hm : Writes phase m text lengths n)
    (hf : Writes phase (f text) text' lengths' n') :
    Writes phase (m >>= f) text' (lengths ++ lengths') (n + n') := by
  intro l s t
  rw [Proc.bind_run_eq_ok, fuelUnits_add_eq_ok]
  constructor
  · rintro ⟨a, u, ha, hs⟩
    obtain ⟨rfl, hl, hu⟩ := (hm l a u).mp ha
    obtain ⟨rfl, hl', ht⟩ := (hf u s t).mp hs
    refine ⟨rfl, fun p hp => ?_, u, hu, ht⟩
    rcases List.mem_append.mp hp with hp | hp
    · exact hl p hp
    · exact fuelUnits_config hu ▸ hl' p hp
  · rintro ⟨rfl, hl, u, hu, ht⟩
    refine ⟨text, u, (hm l text u).mpr ⟨rfl, fun p hp => hl p (List.mem_append_left _ hp), hu⟩,
      (hf u _ t).mpr ⟨rfl, fun p hp => ?_, ht⟩⟩
    rw [fuelUnits_config hu]
    exact hl p (List.mem_append_right _ hp)

theorem writes_pure (text : String) : Writes phase (pure text) text [] 0 := by
  intro l s t
  rw [Proc.pure_run]
  constructor
  · intro h
    cases h
    exact ⟨rfl, nofun, rfl⟩
  · rintro ⟨rfl, -, h⟩
    cases h
    rfl

/-- The check at the start of a node. -/
theorem writes_check {m : Charge String} {out text : String} {lengths : List Nat} {n : Nat}
    (h : Writes phase m text lengths n) :
    Writes phase (do Charge.checkRendered out.utf8ByteSize phase; m) text
      (out.utf8ByteSize :: lengths) n := by
  intro l s t
  rw [Proc.bind_run_eq_ok]
  constructor
  · rintro ⟨_, u, hcheck, hm⟩
    obtain ⟨hle, rfl⟩ := checkRendered_eq_ok.mp hcheck
    obtain ⟨hs, hl, ht⟩ := (h u s t).mp hm
    refine ⟨hs, fun p hp => ?_, ht⟩
    rcases List.mem_cons.mp hp with rfl | hp
    · exact hle
    · exact hl p hp
  · rintro ⟨hs, hl, ht⟩
    exact ⟨(), l, checkRendered_eq_ok.mpr ⟨hl _ List.mem_cons_self, rfl⟩,
      (h l s t).mpr ⟨hs, fun p hp => hl p (List.mem_cons_of_mem _ hp), ht⟩⟩

/-- The fuel for a list or a dict. -/
theorem writes_fuel {m : Charge String} {text : String} {lengths : List Nat} {n : Nat}
    (h : Writes phase m text lengths n) :
    Writes phase (do Charge.chargeFuel 1 phase; m) text lengths (1 + n) := by
  intro l s t
  rw [Proc.bind_run_eq_ok, Nat.add_comm, fuelUnits, Proc.bind_run_eq_ok]
  constructor
  · rintro ⟨_, u, hu, hm⟩
    obtain ⟨hs, hl, ht⟩ := (h u s t).mp hm
    have hconfig := chargeFuel_config hu
    exact ⟨hs, fun p hp => hconfig ▸ hl p hp, (), u, hu, ht⟩
  · rintro ⟨hs, hl, _, u, hu, ht⟩
    have hconfig := chargeFuel_config hu
    exact ⟨(), u, hu, (h u s t).mpr ⟨hs, fun p hp => hconfig ▸ hl p hp, ht⟩⟩

theorem Writes.of_eq {m : Charge String} {text text' : String} {lengths lengths' : List Nat}
    {n n' : Nat} (h : Writes phase m text' lengths' n') (htext : text = text')
    (hlengths : lengths = lengths') (hn : n = n') : Writes phase m text lengths n := by
  subst htext hlengths hn
  exact h

/-- A node without items: one check and one text. -/
theorem writes_leaf (out text : String) :
    Writes phase (do Charge.checkRendered out.utf8ByteSize phase; pure (out ++ text))
      (out ++ text) [out.utf8ByteSize] 0 :=
  writes_check phase (writes_pure phase (out ++ text))

mutual

/-- Rendering follows the recursion of `Display`, also where a value is shared. -/
theorem writes_renderInto (repr : Bool) (v : Value) (out : String) :
    Writes phase (renderInto floatToString phase repr v out)
      (out ++ written floatToString repr v) (starts floatToString out.utf8ByteSize v)
      (containers v) := by
  cases v with
  | int n =>
    refine (writes_leaf phase out (toString n)).of_eq phase ?_ rfl rfl
    cases repr <;> rfl
  | float bits =>
    refine (writes_leaf phase out (floatToString bits)).of_eq phase ?_ rfl rfl
    cases repr <;> rfl
  | str addr s =>
    cases repr with
    | false => exact writes_leaf phase out s
    | true =>
      refine (writes_check phase (writes_pure phase (out ++ "\"" ++ s ++ "\""))).of_eq phase ?_ rfl rfl
      simp [written, Value.formatValueRepr, String.append_assoc]
  | bool b =>
    refine (writes_leaf phase out (if b then "true" else "false")).of_eq phase ?_ rfl rfl
    cases repr <;> cases b <;> rfl
  | null =>
    refine (writes_leaf phase out "null").of_eq phase ?_ rfl rfl
    cases repr <;> rfl
  | list addr items =>
    have hitems := writes_renderItems true items (out ++ "[")
    refine (writes_check phase (writes_fuel phase
      (hitems.bind phase (f := fun out => pure (out ++ "]")) (writes_pure phase _)))).of_eq phase
        ?_ ?_ rfl
    · cases repr <;> simp [written, Value.formatValueRepr, Value.display, joined, String.append_assoc]
    · simp [starts, String.utf8ByteSize_append, show "[".utf8ByteSize = 1 from rfl]
  | dict addr entries =>
    have hentries := writes_renderEntries true entries (out ++ "\x7b")
    refine (writes_check phase (writes_fuel phase
      (hentries.bind phase (f := fun out => pure (out ++ "\x7d")) (writes_pure phase _)))).of_eq
        phase ?_ ?_ rfl
    · cases repr <;> simp [written, Value.formatValueRepr, Value.display, joined, String.append_assoc]
    · simp [starts, String.utf8ByteSize_append, show "\x7b".utf8ByteSize = 1 from rfl]
  | fn id name params =>
    refine (writes_leaf phase out _).of_eq phase ?_ rfl rfl
    cases repr <;> rfl
  | vmFn id name params =>
    refine (writes_leaf phase out _).of_eq phase ?_ rfl rfl
    cases repr <;> rfl
  | error errorType message line =>
    refine (writes_leaf phase out message).of_eq phase ?_ rfl rfl
    cases repr <;> rfl

theorem writes_renderItems (first : Bool) (items : List Value) (out : String) :
    Writes phase (renderItems floatToString phase first items out)
      (out ++ joined first (Value.itemTexts floatToString items))
      (itemStarts floatToString out.utf8ByteSize first items) (itemContainers items) := by
  cases items with
  | nil =>
    refine (writes_pure phase out).of_eq phase ?_ rfl rfl
    cases first <;> simp [Value.itemTexts, joined]
  | cons v rest =>
    have hv := writes_renderInto true v (if first then out else out ++ ", ")
    refine (hv.bind phase (writes_renderItems false rest _)).of_eq phase ?_ ?_ rfl
    · rw [Value.itemTexts_eq, List.map_cons, ← Value.itemTexts_eq, joined_cons]
      cases first <;> simp [written, String.append_assoc]
    · cases first <;>
        simp [itemStarts, written, String.utf8ByteSize_append, show ", ".utf8ByteSize = 2 from rfl]

theorem writes_renderEntries (first : Bool) (entries : List (String × Value)) (out : String) :
    Writes phase (renderEntries floatToString phase first entries out)
      (out ++ joined first (Value.entryTexts floatToString entries))
      (entryStarts floatToString out.utf8ByteSize first entries) (entryContainers entries) := by
  cases entries with
  | nil =>
    refine (writes_pure phase out).of_eq phase ?_ rfl rfl
    cases first <;> simp [Value.entryTexts, joined]
  | cons e rest =>
    obtain ⟨key, v⟩ := e
    have hv := writes_renderInto true v
      ((if first then out else out ++ ", ") ++ "\"" ++ key ++ "\": ")
    refine (hv.bind phase (writes_renderEntries false rest _)).of_eq phase ?_ ?_ rfl
    · rw [Value.entryTexts_eq, List.map_cons, ← Value.entryTexts_eq, joined_cons]
      cases first <;> simp [-String.reduceAppend, written, String.append_assoc]
    · have hkey : (out ++ (if first then "" else ", ") ++ "\"" ++ key ++ "\": ").utf8ByteSize =
          (out.utf8ByteSize + if first then 0 else 2) + (key.utf8ByteSize + 4) := by
        cases first <;>
          simp only [String.utf8ByteSize_append, show ", ".utf8ByteSize = 2 from rfl,
            show "\"".utf8ByteSize = 1 from rfl, show "\": ".utf8ByteSize = 3 from rfl,
            show "".utf8ByteSize = 0 from rfl, if_true, Bool.false_eq_true, if_false] <;>
          omega
      rw [entryStarts, ← hkey]
      cases first <;> simp [-String.reduceAppend, written, String.utf8ByteSize_append]

end

/-- What `render_display` returns is the text of `Display`. -/
theorem renderDisplay_eq_display {v : Value} {l t : BudgetLedger} {s : String}
    (h : (renderDisplay floatToString phase v).run l = (.ok s, t)) : s = v.display floatToString := by
  rw [((writes_renderInto floatToString phase false v "" l s t).mp h).1]
  simp [written]

/-- The budgeted text is that of `Display` and within the limit for one string, exactly if
that text fits, a node starts past the limit, or the fuel for the lists and dicts is refused. -/
theorem render_display_fits_iff (v : Value) (l : BudgetLedger) :
    (∀ s t, (renderDisplay floatToString phase v).run l = (.ok s, t) →
      s = v.display floatToString ∧ s.utf8ByteSize ≤ l.config.maxSingleStringBytes) ↔
    (v.display floatToString).utf8ByteSize ≤ l.config.maxSingleStringBytes ∨
      (∃ pos ∈ starts floatToString 0 v, l.config.maxSingleStringBytes < pos) ∨
      ¬ ∃ t, (fuelUnits phase (containers v)).run l = (.ok (), t) := by
  have hwrites := writes_renderInto floatToString phase false v ""
  constructor
  · intro h
    by_contra hnot
    rw [not_or, not_or, not_not] at hnot
    obtain ⟨hlong, hstarts, t, ht⟩ := hnot
    have hwithin : Within l (starts floatToString 0 v) :=
      fun pos hpos => Nat.not_lt.mp fun hlt => hstarts ⟨pos, hpos, hlt⟩
    have hrun : (renderDisplay floatToString phase v).run l = (.ok (v.display floatToString), t) :=
      (hwrites l _ t).mpr ⟨by simp [written], hwithin, ht⟩
    exact hlong (h _ t hrun).2
  · intro h s t hrun
    have htext := renderDisplay_eq_display floatToString phase hrun
    obtain ⟨-, hwithin, ht⟩ := (hwrites l s t).mp hrun
    refine ⟨htext, ?_⟩
    rcases h with hfits | ⟨pos, hpos, hlt⟩ | hrefused
    · rw [htext]
      exact hfits
    · exact absurd (hwithin pos hpos) (Nat.not_le.mpr hlt)
    · exact absurd ⟨t, ht⟩ hrefused

end Render

/-- Ten of every resource, and strings of five bytes. -/
def fiveByteStrings : BudgetConfig :=
  ⟨1, 10, 10, 10, 10, 5, 10, 10, 10, 10, 10, 10, 10, 10, 10, 10, 10, 10, 10, 10, ⟨1, 1000⟩,
    ten_lt_u32, ten_lt_u32⟩

/-- The last item starts within the limit, and the closing bracket is past it. -/
theorem last_item_passes_the_limit :
    ∃ t, (renderDisplay (fun _ => "") .run (.list 1 [.int 1, .int 2])).run
        (.fresh fiveByteStrings (fun _ => false) none) = (.ok "[1, 2]", t) ∧
      fiveByteStrings.maxSingleStringBytes < "[1, 2]".utf8ByteSize :=
  ⟨_, rfl, by decide⟩

end Tsumugi.Shared
