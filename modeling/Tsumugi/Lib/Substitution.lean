import Mathlib.Data.List.Basic
import Mathlib.Data.List.Induction

/-!
# Substituting codes in a text

A code is a character after an escape character. Replacing the codes one after the other, over
the whole text each time, is the simultaneous substitution where no text that is put in can
take part in a code: it is not empty, has no escape character, and begins with no code's
character.

Results:
1. `replace_append`, `replace_pair`: replacing over a text put in, and at a code.
2. `replace_substitute`: a replacement after a substitution is a substitution of one code more.
3. `replaceAll_eq_substitute`: replacement by a table is simultaneous substitution.
-/

namespace Substitution

variable {α : Type} [DecidableEq α]

/-! ## Replacement of a pattern -/

/-- The matches of a nonempty pattern, from the left, replaced by a text; `skip` elements are
what is left of the last match. -/
def replaceFrom (pattern text : List α) : Nat → List α → List α
  | _, [] => []
  | skip + 1, _ :: rest => replaceFrom pattern text skip rest
  | 0, x :: rest =>
    if pattern <+: x :: rest then text ++ replaceFrom pattern text (pattern.length - 1) rest
    else x :: replaceFrom pattern text 0 rest

def replace (pattern text : List α) (source : List α) : List α :=
  replaceFrom pattern text 0 source

variable {escape : α}

@[simp] theorem replace_nil (pattern text : List α) : replace pattern text [] = [] := rfl

theorem replace_other {x : α} (h : x ≠ escape) (code : α) (text rest : List α) :
    replace [escape, code] text (x :: rest) = x :: replace [escape, code] text rest := by
  have hno : ¬ [escape, code] <+: x :: rest := by
    simp [List.cons_prefix_cons, Ne.symm h]
  simp [replace, replaceFrom, hno]

theorem replace_pair (escape code : α) (text rest : List α) :
    replace [escape, code] text (escape :: code :: rest)
      = text ++ replace [escape, code] text rest := by
  simp [replace, replaceFrom, List.cons_prefix_cons]

theorem replace_escape {code : α} {rest : List α} (h : rest.head? ≠ some code) (escape : α)
    (text : List α) :
    replace [escape, code] text (escape :: rest)
      = escape :: replace [escape, code] text rest := by
  have hno : ¬ [escape, code] <+: escape :: rest := by
    cases rest with
    | nil => simp [List.cons_prefix_cons]
    | cons y rest => simpa [List.cons_prefix_cons, eq_comm] using h
  simp [replace, replaceFrom, hno]

/-- A text without escape characters is passed over. -/
theorem replace_append {put : List α} (h : escape ∉ put) (code : α) (text rest : List α) :
    replace [escape, code] text (put ++ rest) = put ++ replace [escape, code] text rest := by
  induction put with
  | nil => rfl
  | cons x put ih =>
    rw [List.mem_cons, not_or] at h
    rw [List.cons_append, replace_other (Ne.symm h.1), ih h.2, List.cons_append]

/-! ## Simultaneous substitution -/

/-- The codes of a text replaced by their texts, which are not looked at again. -/
def substitute (escape : α) (codes : α → Option (List α)) : List α → List α
  | [] => []
  | [x] => [x]
  | x :: y :: rest =>
    match if x = escape then codes y else none with
    | some text => text ++ substitute escape codes rest
    | none => x :: substitute escape codes (y :: rest)

variable {codes : α → Option (List α)}

theorem substitute_none (escape : α) (source : List α) :
    substitute escape (fun _ ↦ none) source = source := by
  induction source using substitute.induct escape (fun _ : α ↦ (none : Option (List α))) with
  | case1 => rfl
  | case2 x => rfl
  | case3 x y rest text h ih => simp at h
  | case4 x y rest h ih => rw [substitute, h, ih]

theorem substitute_other {x : α} (h : x ≠ escape) (codes : α → Option (List α))
    (rest : List α) :
    substitute escape codes (x :: rest) = x :: substitute escape codes rest := by
  cases rest with
  | nil => rfl
  | cons y rest => simp [substitute, h]

theorem substitute_code {code : α} {text : List α} (h : codes code = some text) (escape : α)
    (rest : List α) :
    substitute escape codes (escape :: code :: rest) = text ++ substitute escape codes rest := by
  simp [substitute, h]

theorem substitute_escape {y : α} (h : codes y = none) (escape : α) (rest : List α) :
    substitute escape codes (escape :: y :: rest)
      = escape :: substitute escape codes (y :: rest) := by
  simp [substitute, h]

/-- One code more, where it has no text yet. -/
def addCode (codes : α → Option (List α)) (code : α) (text : List α) (x : α) :
    Option (List α) :=
  (codes x).or (if x = code then some text else none)

theorem addCode_some {x : α} {put : List α} (h : codes x = some put) (code : α)
    (text : List α) : addCode codes code text x = some put := by
  simp [addCode, h]

theorem addCode_other {x code : α} (h : codes x = none) (hx : x ≠ code) (text : List α) :
    addCode codes code text x = none := by
  simp [addCode, h, hx]

/-- After an escape character that begins no code, a substitution shows no other code. -/
theorem head_substitute {code y : α} (rest : List α) (hy : y ≠ code)
    (hput : ∀ x put, codes x = some put → put ≠ [] ∧ put.head? ≠ some code) :
    (substitute escape codes (y :: rest)).head? ≠ some code := by
  have hplain : some y ≠ some code := fun h ↦ hy (Option.some.inj h)
  cases rest with
  | nil => exact hplain
  | cons z rest =>
    by_cases hesc : y = escape
    · subst hesc
      cases hz : codes z with
      | none =>
        rw [substitute_escape hz]
        exact hplain
      | some put =>
        rw [substitute_code hz]
        obtain ⟨hne, hhead⟩ := hput z put hz
        rwa [List.head?_append_of_ne_nil _ hne]
    · rw [substitute_other hesc]
      exact hplain

/-- A replacement after a substitution puts one code more in. -/
theorem replace_substitute {code : α} (hcode : code ≠ escape)
    (hput : ∀ x put, codes x = some put →
      escape ∉ put ∧ put ≠ [] ∧ put.head? ≠ some code) (text source : List α) :
    replace [escape, code] text (substitute escape codes source)
      = substitute escape (addCode codes code text) source := by
  induction hlen : source.length using Nat.strongRecOn generalizing source with
  | ind n ih =>
    subst hlen
    have hrest (rest : List α) (h : rest.length < source.length) := ih rest.length h rest rfl
    have hskip (x y : α) (rest : List α) : rest.length < (x :: y :: rest).length := by
      rw [List.length_cons, List.length_cons]
      omega
    match source with
    | [] => rfl
    | [x] =>
      by_cases hx : x = escape
      · subst hx
        exact replace_escape (by simp) x text
      · exact replace_other hx code text []
    | x :: y :: rest =>
      by_cases hx : x = escape
      · subst hx
        cases hy : codes y with
        | some put =>
          rw [substitute_code hy, substitute_code (addCode_some hy code text),
            replace_append (hput y put hy).1, hrest rest (hskip x y rest)]
        | none =>
          rw [substitute_escape hy]
          by_cases hyc : y = code
          · -- the code that is replaced now
            subst hyc
            have hadd : addCode codes y text y = some text := by simp [addCode, hy]
            rw [substitute_other hcode, replace_pair, substitute_code hadd,
              hrest rest (hskip x y rest)]
          · rw [substitute_escape (addCode_other hy hyc text), replace_escape
              (head_substitute rest hyc fun z put h ↦ (hput z put h).2),
              hrest (y :: rest) (by simp)]
      · rw [substitute_other hx, substitute_other hx, replace_other hx,
          hrest (y :: rest) (by simp)]

/-! ## A table of codes -/

/-- The codes of a table replaced in its order. -/
def replaceAll (escape : α) (table : List (α × List α)) (source : List α) : List α :=
  table.foldl (fun source entry ↦ replace [escape, entry.1] entry.2 source) source

/-- What a table has for a code; the first entry counts. -/
def lookup (table : List (α × List α)) (x : α) : Option (List α) :=
  (table.find? fun entry ↦ x = entry.1).map Prod.snd

/-- The texts of a table take no part in its codes. -/
structure Inert (escape : α) (table : List (α × List α)) : Prop where
  plain : ∀ entry ∈ table, entry.1 ≠ escape
  no_escape : ∀ entry ∈ table, escape ∉ entry.2
  nonempty : ∀ entry ∈ table, entry.2 ≠ []
  no_code : ∀ entry ∈ table, ∀ other ∈ table, entry.2.head? ≠ some other.1

theorem lookup_mem {table : List (α × List α)} {x : α} {text : List α}
    (h : lookup table x = some text) : ∃ entry ∈ table, entry.2 = text := by
  obtain ⟨entry, hfind, htext⟩ := Option.map_eq_some_iff.mp h
  exact ⟨entry, List.mem_of_find?_eq_some hfind, htext⟩

theorem lookup_append (table : List (α × List α)) (code : α) (text : List α) :
    lookup (table ++ [(code, text)]) = addCode (lookup table) code text := by
  funext x
  simp only [lookup, addCode, List.find?_append]
  cases table.find? fun entry ↦ x = entry.1 with
  | some entry => rfl
  | none => by_cases hx : x = code <;> simp [hx]

/-- Replacement in the order of a table is simultaneous substitution. -/
theorem replaceAll_eq_substitute {table : List (α × List α)} (h : Inert escape table)
    (source : List α) :
    replaceAll escape table source = substitute escape (lookup table) source := by
  induction table using List.reverseRecOn with
  | nil => exact (substitute_none escape source).symm
  | append_singleton table entry ih =>
    have hsub (e : α × List α) (he : e ∈ table) : e ∈ table ++ [entry] :=
      List.mem_append_left _ he
    have hentry : entry ∈ table ++ [entry] := List.mem_append_right _ (List.mem_singleton_self _)
    have hbefore : Inert escape table :=
      { plain := fun e he ↦ h.plain e (hsub e he)
        no_escape := fun e he ↦ h.no_escape e (hsub e he)
        nonempty := fun e he ↦ h.nonempty e (hsub e he)
        no_code := fun e he other hother ↦ h.no_code e (hsub e he) other (hsub other hother) }
    have hput (x : α) (put : List α) (hx : lookup table x = some put) :
        escape ∉ put ∧ put ≠ [] ∧ put.head? ≠ some entry.1 := by
      obtain ⟨e, he, rfl⟩ := lookup_mem hx
      exact ⟨h.no_escape e (hsub e he), h.nonempty e (hsub e he),
        h.no_code e (hsub e he) entry hentry⟩
    calc replaceAll escape (table ++ [entry]) source
        = replace [escape, entry.1] entry.2 (replaceAll escape table source) := by
          rw [replaceAll, List.foldl_append]
          rfl
      _ = replace [escape, entry.1] entry.2 (substitute escape (lookup table) source) := by
          rw [ih hbefore]
      _ = substitute escape (addCode (lookup table) entry.1 entry.2) source :=
          replace_substitute (h.plain entry hentry) hput entry.2 source
      _ = substitute escape (lookup (table ++ [entry])) source := by
          rw [lookup_append]

end Substitution
