import Mathlib.Data.List.Sort
import Mathlib.Order.Basic

/-!
# Ordered maps

A finite map as the list of its entries in strictly increasing key order, with
insertion that reports the value it replaced.

Results:
1. insertion of a new key adds one entry, up to order, and a key that is there keeps its
   place;
2. a map is determined by its entries up to order, and a strictly increasing list by
   its members.
-/

variable {κ ν : Type} [LinearOrder κ]

/-- Entries with strictly increasing keys. -/
structure OrderedMap (κ ν : Type) [LinearOrder κ] where
  entries : List (κ × ν)
  sorted : entries.Pairwise fun a b => a.1 < b.1

namespace OrderedMap

@[ext] theorem ext {m m' : OrderedMap κ ν} (h : m.entries = m'.entries) : m = m' := by
  cases m
  cases m'
  cases h
  rfl

/-- The map without entries. -/
def empty : OrderedMap κ ν := ⟨[], List.Pairwise.nil⟩

/-- The value of a key. -/
def get (m : OrderedMap κ ν) (k : κ) : Option ν := (m.entries.find? fun e => e.1 = k).map Prod.snd

/-- Put an entry at its place in a list, instead of the entry with that key. -/
def insertEntry (k : κ) (v : ν) : List (κ × ν) → List (κ × ν)
  | [] => [(k, v)]
  | e :: rest =>
    if k < e.1 then (k, v) :: e :: rest
    else if k = e.1 then (k, v) :: rest
    else e :: insertEntry k v rest

theorem mem_insertEntry {k : κ} {v : ν} {l : List (κ × ν)} {e : κ × ν}
    (h : e ∈ insertEntry k v l) : e = (k, v) ∨ e ∈ l := by
  induction l with
  | nil => exact .inl (List.mem_singleton.mp h)
  | cons a rest ih =>
    rw [insertEntry] at h
    split at h
    · exact List.mem_cons.mp h
    split at h
    · exact (List.mem_cons.mp h).imp_right (List.mem_cons_of_mem a)
    · rcases List.mem_cons.mp h with rfl | h
      · exact .inr List.mem_cons_self
      · exact (ih h).imp_right (List.mem_cons_of_mem a)

theorem length_insertEntry_le (k : κ) (v : ν) (l : List (κ × ν)) :
    (insertEntry k v l).length ≤ l.length + 1 := by
  induction l with
  | nil => exact Nat.le_refl _
  | cons a rest ih =>
    rw [insertEntry]
    split
    · exact Nat.le_refl _
    split
    · exact Nat.le_succ _
    · exact Nat.succ_le_succ ih

theorem sorted_insertEntry (k : κ) (v : ν) {l : List (κ × ν)}
    (h : l.Pairwise fun a b => a.1 < b.1) :
    (insertEntry k v l).Pairwise fun a b => a.1 < b.1 := by
  induction l with
  | nil => exact List.pairwise_singleton _ _
  | cons a rest ih =>
    obtain ⟨ha, hrest⟩ := List.pairwise_cons.mp h
    rw [insertEntry]
    split
    · rename_i hk
      refine List.pairwise_cons.mpr ⟨fun e he => ?_, h⟩
      rcases List.mem_cons.mp he with rfl | he
      · exact hk
      · exact hk.trans (ha e he)
    split
    · rename_i hk
      exact List.pairwise_cons.mpr ⟨fun e he => hk ▸ ha e he, hrest⟩
    · rename_i hlt hne
      refine List.pairwise_cons.mpr ⟨fun e he => ?_, ih hrest⟩
      rcases mem_insertEntry he with rfl | he
      · exact lt_of_le_of_ne (not_lt.mp hlt) (Ne.symm hne)
      · exact ha e he

/-- Insertion, with the value that the key had before. -/
def insert (m : OrderedMap κ ν) (k : κ) (v : ν) : Option ν × OrderedMap κ ν :=
  (m.get k, ⟨insertEntry k v m.entries, sorted_insertEntry k v m.sorted⟩)

theorem get_eq_none_iff {m : OrderedMap κ ν} {k : κ} : m.get k = none ↔ ∀ e ∈ m.entries, e.1 ≠ k := by
  simp [get, List.find?_eq_none]

/-- A new key adds one entry. -/
theorem perm_insertEntry {k : κ} {v : ν} {l : List (κ × ν)} (h : ∀ e ∈ l, e.1 ≠ k) :
    (insertEntry k v l).Perm ((k, v) :: l) := by
  induction l with
  | nil => exact List.Perm.refl _
  | cons a rest ih =>
    rw [insertEntry]
    split
    · exact List.Perm.refl _
    · rw [if_neg (Ne.symm (h a List.mem_cons_self))]
      exact ((ih fun e he => h e (List.mem_cons_of_mem a he)).cons a).trans (List.Perm.swap _ _ _)

theorem mem_of_get {m : OrderedMap κ ν} {k : κ} {v : ν} (h : m.get k = some v) :
    (k, v) ∈ m.entries := by
  obtain ⟨e, he, rfl⟩ := Option.map_eq_some_iff.mp h
  have hk : e.1 = k := by simpa using List.find?_some he
  exact hk ▸ List.mem_of_find?_eq_some he

/-- A key that is there keeps its place. -/
theorem insertEntry_of_mem {k : κ} {v old : ν} {l : List (κ × ν)}
    (hl : l.Pairwise fun a b => a.1 < b.1) (h : (k, old) ∈ l) :
    ∃ l₁ l₂, l = l₁ ++ (k, old) :: l₂ ∧ insertEntry k v l = l₁ ++ (k, v) :: l₂ := by
  induction l with
  | nil => cases h
  | cons a rest ih =>
    obtain ⟨ha, hrest⟩ := List.pairwise_cons.mp hl
    rw [insertEntry]
    rcases List.mem_cons.mp h with rfl | h
    · rw [if_neg (lt_irrefl k), if_pos rfl]
      exact ⟨[], rest, rfl, rfl⟩
    · have hlt : a.1 < k := ha _ h
      rw [if_neg (not_lt_of_gt hlt), if_neg (ne_of_gt hlt)]
      obtain ⟨l₁, l₂, rfl, heq⟩ := ih hrest h
      exact ⟨a :: l₁, l₂, rfl, by rw [heq]; rfl⟩

/-- Two maps with the same entries in any order are the same map. -/
theorem eq_of_perm {m m' : OrderedMap κ ν} (h : m.entries.Perm m'.entries) : m = m' := by
  refine ext (h.eq_of_pairwise (fun a b _ _ hab hba => ?_) m.sorted m'.sorted)
  exact absurd (hab.trans hba) (lt_irrefl _)

/-- Two lists that increase strictly and have the same members are the same list. -/
theorem eq_of_mem_iff {α : Type} {r : α → α → Prop} (hirr : ∀ a, ¬ r a a)
    (htrans : ∀ a b c, r a b → r b c → r a c) {l l' : List α} (hl : l.Pairwise r)
    (hl' : l'.Pairwise r) (h : ∀ a, a ∈ l ↔ a ∈ l') : l = l' := by
  have nodup : ∀ {l : List α}, l.Pairwise r → l.Nodup := by
    intro l hp
    refine hp.imp fun {a b} hab heq => ?_
    rw [heq] at hab
    exact hirr b hab
  refine ((List.perm_ext_iff_of_nodup (nodup hl) (nodup hl')).mpr h).eq_of_pairwise ?_ hl hl'
  exact fun a b _ _ hab hba => absurd (htrans a b a hab hba) (hirr a)

end OrderedMap
