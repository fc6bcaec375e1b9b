import Mathlib.Data.List.Basic

/-!
# Bracketed sequences

A sequence opens and closes labels. It is read with a stack of the labels that are
open: a close must be the close of the label on top, which is the most recent open
one, and a discipline says what may be opened over what. Each label has a serial
number, and the opens of a sequence have increasing ones.

Results:
1. `readAll_append`: reading is compositional.
2. `Bracketed.of_start`: what is bracketed is bracketed at every moment.
-/

namespace Bracket

/-- A label is opened or closed. -/
inductive Mark (L : Type*)
  | opens (label : L)
  | closes (label : L)
deriving DecidableEq, Repr

namespace Mark

variable {L M : Type*}

def map (f : L → M) : Mark L → Mark M
  | opens label => opens (f label)
  | closes label => closes (f label)

theorem map_map {N : Type*} (f : L → M) (g : M → N) (mark : Mark L) :
    (mark.map f).map g = mark.map (g ∘ f) := by
  cases mark <;> rfl

end Mark

/-- The serial number of a label, and whether it may be opened over a stack. -/
structure Discipline (L : Type*) where
  serial : L → Nat
  nests : List L → L → Bool

/-- What has been read: the labels that are open, the most recent first, and the least serial
number of the next open. -/
structure Reading (L : Type*) where
  stack : List L := []
  next : Nat := 0
deriving DecidableEq, Repr

variable {L : Type*} [DecidableEq L] (d : Discipline L)

/-- Read one mark. -/
def read (o : Reading L) : Mark L → Option (Reading L)
  | .opens label =>
    if o.next ≤ d.serial label && d.nests o.stack label then
      some ⟨label :: o.stack, d.serial label + 1⟩
    else none
  | .closes label =>
    match o.stack with
    | top :: stack => if top = label then some { o with stack } else none
    | [] => none

/-- Read a sequence. -/
def readAll : Reading L → List (Mark L) → Option (Reading L)
  | o, [] => some o
  | o, mark :: marks => (read d o mark).bind fun o => readAll o marks

/-- The sequence can be read from its beginning. -/
def Bracketed (marks : List (Mark L)) : Prop := (readAll d {} marks).isSome

instance (marks : List (Mark L)) : Decidable (Bracketed d marks) :=
  inferInstanceAs (Decidable (_ = true))

variable {d}

@[simp] theorem readAll_nil (o : Reading L) : readAll d o [] = some o := rfl

theorem readAll_append (o : Reading L) (marks marks' : List (Mark L)) :
    readAll d o (marks ++ marks') = (readAll d o marks).bind fun o => readAll d o marks' := by
  induction marks generalizing o with
  | nil => rfl
  | cons mark marks ih =>
    simp only [List.cons_append, readAll]
    cases read d o mark with
    | none => rfl
    | some o => exact ih o

/-- What is added to a sequence that was read. -/
theorem readAll_extend {o o' : Reading L} {marks marks' : List (Mark L)}
    (h : readAll d o marks = some o') :
    readAll d o (marks ++ marks') = readAll d o' marks' := by
  rw [readAll_append, h]
  rfl

theorem readAll_opens {o : Reading L} {label : L} (hserial : o.next ≤ d.serial label)
    (hnests : d.nests o.stack label = true) :
    readAll d o [.opens label] = some ⟨label :: o.stack, d.serial label + 1⟩ := by
  simp [readAll, read, hserial, hnests]

theorem readAll_closes (label : L) (stack : List L) (next : Nat) :
    readAll d ⟨label :: stack, next⟩ [.closes label] = some ⟨stack, next⟩ := by
  simp [readAll, read]

theorem Bracketed.of_some {marks : List (Mark L)} {o : Reading L}
    (h : readAll d {} marks = some o) : Bracketed d marks := by
  rw [Bracketed, h]
  rfl

theorem Bracketed.of_start {marks marks' : List (Mark L)} (h : Bracketed d marks')
    (hstart : marks <+: marks') : ∃ o, readAll d {} marks = some o := by
  obtain ⟨rest, rfl⟩ := hstart
  rw [Bracketed, readAll_append] at h
  cases hread : readAll d {} marks with
  | none => simp [hread] at h
  | some o => exact ⟨o, rfl⟩

end Bracket
