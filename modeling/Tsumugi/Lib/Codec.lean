import Mathlib.Algebra.Ring.Nat
import Mathlib.Data.List.Basic
import Mathlib.Tactic.Common

/-!
# Self-delimiting encodings

An encoding into bytes is self-delimiting on a set of values when a byte string
that starts with the code of one of them starts with the code of no other, so
that codes may be written one after the other without separators.

Results:
1. fixed-width big-endian numbers, length-prefixed strings, pairs and counted lists
   are self-delimiting when their parts are;
2. a self-delimiting encoding is injective.
-/

namespace Codec

variable {α β : Type}

/-- The code of a value ends where it ends, whatever follows. -/
def SelfDelimiting (valid : α → Prop) (enc : α → List UInt8) : Prop :=
  ∀ ⦃a b : α⦄ ⦃s t : List UInt8⦄, valid a → valid b → enc a ++ s = enc b ++ t → a = b ∧ s = t

theorem SelfDelimiting.injOn {valid : α → Prop} {enc : α → List UInt8}
    (h : SelfDelimiting valid enc) {a b : α} (ha : valid a) (hb : valid b)
    (hab : enc a = enc b) : a = b := (h ha hb (congrArg (· ++ []) hab)).1

theorem SelfDelimiting.mono {valid valid' : α → Prop} {enc : α → List UInt8}
    (h : SelfDelimiting valid enc) (hv : ∀ a, valid' a → valid a) : SelfDelimiting valid' enc :=
  fun _ _ _ _ ha hb hab => h (hv _ ha) (hv _ hb) hab

/-- The codes of the valid values, as a set of byte strings, are self-delimiting. -/
theorem SelfDelimiting.image {valid : α → Prop} {enc : α → List UInt8}
    (h : SelfDelimiting valid enc) {codes : List UInt8 → Prop}
    (hcodes : ∀ bytes, codes bytes → ∃ a, valid a ∧ enc a = bytes) : SelfDelimiting codes id := by
  intro bytes bytes' s t hb hb' heq
  obtain ⟨a, ha, rfl⟩ := hcodes bytes hb
  obtain ⟨a', ha', rfl⟩ := hcodes bytes' hb'
  obtain ⟨rfl, hrest⟩ := h ha ha' heq
  exact ⟨rfl, hrest⟩

/-- Optional values with equal optional codes are equal. -/
theorem SelfDelimiting.eq_of_map_eq {valid : α → Prop} {enc : α → List UInt8}
    (h : SelfDelimiting valid enc) {x y : Option α} (hx : ∀ a ∈ x, valid a) (hy : ∀ a ∈ y, valid a)
    (heq : x.map enc = y.map enc) : x = y := by
  cases x with
  | none => exact (Option.map_eq_none_iff.mp heq.symm).symm
  | some a =>
    obtain ⟨a', rfl, hcode⟩ := Option.map_eq_some_iff.mp heq.symm
    rw [h.injOn (hx a rfl) (hy a' rfl) hcode.symm]

/-- A code of fixed length is self-delimiting as soon as it is injective. -/
theorem selfDelimiting_of_length {valid : α → Prop} {enc : α → List UInt8} {n : Nat}
    (hlen : ∀ a, (enc a).length = n) (hinj : ∀ a b, valid a → valid b → enc a = enc b → a = b) :
    SelfDelimiting valid enc := by
  intro a b s t ha hb hab
  have hl : (enc a).length = (enc b).length := by rw [hlen, hlen]
  obtain ⟨hcode, hrest⟩ := List.append_inj hab hl
  exact ⟨hinj a b ha hb hcode, hrest⟩

/-! ## Numbers -/

/-- The `w` lowest bytes of `n`, most significant first. -/
def bigEndian : Nat → Nat → List UInt8
  | 0, _ => []
  | w + 1, n => UInt8.ofNat (n / 256 ^ w) :: bigEndian w n

@[simp] theorem length_bigEndian (w n : Nat) : (bigEndian w n).length = w := by
  induction w with
  | zero => rfl
  | succ w ih => rw [bigEndian, List.length_cons, ih]

theorem mod_eq_of_bigEndian_eq {w n m : Nat} (h : bigEndian w n = bigEndian w m) :
    n % 256 ^ w = m % 256 ^ w := by
  induction w with
  | zero => simp [Nat.mod_one]
  | succ w ih =>
    obtain ⟨hhead, htail⟩ := List.cons.inj h
    have hdigit : n / 256 ^ w % 256 = m / 256 ^ w % 256 := by
      simpa using congrArg UInt8.toNat hhead
    rw [Nat.pow_succ, Nat.mod_mul, Nat.mod_mul, ih htail, hdigit]

theorem selfDelimiting_bigEndian (w : Nat) :
    SelfDelimiting (fun n => n < 256 ^ w) (bigEndian w) := by
  refine selfDelimiting_of_length (length_bigEndian w) fun n m hn hm h => ?_
  have := mod_eq_of_bigEndian_eq h
  rwa [Nat.mod_eq_of_lt hn, Nat.mod_eq_of_lt hm] at this

/-! ## Compositions -/

/-- One code after the other. -/
theorem SelfDelimiting.prod {va : α → Prop} {vb : β → Prop} {ea : α → List UInt8}
    {eb : β → List UInt8} (ha : SelfDelimiting va ea) (hb : SelfDelimiting vb eb) :
    SelfDelimiting (fun p : α × β => va p.1 ∧ vb p.2) fun p => ea p.1 ++ eb p.2 := by
  rintro ⟨a, b⟩ ⟨a', b'⟩ s t ⟨hva, hvb⟩ ⟨hva', hvb'⟩ h
  simp only [List.append_assoc] at h
  obtain ⟨rfl, hsnd⟩ := ha hva hva' h
  obtain ⟨rfl, hrest⟩ := hb hvb hvb' hsnd
  exact ⟨rfl, hrest⟩

/-- The code of an image of the value under an injective map. -/
theorem SelfDelimiting.comap {va : α → Prop} {vb : β → Prop} {eb : β → List UInt8} {f : α → β}
    (hb : SelfDelimiting vb eb) (hf : ∀ a, va a → vb (f a))
    (hinj : ∀ a b, va a → va b → f a = f b → a = b) : SelfDelimiting va fun a => eb (f a) := by
  intro a b s t ha hb' h
  obtain ⟨hab, hrest⟩ := hb (hf a ha) (hf b hb') h
  exact ⟨hinj a b ha hb' hab, hrest⟩

/-- The number of elements in `w` bytes, then the elements. -/
def counted (w : Nat) (enc : α → List UInt8) (l : List α) : List UInt8 :=
  bigEndian w l.length ++ l.flatMap enc

theorem flatMap_selfDelimiting {valid : α → Prop} {enc : α → List UInt8}
    (h : SelfDelimiting valid enc) {l l' : List α} {s t : List UInt8} (hlen : l.length = l'.length)
    (hl : ∀ a ∈ l, valid a) (hl' : ∀ a ∈ l', valid a)
    (heq : l.flatMap enc ++ s = l'.flatMap enc ++ t) : l = l' ∧ s = t := by
  induction l generalizing l' with
  | nil =>
    obtain rfl := List.length_eq_zero_iff.mp hlen.symm
    exact ⟨rfl, heq⟩
  | cons a l ih =>
    cases l' with
    | nil => cases hlen
    | cons b l' =>
      simp only [List.flatMap_cons, List.append_assoc] at heq
      obtain ⟨rfl, htail⟩ := h (hl a List.mem_cons_self) (hl' b List.mem_cons_self) heq
      obtain ⟨rfl, hrest⟩ := ih (Nat.succ.inj hlen) (fun x hx => hl x (List.mem_cons_of_mem a hx))
        (fun x hx => hl' x (List.mem_cons_of_mem a hx)) htail
      exact ⟨rfl, hrest⟩

theorem selfDelimiting_counted {valid : α → Prop} {enc : α → List UInt8} (w : Nat)
    (h : SelfDelimiting valid enc) :
    SelfDelimiting (fun l : List α => l.length < 256 ^ w ∧ ∀ a ∈ l, valid a) (counted w enc) := by
  rintro l l' s t ⟨hn, hl⟩ ⟨hn', hl'⟩ heq
  simp only [counted, List.append_assoc] at heq
  obtain ⟨hlen, helems⟩ := selfDelimiting_bigEndian w hn hn' heq
  exact flatMap_selfDelimiting h hlen hl hl' helems

theorem counted_map {γ : Type} (w : Nat) (enc : β → List UInt8) (f : γ → β) (l : List γ) :
    counted w (fun c => enc (f c)) l = counted w enc (l.map f) := by
  simp only [counted, List.length_map, List.flatMap_map]

/-- One byte. -/
theorem selfDelimiting_byte {f : α → UInt8} (hf : Function.Injective f) (valid : α → Prop) :
    SelfDelimiting valid fun a => [f a] :=
  selfDelimiting_of_length (fun _ => rfl) fun _ _ _ _ h => hf (List.cons.inj h).1

/-- A tag byte, then a code that may depend on the tag. -/
theorem selfDelimiting_tagged {tag : α → UInt8} (htag : Function.Injective tag)
    {valid : α → List UInt8 → Prop} (h : ∀ k, SelfDelimiting (valid k) id) :
    SelfDelimiting (fun p : α × List UInt8 => valid p.1 p.2) fun p => tag p.1 :: p.2 := by
  rintro ⟨k, body⟩ ⟨k', body'⟩ s t hk hk' heq
  simp only [List.cons_append, List.cons.injEq] at heq
  obtain rfl := htag heq.1
  obtain ⟨rfl, hrest⟩ := h k hk hk' heq.2
  exact ⟨rfl, hrest⟩

end Codec
