import Tsumugi.Lib.Codec

/-!
# Deterministic CBOR

Data items of definite length, with every argument in its shortest form. The first byte of an
item holds its major type and how wide its argument is, so that an item ends where it ends.

Results:
1. `head_delimits`: a head tells its major type and its argument.
2. `Item.code_delimits`: items are self-delimiting.
-/

namespace Cbor

open Codec

/-! ## Heads -/

/-- How many bytes of the argument follow the first byte. -/
def width (arg : Nat) : Nat :=
  if arg < 24 then 0 else if arg < 2 ^ 8 then 1 else if arg < 2 ^ 16 then 2
  else if arg < 2 ^ 32 then 4 else 8

/-- The low five bits of the first byte: the argument, or a mark of its width. -/
def low (arg : Nat) : Nat :=
  if arg < 24 then arg else if arg < 2 ^ 8 then 24 else if arg < 2 ^ 16 then 25
  else if arg < 2 ^ 32 then 26 else 27

def head (major arg : Nat) : List UInt8 :=
  UInt8.ofNat (32 * major + low arg) :: bigEndian (width arg) arg

theorem low_lt (arg : Nat) : low arg < 28 := by
  unfold low
  split_ifs <;> omega

theorem width_eq_of_low {a b : Nat} (h : low a = low b) : width a = width b := by
  unfold low at h
  unfold width
  split_ifs at h ⊢ <;> omega

theorem lt_pow_width {a : Nat} (ha : a < 2 ^ 64) (h : 24 ≤ a) : a < 256 ^ width a := by
  unfold width
  split_ifs <;> omega

/-- Arguments below 24 stand in the first byte, all others in the bytes that follow. -/
theorem arg_eq {a b : Nat} (ha : a < 2 ^ 64) (hb : b < 2 ^ 64) (hlow : low a = low b)
    (hmod : a % 256 ^ width a = b % 256 ^ width b) : a = b := by
  by_cases hsmall : a < 24 ∨ b < 24
  · unfold low at hlow
    split_ifs at hlow <;> omega
  · obtain ⟨hasmall, hbsmall⟩ := not_or.mp hsmall
    rwa [Nat.mod_eq_of_lt (lt_pow_width ha (Nat.not_lt.mp hasmall)),
      Nat.mod_eq_of_lt (lt_pow_width hb (Nat.not_lt.mp hbsmall))] at hmod

theorem head_delimits :
    SelfDelimiting (fun p : Nat × Nat => p.1 < 8 ∧ p.2 < 2 ^ 64) fun p => head p.1 p.2 := by
  rintro ⟨m, a⟩ ⟨n, b⟩ s t ⟨hm, ha⟩ ⟨hn, hb⟩ h
  simp only [head, List.cons_append, List.cons.injEq] at h hm hn ha hb
  have hbyte : (32 * m + low a) % 256 = (32 * n + low b) % 256 := by
    simpa using congrArg UInt8.toNat h.1
  have hla := low_lt a
  have hlb := low_lt b
  have hlow : low a = low b := by omega
  obtain rfl : m = n := by omega
  have hwidth := width_eq_of_low hlow
  obtain ⟨hcode, hrest⟩ := List.append_inj h.2 (by simp only [length_bigEndian, hwidth])
  rw [← hwidth] at hcode
  obtain rfl := arg_eq ha hb hlow (hwidth ▸ mod_eq_of_bigEndian_eq hcode)
  exact ⟨rfl, hrest⟩

/-! ## Items -/

/-- A data item. A text is given by its UTF-8 bytes, and `negative n` is `-1 - n`. -/
inductive Item
  | uint (n : Nat)
  | negative (n : Nat)
  | bytes (b : List UInt8)
  | text (b : List UInt8)
  | array (items : List Item)
  | bool (b : Bool)

mutual

def Item.code : Item → List UInt8
  | .uint n => head 0 n
  | .negative n => head 1 n
  | .bytes b => head 2 b.length ++ b
  | .text b => head 3 b.length ++ b
  | .array items => head 4 items.length ++ codes items
  | .bool b => head 7 (if b then 21 else 20)

def codes : List Item → List UInt8
  | [] => []
  | item :: rest => item.code ++ codes rest

end

mutual

/-- Every number and every length fits into 64 bits. -/
def Item.Fits : Item → Prop
  | .uint n | .negative n => n < 2 ^ 64
  | .bytes b | .text b => b.length < 2 ^ 64
  | .array items => items.length < 2 ^ 64 ∧ FitAll items
  | .bool _ => True

def FitAll : List Item → Prop
  | [] => True
  | item :: rest => item.Fits ∧ FitAll rest

end

namespace Item

/-- The major type. -/
def major : Item → Nat
  | uint _ => 0
  | negative _ => 1
  | bytes _ => 2
  | text _ => 3
  | array _ => 4
  | bool _ => 7

def arg : Item → Nat
  | uint n | negative n => n
  | bytes b | text b => b.length
  | array items => items.length
  | bool b => if b then 21 else 20

/-- What follows the head. -/
def body : Item → List UInt8
  | uint _ | negative _ | bool _ => []
  | bytes b | text b => b
  | array items => codes items

theorem code_eq (a : Item) : a.code = head a.major a.arg ++ a.body := by
  cases a <;> simp [code, major, arg, body]

theorem Fits.arg_lt {a : Item} (h : a.Fits) : a.arg < 2 ^ 64 := by
  cases a with
  | array items => exact h.1
  | bool b => cases b <;> decide
  | _ => exact h

theorem major_lt (a : Item) : a.major < 8 := by cases a <;> simp [major]

/-- The heads agree, and what follows them. -/
theorem head_eq {a b : Item} {s t : List UInt8} (ha : a.Fits) (hb : b.Fits)
    (h : a.code ++ s = b.code ++ t) :
    a.major = b.major ∧ a.arg = b.arg ∧ a.body ++ s = b.body ++ t := by
  rw [code_eq, code_eq, List.append_assoc, List.append_assoc] at h
  obtain ⟨heq, hrest⟩ := head_delimits (a := (a.major, a.arg)) (b := (b.major, b.arg))
    ⟨a.major_lt, ha.arg_lt⟩ ⟨b.major_lt, hb.arg_lt⟩ h
  exact ⟨(Prod.mk.inj heq).1, (Prod.mk.inj heq).2, hrest⟩

end Item

mutual

theorem Item.code_delimits_aux : ∀ (a b : Item) {s t : List UInt8}, a.Fits → b.Fits →
    a.code ++ s = b.code ++ t → a = b ∧ s = t
  | a, b, s, t, ha, hb, h => by
    obtain ⟨hmajor, harg, hbody⟩ := Item.head_eq ha hb h
    cases a with
    | uint n => cases b <;> simp_all [Item.major, Item.arg, Item.body]
    | negative n => cases b <;> simp_all [Item.major, Item.arg, Item.body]
    | bytes u =>
      cases b with
      | bytes v =>
        obtain ⟨rfl, hrest⟩ := List.append_inj hbody harg
        exact ⟨rfl, hrest⟩
      | _ => cases hmajor
    | text u =>
      cases b with
      | text v =>
        obtain ⟨rfl, hrest⟩ := List.append_inj hbody harg
        exact ⟨rfl, hrest⟩
      | _ => cases hmajor
    | array xs =>
      cases b with
      | array ys =>
        obtain ⟨rfl, hrest⟩ := codes_delimit xs ys ha.2 hb.2 harg hbody
        exact ⟨rfl, hrest⟩
      | _ => cases hmajor
    | bool u =>
      cases b with
      | bool v => cases u <;> cases v <;> simp_all [Item.arg, Item.body]
      | _ => cases hmajor

theorem codes_delimit : ∀ (xs ys : List Item) {s t : List UInt8}, FitAll xs → FitAll ys →
    xs.length = ys.length → codes xs ++ s = codes ys ++ t → xs = ys ∧ s = t
  | [], [], _, _, _, _, _, h => ⟨rfl, by simpa only [codes, List.nil_append] using h⟩
  | x :: xs, y :: ys, s, t, hx, hy, hlen, h => by
    simp only [codes, List.append_assoc] at h
    obtain ⟨rfl, hrest⟩ := Item.code_delimits_aux x y hx.1 hy.1 h
    obtain ⟨rfl, hend⟩ := codes_delimit xs ys hx.2 hy.2 (Nat.succ.inj hlen) hrest
    exact ⟨rfl, hend⟩

end

theorem Item.code_delimits : SelfDelimiting Item.Fits Item.code :=
  fun a b _ _ ha hb h => Item.code_delimits_aux a b ha hb h

theorem Item.code_ne_nil (a : Item) : a.code ≠ [] := by
  rw [Item.code_eq]
  exact List.cons_ne_nil _ _

/-- So items may be written one after the other. -/
theorem codes_injective {xs ys : List Item} (hx : FitAll xs) (hy : FitAll ys)
    (h : codes xs = codes ys) : xs = ys := by
  induction xs generalizing ys with
  | nil =>
    cases ys with
    | nil => rfl
    | cons y ys => exact absurd (List.append_eq_nil_iff.mp h.symm).1 y.code_ne_nil
  | cons x xs ih =>
    cases ys with
    | nil => exact absurd (List.append_eq_nil_iff.mp h).1 x.code_ne_nil
    | cons y ys =>
      obtain ⟨rfl, hrest⟩ := Item.code_delimits hx.1 hy.1 h
      rw [ih hx.2 hy.2 hrest]

end Cbor
