import Mathlib.Data.List.GetD
import Tsumugi.Capability.SetId
import Tsumugi.Engine.Hash

/-!
# The hashes are those of their standards, and bind their arguments

Results:
1. `sha256_bits`: the code's SHA-256 is that of FIPS 180-4, for every message;
2. `hmac_eq`: its HMAC is that of RFC 2104, for every key and message;
3. `selfDelimiting_node`, `identity_hashes_bind`: the bytes hashed for an import graph or a
   linked script determine it, and those of one kind are never those of the other.
-/

namespace Tsumugi.Hash

open Codec Fips180
open Tsumugi.Capability (utf8Bytes strField)
open Tsumugi.Capability.SetIdLemmas (selfDelimiting_strField)

/-! ## The constants -/

theorem primes_eq : primes = [
    2, 3, 5, 7, 11, 13, 17, 19, 23, 29, 31, 37, 41, 43, 47, 53, 59, 61, 67, 71, 73, 79, 83, 89,
    97, 101, 103, 107, 109, 113, 127, 131, 137, 139, 149, 151, 157, 163, 167, 173, 179, 181,
    191, 193, 197, 199, 211, 223, 227, 229, 233, 239, 241, 251, 257, 263, 269, 271, 277, 281,
    283, 293, 307, 311] := by
  have htrial : ∀ p, decide (Nat.Prime p) = decide (2 ≤ p ∧ ∀ m < p, 2 ≤ m → ¬ m ∣ p) := by
    intro p
    refine decide_eq_decide.mpr (Nat.prime_def_lt'.trans ?_)
    exact and_congr_right fun _ => forall_congr' fun m => ⟨fun h hlt hle => h hle hlt,
      fun h hle hlt => h hlt hle⟩
  simp only [primes, htrial]
  decide +kernel

theorem K_eq (t : Nat) (ht : t < 64) : K.getD t 0 = constant t := by
  have htable : K = (List.range 64).map fun t => fractionWord 3 (primes.getD t 0) := by
    rw [primes_eq]
    decide +kernel
  rw [htable, List.getD_eq_getElem _ _ (by simpa using ht), List.getElem_map, List.getElem_range,
    constant]

theorem H0_eq : H0 = initial := by
  simp only [initial, primes_eq]
  decide +kernel

/-! ## The rounds of a block -/

theorem rotateRight_eq (x : Word) {n : Nat} (hn : n < 32) : x.rotateRight n = rotr n x := by
  rw [BitVec.rotateRight_def, Nat.mod_eq_of_lt hn, rotr]

theorem round_eq (w : List U32) (v : Working) (i : Nat) (hi : i < 64) :
    round w v i = step (constant i) (w.getD i 0) v := by
  simp (disch := decide) only [round, step, rotateRight_eq, K_eq i hi, ch, maj, bigSigma0,
    bigSigma1]

/-- The loop over the rounds, by the words it reads. -/
theorem rounds_loop {w : List U32} {W : Nat → Word} (hw : ∀ t < 64, w.getD t 0 = W t)
    (v : Working) (n : Nat) (hn : n ≤ 64) :
    (List.range n).foldl (round w) v = rounds W v n := by
  induction n with
  | zero => rfl
  | succ n ih =>
    rw [List.range_succ, List.foldl_append, ih (Nat.le_of_succ_le hn), List.foldl_cons,
      List.foldl_nil, round_eq w _ n hn, hw n hn, rounds]

/-! ## The schedule of a block -/

theorem getD_set {w : List U32} {i : Nat} (hi : i < w.length) (x : U32) (t : Nat) :
    (w.set i x).getD t 0 = if i = t then x else w.getD t 0 := by
  simp only [List.getD_eq_getElem?_getD, List.getElem?_set, if_pos hi]
  split <;> rfl

/-- A loop that sets one word after the other has set those before `n`, when each step sets
the word of its index to what `value` says of it, given the words before. -/
theorem foldl_set_spec (start : Nat) (value : Nat → U32) {f : List U32 → Nat → List U32}
    (hstep : ∀ w i, start ≤ i → i < w.length → (∀ t < i, w.getD t 0 = value t) →
      f w i = w.set i (value i))
    {w : List U32} (hw : ∀ t < start, w.getD t 0 = value t) (n : Nat)
    (hn : start + n ≤ w.length) :
    ((List.range' start n).foldl f w).length = w.length ∧
      ∀ t < start + n, ((List.range' start n).foldl f w).getD t 0 = value t := by
  induction n with
  | zero => exact ⟨rfl, hw⟩
  | succ n ih =>
    obtain ⟨hlen, hset⟩ := ih (by omega)
    have hlt : start + n < ((List.range' start n).foldl f w).length := by omega
    rw [List.range'_concat, Nat.one_mul, List.foldl_append, List.foldl_cons, List.foldl_nil,
      hstep _ _ (Nat.le_add_right _ _) hlt hset]
    refine ⟨by rw [List.length_set, hlen], fun t ht => ?_⟩
    rw [getD_set hlt]
    split
    next h => rw [h]
    next h => exact hset t (by omega)

/-- The word with the index `t`, as the code reads it from the chunk. -/
def chunkWord (chunk : List UInt8) (t : Nat) : U32 :=
  fromBeBytes (chunk.getD (t * 4) 0) (chunk.getD (t * 4 + 1) 0) (chunk.getD (t * 4 + 2) 0)
    (chunk.getD (t * 4 + 3) 0)

theorem schedule_of_lt (M : Nat → Word) {t : Nat} (ht : t < 16) : schedule M t = M t := by
  rw [schedule, if_pos ht]

theorem schedule_of_le (M : Nat → Word) {t : Nat} (ht : 16 ≤ t) : schedule M t =
    smallSigma1 (schedule M (t - 2)) + schedule M (t - 7) + smallSigma0 (schedule M (t - 15)) +
      schedule M (t - 16) := by
  rw [schedule, if_neg (Nat.not_lt.mpr ht)]

theorem loadWords_spec (chunk : List UInt8) :
    (loadWords chunk (List.replicate 64 0)).length = 64 ∧
      ∀ t < 16, (loadWords chunk (List.replicate 64 0)).getD t 0 =
        schedule (chunkWord chunk) t := by
  have h := foldl_set_spec 0 (chunkWord chunk)
    (f := fun w i => w.set i (chunkWord chunk i)) (w := List.replicate 64 0)
    (fun _ _ _ _ _ => rfl) (fun _ ht => absurd ht (Nat.not_lt_zero _)) 16 (by decide)
  rw [← List.range_eq_range'] at h
  exact ⟨h.1, fun t ht => (h.2 t ht).trans (schedule_of_lt _ ht).symm⟩

theorem extendWord_eq {w : List U32} {M : Nat → Word} {i : Nat} (hi : 16 ≤ i)
    (hw : ∀ t < i, w.getD t 0 = schedule M t) : extendWord w i = w.set i (schedule M i) := by
  have hread : ∀ k, 0 < k → w.getD (i - k) 0 = schedule M (i - k) := fun k hk => hw _ (by omega)
  simp (disch := decide) only [extendWord, hread, rotateRight_eq, schedule_of_le M hi,
    smallSigma0, smallSigma1, shr]
  congr 1
  ac_rfl

theorem words_spec (chunk : List UInt8) (t : Nat) (ht : t < 64) :
    (extendWords (loadWords chunk (List.replicate 64 0))).getD t 0 =
      schedule (chunkWord chunk) t := by
  obtain ⟨hlen, hload⟩ := loadWords_spec chunk
  exact (foldl_set_spec 16 _ (fun _ _ hi _ hw => extendWord_eq hi hw) hload 48
    (by rw [hlen])).2 t ht

/-! ## Blocks -/

/-- The words of a block of 64 bytes are those of its bits. -/
theorem chunkWord_eq {chunk : List UInt8} (hlen : chunk.length = 64) {t : Nat} (ht : t < 16) :
    chunkWord chunk t = word (bitsOfBytes chunk) t := by
  have hword : (chunk.drop (4 * t)).take 4 = [chunk.getD (t * 4) 0, chunk.getD (t * 4 + 1) 0,
      chunk.getD (t * 4 + 2) 0, chunk.getD (t * 4 + 3) 0] := by
    rw [Nat.mul_comm, List.getD_eq_getElem _ _ (by omega), List.getD_eq_getElem _ _ (by omega),
      List.getD_eq_getElem _ _ (by omega), List.getD_eq_getElem _ _ (by omega),
      List.drop_eq_getElem_cons (by omega), List.drop_eq_getElem_cons (by omega),
      List.drop_eq_getElem_cons (by omega), List.drop_eq_getElem_cons (by omega)]
    rfl
  have hbits : ((bitsOfBytes chunk).drop (32 * t)).take 32 =
      bitsOfBytes ((chunk.drop (4 * t)).take 4) := by
    rw [← bitsOfBytes_take, ← bitsOfBytes_drop, ← Nat.mul_assoc]
  rw [word, hbits, valueOf_bitsOfBytes, hword, chunkWord, fromBeBytes]
  simp only [List.foldl_cons, List.foldl_nil, Nat.zero_mul, Nat.zero_add]

theorem schedule_congr {M M' : Nat → Word} (h : ∀ t < 16, M t = M' t) (t : Nat) :
    schedule M t = schedule M' t := by
  induction t using Nat.strongRecOn with
  | ind t ih =>
    by_cases ht : t < 16
    · rw [schedule_of_lt M ht, schedule_of_lt M' ht, h t ht]
    · have hle := Nat.le_of_not_lt ht
      rw [schedule_of_le M hle, schedule_of_le M' hle, ih (t - 2) (by omega),
        ih (t - 7) (by omega), ih (t - 15) (by omega), ih (t - 16) (by omega)]

/-- A block of the code is one of the standard. -/
theorem processChunk_eq (h : Working) {chunk : List UInt8} (hlen : chunk.length = 64) :
    processChunk h chunk = compress h (bitsOfBytes chunk) := by
  have hwords : ∀ t < 64, (extendWords (loadWords chunk (List.replicate 64 0))).getD t 0 =
      schedule (word (bitsOfBytes chunk)) t := fun t ht =>
    (words_spec chunk t ht).trans (schedule_congr (fun t ht => chunkWord_eq hlen ht) t)
  simp only [processChunk, compress, rounds_loop hwords h 64 Nat.le.refl]
  simp only [BitVec.add_comm]

/-! ## Padding -/

theorem padZeros_eq (msg : List UInt8) :
    padZeros msg = msg ++ List.replicate ((120 - msg.length % 64) % 64) 0 := by
  induction msg using padZeros.induct with
  | case1 msg h ih =>
    have hlen : (120 - msg.length % 64) % 64 =
        (120 - (msg ++ [0]).length % 64) % 64 + 1 := by
      simp only [List.length_append, List.length_singleton]
      omega
    rw [padZeros, if_pos h, ih, hlen, List.replicate_succ, List.append_assoc]
    rfl
  | case2 msg h =>
    have hlen : msg.length % 64 = 56 := by omega
    rw [padZeros, if_neg h, hlen]
    exact (List.append_nil msg).symm

theorem bitsOfBytes_zeros (n : Nat) :
    bitsOfBytes (List.replicate n 0) = List.replicate (8 * n) false := by
  induction n with
  | zero => rfl
  | succ n ih =>
    rw [List.replicate_succ, Nat.mul_succ, Nat.add_comm, List.replicate_add, ← ih]
    rfl

/-- The padding of the code is that of the standard. -/
theorem bits_padMessage (data : List UInt8) :
    bitsOfBytes (padMessage data) = padded (bitsOfBytes data) := by
  have hzeros : zeros (8 * data.length) = 7 + 8 * ((120 - (data.length + 1) % 64) % 64) := by
    unfold zeros
    omega
  have hlength : bitsOf 64 (data.length * 8 % 2 ^ 64) = bitsOf 64 (8 * data.length) := by
    rw [bitsOf_mod Nat.le.refl, Nat.mul_comm]
  rw [padMessage, padZeros_eq, bitsOfBytes_append, bitsOfBytes_append, bitsOfBytes_append,
    bitsOfBytes_zeros, bitsOfBytes_bigEndian, hlength, padded, length_bitsOfBytes, hzeros,
    List.replicate_add, List.length_append, List.length_singleton]
  simp only [List.append_assoc]
  rfl

/-! ## The hash -/

theorem chunks_loop (msg : List UInt8) (h : Working) :
    (asChunks msg).foldl processChunk h =
      (List.range ((bitsOfBytes msg).length / 512)).foldl
        (fun H i => compress H (block (bitsOfBytes msg) i)) h := by
  have hcount : (bitsOfBytes msg).length / 512 = msg.length / 64 := by
    rw [length_bitsOfBytes]
    omega
  rw [asChunks, List.foldl_map, hcount]
  refine List.foldl_ext _ _ _ fun H i hi => ?_
  have hlt := List.mem_range.mp hi
  have hlen : ((msg.drop (64 * i)).take 64).length = 64 := by
    rw [List.length_take, List.length_drop]
    omega
  rw [processChunk_eq H hlen, ← bitsOfBytes_take, ← bitsOfBytes_drop, ← Nat.mul_assoc]
  rfl

theorem bits_output (h : Working) : bitsOfBytes (output h) = h.bits := by
  simp only [output, Working.bits, List.flatMap_cons, List.flatMap_nil, bitsOfBytes_append,
    bitsOfBytes_bigEndian]
  rfl

/-- For every message, the bits of the hash are the hash of its bits. -/
theorem sha256_bits (data : List UInt8) :
    bitsOfBytes (sha256 data) = Fips180.sha256 (bitsOfBytes data) := by
  rw [sha256, bits_output, chunks_loop, bits_padMessage, H0_eq]
  rfl

-- The message "abc" of the standard.
example : sha256 [0x61, 0x62, 0x63] = [
    0xba, 0x78, 0x16, 0xbf, 0x8f, 0x01, 0xcf, 0xea, 0x41, 0x41, 0x40, 0xde, 0x5d, 0xae, 0x22,
    0x23, 0xb0, 0x03, 0x61, 0xa3, 0x96, 0x17, 0x7a, 0x9c, 0xb4, 0x10, 0xff, 0x61, 0xf2, 0x00,
    0x15, 0xad] := by decide +kernel

theorem length_sha256 (data : List UInt8) : (sha256 data).length = 32 := by
  simp [sha256, output]

/-! ## The keyed hash -/

theorem length_hmacBlock (key : List UInt8) : (hmacBlock key).length = hmacBlockSize := by
  rw [hmacBlock]
  split
  next h => simp [copyInto, length_sha256, hmacBlockSize]
  next h => simp [copyInto]; omega

/-- The key of the code, filled with zeros, is that of the standard. -/
theorem hmacBlock_eq (key : List UInt8) :
    hmacBlock key = (if key.length > 64 then sha256 key else key) ++
      List.replicate (64 - (if key.length > 64 then sha256 key else key).length) 0 := by
  rw [hmacBlock, hmacBlockSize]
  split <;> simp only [copyInto, List.drop_replicate]

theorem zipWith_replicate (f : UInt8 → UInt8 → UInt8) (b : UInt8) (l : List UInt8) :
    List.zipWith f (List.replicate l.length b) l = l.map (f b) := by
  induction l with
  | nil => rfl
  | cons a l ih => rw [List.length_cons, List.replicate_succ, List.zipWith_cons_cons, ih]; rfl

/-- For every key and message, the keyed hash is that of RFC 2104. -/
theorem hmac_eq (key message : List UInt8) :
    hmacSha256 key message = hmac sha256 64 key message := by
  have hpad : ∀ b, List.zipWith (· ^^^ ·) (List.replicate hmacBlockSize b) (hmacBlock key) =
      (hmacBlock key).map (· ^^^ b) := by
    intro b
    rw [← length_hmacBlock key, zipWith_replicate]
    simp only [UInt8.xor_comm]
  simp only [hmacSha256, hpad, hmac, ← hmacBlock_eq]

/-! ## The identity of a script -/

theorem asStr_injective : Function.Injective Audit.LanguageRevision.asStr := by
  intro a b
  cases a <;> cases b <;> decide

/-- What a Rust `usize` and its slices guarantee of the lengths of a list of names. -/
def NamesFit (names : List String) : Prop :=
  names.length < 256 ^ 8 ∧ ∀ name ∈ names, name.utf8ByteSize < 256 ^ 8

def GraphNode.Fits (node : GraphNode) : Prop :=
  node.moduleId.utf8ByteSize < 256 ^ 8 ∧ NamesFit node.imports

/-- The lengths of the graph are lengths of slices. -/
def ImportGraph.Fits (g : ImportGraph) : Prop :=
  NamesFit g.rootImports ∧ g.nodes.length < 256 ^ 8 ∧ ∀ node ∈ g.nodes, node.Fits

theorem selfDelimiting_revision :
    SelfDelimiting (fun _ => True) fun r : Audit.LanguageRevision => strField r.asStr :=
  selfDelimiting_strField.comap (fun r _ => by cases r <;> decide)
    fun _ _ _ _ h => asStr_injective h

theorem selfDelimiting_hash : SelfDelimiting (fun _ => True) SourceHash.bytes :=
  selfDelimiting_of_length SourceHash.length_bytes fun a b _ _ h => by
    cases a
    cases b
    cases h
    rfl

theorem selfDelimiting_names : SelfDelimiting NamesFit (counted 8 strField) :=
  selfDelimiting_counted 8 selfDelimiting_strField

theorem selfDelimiting_node : SelfDelimiting GraphNode.Fits nodeBytes := by
  have h : SelfDelimiting GraphNode.Fits _ :=
    ((selfDelimiting_strField.prod selfDelimiting_hash).prod selfDelimiting_names).comap
    (f := fun node : GraphNode => ((node.moduleId, node.sourceHash), node.imports))
    (fun node hnode => ⟨⟨hnode.1, trivial⟩, hnode.2⟩) ?_
  · exact h
  · rintro ⟨id, hash, imports⟩ ⟨id', hash', imports'⟩ - - heq
    cases heq
    rfl

theorem selfDelimiting_importGraph : SelfDelimiting ImportGraph.Fits importGraphBytes := by
  have hfields : SelfDelimiting ImportGraph.Fits _ :=
    (((selfDelimiting_revision.prod selfDelimiting_hash).prod selfDelimiting_names).prod
      (selfDelimiting_counted 8 selfDelimiting_node)).comap
      (f := fun g : ImportGraph => (((g.revision, g.rootHash), g.rootImports), g.nodes))
      (fun g hg => ⟨⟨⟨trivial, trivial⟩, hg.1⟩, hg.2⟩) ?_
  · intro g g' s t hg hg' heq
    simp only [importGraphBytes, List.append_assoc, List.append_cancel_left_eq] at heq
    exact hfields hg hg' (by simpa only [List.append_assoc] using heq)
  · rintro ⟨r, h, i, n⟩ ⟨r', h', i', n'⟩ - - heq
    cases heq
    rfl

theorem selfDelimiting_linkedScript :
    SelfDelimiting (fun _ => True) linkedScriptBytes := by
  have hfields : SelfDelimiting (fun _ => True) _ :=
    ((selfDelimiting_revision.prod selfDelimiting_hash).prod selfDelimiting_hash).comap
      (f := fun l : LinkedScript => ((l.revision, l.rootHash), l.graphHash))
      (fun _ _ => ⟨⟨trivial, trivial⟩, trivial⟩) ?_
  · intro l l' s t hl hl' heq
    simp only [linkedScriptBytes, List.append_assoc, List.append_cancel_left_eq] at heq
    exact hfields hl hl' (by simpa only [List.append_assoc] using heq)
  · rintro ⟨r, h, g⟩ ⟨r', h', g'⟩ - - heq
    cases heq
    rfl

/-- The ninth byte of the magic tells the two kinds apart. -/
theorem importGraphBytes_ne (g : ImportGraph) (l : LinkedScript) :
    importGraphBytes g ≠ linkedScriptBytes l := by
  intro h
  have hmagic := congrArg (fun bytes => bytes[8]?) h
  have hgraph : (utf8Bytes "TSUMUGI-IMPORT-GRAPH-V1\x00")[8]? = some 73 := by decide
  have hscript : (utf8Bytes "TSUMUGI-LINKED-SCRIPT-V1\x00")[8]? = some 76 := by decide
  simp only [importGraphBytes, linkedScriptBytes, List.append_assoc,
    List.getElem?_append_left (show 8 < (utf8Bytes "TSUMUGI-IMPORT-GRAPH-V1\x00").length by decide),
    List.getElem?_append_left (show 8 < (utf8Bytes "TSUMUGI-LINKED-SCRIPT-V1\x00").length by decide),
    hgraph, hscript] at hmagic
  exact absurd hmagic (by decide)

/-- The bytes hashed for a graph determine the graph and those hashed for a linked script the
script, none is hashed for both, and the hashes are SHA-256 and HMAC by their standards. -/
theorem identity_hashes_bind :
    (∀ g g' : ImportGraph, g.Fits → g'.Fits → importGraphBytes g = importGraphBytes g' → g = g') ∧
    (∀ l l' : LinkedScript, linkedScriptBytes l = linkedScriptBytes l' → l = l') ∧
    (∀ (g : ImportGraph) (l : LinkedScript), importGraphBytes g ≠ linkedScriptBytes l) ∧
    (∀ g : ImportGraph,
      bitsOfBytes (importGraphHash g) = Fips180.sha256 (bitsOfBytes (importGraphBytes g))) ∧
    (∀ l : LinkedScript,
      bitsOfBytes (linkedScriptHash l) = Fips180.sha256 (bitsOfBytes (linkedScriptBytes l))) ∧
    (∀ data : List UInt8, bitsOfBytes (sha256 data) = Fips180.sha256 (bitsOfBytes data)) ∧
    (∀ key message : List UInt8, hmacSha256 key message = hmac sha256 64 key message) := by
  refine ⟨fun _ _ hg hg' => selfDelimiting_importGraph.injOn hg hg',
    fun _ _ => selfDelimiting_linkedScript.injOn trivial trivial, importGraphBytes_ne,
    fun g => sha256_bits _, fun l => sha256_bits _, sha256_bits, hmac_eq⟩

/-- A graph without nodes that imports the names. -/
def importing (names : List String) : ImportGraph where
  revision := .v0_21
  rootHash := ⟨List.replicate 32 0, rfl⟩
  rootImports := names
  nodes := []

/-- Moving a character over the boundary of two names changes the bytes. -/
theorem boundary_encoded :
    importGraphBytes (importing ["ab", "c"]) ≠ importGraphBytes (importing ["a", "bc"]) := fun h =>
  absurd (identity_hashes_bind.1 (importing ["ab", "c"]) (importing ["a", "bc"])
    ⟨⟨by decide, by decide⟩, by decide, nofun⟩ ⟨⟨by decide, by decide⟩, by decide, nofun⟩ h)
    (by decide)

end Tsumugi.Hash
