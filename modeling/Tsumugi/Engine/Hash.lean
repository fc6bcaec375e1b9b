import Tsumugi.Audit.Facade
import Tsumugi.Capability.Set
import Tsumugi.Lib.Fips180

/-!
# The hashes of the engine

SHA-256 as the module `hash` computes it, HMAC as the audit redaction computes it, and the
two byte strings that identify an import graph and a linked script.

A slice is shorter than `2 ^ 64` bytes, so that `as u64` keeps its length.
-/

namespace Tsumugi.Hash

open Codec
open Fips180 (Working)
open Tsumugi.Capability (utf8Bytes strField)

/-- `u32`. -/
abbrev U32 := BitVec 32

/-- The round constants. -/
def K : List U32 := [
  0x428a2f98, 0x71374491, 0xb5c0fbcf, 0xe9b5dba5, 0x3956c25b, 0x59f111f1, 0x923f82a4,
  0xab1c5ed5, 0xd807aa98, 0x12835b01, 0x243185be, 0x550c7dc3, 0x72be5d74, 0x80deb1fe,
  0x9bdc06a7, 0xc19bf174, 0xe49b69c1, 0xefbe4786, 0x0fc19dc6, 0x240ca1cc, 0x2de92c6f,
  0x4a7484aa, 0x5cb0a9dc, 0x76f988da, 0x983e5152, 0xa831c66d, 0xb00327c8, 0xbf597fc7,
  0xc6e00bf3, 0xd5a79147, 0x06ca6351, 0x14292967, 0x27b70a85, 0x2e1b2138, 0x4d2c6dfc,
  0x53380d13, 0x650a7354, 0x766a0abb, 0x81c2c92e, 0x92722c85, 0xa2bfe8a1, 0xa81a664b,
  0xc24b8b70, 0xc76c51a3, 0xd192e819, 0xd6990624, 0xf40e3585, 0x106aa070, 0x19a4c116,
  0x1e376c08, 0x2748774c, 0x34b0bcb5, 0x391c0cb3, 0x4ed8aa4a, 0x5b9cca4f, 0x682e6ff3,
  0x748f82ee, 0x78a5636f, 0x84c87814, 0x8cc70208, 0x90befffa, 0xa4506ceb, 0xbef9a3f7,
  0xc67178f2]

/-- The initial state; `[u32; 8]` by its eight words. -/
def H0 : Working where
  a := 0x6a09e667
  b := 0xbb67ae85
  c := 0x3c6ef372
  d := 0xa54ff53a
  e := 0x510e527f
  f := 0x9b05688c
  g := 0x1f83d9ab
  h := 0x5be0cd19

/-! ## `sha256` -/

/-- `while msg.len() % 64 != 56 { msg.push(0) }`. -/
def padZeros (msg : List UInt8) : List UInt8 :=
  if msg.length % 64 ≠ 56 then padZeros (msg ++ [0]) else msg
termination_by (120 - msg.length % 64) % 64
decreasing_by
  simp only [List.length_append, List.length_singleton]
  omega

/-- The message with its padding. -/
def padMessage (data : List UInt8) : List UInt8 :=
  let bitLen := data.length * 8 % 2 ^ 64
  padZeros (data ++ [0x80]) ++ bigEndian 8 bitLen

/-- `as_chunks::<64>`, without the rest. -/
def asChunks (msg : List UInt8) : List (List UInt8) :=
  (List.range (msg.length / 64)).map fun i => (msg.drop (64 * i)).take 64

/-- `u32::from_be_bytes`. -/
def fromBeBytes (b0 b1 b2 b3 : UInt8) : U32 :=
  BitVec.ofNat 32 (((b0.toNat * 256 + b1.toNat) * 256 + b2.toNat) * 256 + b3.toNat)

/-- The words of the chunk, into the first sixteen places. -/
def loadWords (chunk : List UInt8) (w : List U32) : List U32 :=
  (List.range 16).foldl (fun w i =>
    let j := i * 4
    w.set i (fromBeBytes (chunk.getD j 0) (chunk.getD (j + 1) 0) (chunk.getD (j + 2) 0)
      (chunk.getD (j + 3) 0))) w

/-- One further word. -/
def extendWord (w : List U32) (i : Nat) : List U32 :=
  let s0 := (w.getD (i - 15) 0).rotateRight 7 ^^^ (w.getD (i - 15) 0).rotateRight 18 ^^^
    (w.getD (i - 15) 0 >>> 3)
  let s1 := (w.getD (i - 2) 0).rotateRight 17 ^^^ (w.getD (i - 2) 0).rotateRight 19 ^^^
    (w.getD (i - 2) 0 >>> 10)
  w.set i (w.getD (i - 16) 0 + s0 + w.getD (i - 7) 0 + s1)

/-- The other forty-eight words. -/
def extendWords (w : List U32) : List U32 := (List.range' 16 48).foldl extendWord w

/-- One round. -/
def round (w : List U32) (v : Working) (i : Nat) : Working :=
  let s1 := v.e.rotateRight 6 ^^^ v.e.rotateRight 11 ^^^ v.e.rotateRight 25
  let ch := (v.e &&& v.f) ^^^ (~~~v.e &&& v.g)
  let t1 := v.h + s1 + ch + K.getD i 0 + w.getD i 0
  let s0 := v.a.rotateRight 2 ^^^ v.a.rotateRight 13 ^^^ v.a.rotateRight 22
  let maj := (v.a &&& v.b) ^^^ (v.a &&& v.c) ^^^ (v.b &&& v.c)
  let t2 := s0 + maj
  { h := v.g, g := v.f, f := v.e, e := v.d + t1, d := v.c, c := v.b, b := v.a, a := t1 + t2 }

/-- One block. -/
def processChunk (h : Working) (chunk : List UInt8) : Working :=
  let w := extendWords (loadWords chunk (List.replicate 64 0))
  let v := (List.range 64).foldl (round w) h
  ⟨h.a + v.a, h.b + v.b, h.c + v.c, h.d + v.d, h.e + v.e, h.f + v.f, h.g + v.g, h.h + v.h⟩

/-- The words by `to_be_bytes`. -/
def output (h : Working) : List UInt8 :=
  [h.a, h.b, h.c, h.d, h.e, h.f, h.g, h.h].flatMap fun word => bigEndian 4 word.toNat

/-- `sha256`. -/
def sha256 (data : List UInt8) : List UInt8 :=
  output ((asChunks (padMessage data)).foldl processChunk H0)

/-! ## `hmac_sha256` -/

/-- `HMAC_BLOCK_SIZE`. -/
def hmacBlockSize : Nat := 64

/-- `block[..src.len()].copy_from_slice(src)`. -/
def copyInto (block src : List UInt8) : List UInt8 := src ++ block.drop src.length

/-- The key, normalised to the block size. -/
def hmacBlock (key : List UInt8) : List UInt8 :=
  let block := List.replicate hmacBlockSize 0
  if key.length > hmacBlockSize then copyInto block (sha256 key) else copyInto block key

/-- `hmac_sha256`. -/
def hmacSha256 (key message : List UInt8) : List UInt8 :=
  let block := hmacBlock key
  let ipad := List.zipWith (· ^^^ ·) (List.replicate hmacBlockSize 0x36) block
  let opad := List.zipWith (· ^^^ ·) (List.replicate hmacBlockSize 0x5c) block
  let inner := sha256 (ipad ++ message)
  sha256 (opad ++ inner)

/-! ## Script identity -/

/-- `SourceHash`, `[u8; 32]`. -/
structure SourceHash where
  bytes : List UInt8
  length_bytes : bytes.length = 32
deriving DecidableEq, Repr

/-- A node of the graph: `(module_id, source_hash, imports)`. -/
structure GraphNode where
  moduleId : String
  sourceHash : SourceHash
  imports : List String
deriving DecidableEq, Repr

/-- The arguments of `import_graph_hash`. -/
structure ImportGraph where
  revision : Audit.LanguageRevision
  rootHash : SourceHash
  rootImports : List String
  nodes : List GraphNode
deriving DecidableEq, Repr

/-- The arguments of `linked_script_hash`. -/
structure LinkedScript where
  revision : Audit.LanguageRevision
  rootHash : SourceHash
  graphHash : SourceHash
deriving DecidableEq, Repr

/-- The bytes of a node. -/
def nodeBytes (node : GraphNode) : List UInt8 :=
  strField node.moduleId ++ node.sourceHash.bytes ++ counted 8 strField node.imports

/-- The bytes that `import_graph_hash` hashes. -/
def importGraphBytes (g : ImportGraph) : List UInt8 :=
  utf8Bytes "TSUMUGI-IMPORT-GRAPH-V1\x00" ++ strField g.revision.asStr ++ g.rootHash.bytes ++
    counted 8 strField g.rootImports ++ counted 8 nodeBytes g.nodes

/-- The bytes that `linked_script_hash` hashes. -/
def linkedScriptBytes (l : LinkedScript) : List UInt8 :=
  utf8Bytes "TSUMUGI-LINKED-SCRIPT-V1\x00" ++ strField l.revision.asStr ++ l.rootHash.bytes ++
    l.graphHash.bytes

/-- `import_graph_hash`. -/
def importGraphHash (g : ImportGraph) : List UInt8 := sha256 (importGraphBytes g)

/-- `linked_script_hash`. -/
def linkedScriptHash (l : LinkedScript) : List UInt8 := sha256 (linkedScriptBytes l)

end Tsumugi.Hash
