/-
SensorScript.Digest — the BLAKE3 hash of a byte buffer.

The input is cut into chunks of 1024 bytes and each chunk into blocks of 64.
Compressing the blocks of a chunk one after the other leaves its last block
pending. Pending compressions are joined pairwise, level by level, an odd one
at the end going up as it is, until one is left; compressing that one as the
root gives the digest.
-/
import SensorScript.Image

namespace SensorScript

namespace Blake3

/-! ## §1 Compression -/

/-- Four words that are worked on side by side. -/
structure Row where
  w0 : UInt32
  w1 : UInt32
  w2 : UInt32
  w3 : UInt32

namespace Row

def zipWith (f : UInt32 → UInt32 → UInt32) (x y : Row) : Row :=
  ⟨f x.w0 y.w0, f x.w1 y.w1, f x.w2 y.w2, f x.w3 y.w3⟩

def map (f : UInt32 → UInt32) (x : Row) : Row := ⟨f x.w0, f x.w1, f x.w2, f x.w3⟩

/-- Every word moves one place to the front and the first to the end. -/
def rotate (x : Row) : Row := ⟨x.w1, x.w2, x.w3, x.w0⟩

def toList (x : Row) : List UInt32 := [x.w0, x.w1, x.w2, x.w3]

instance : Add Row := ⟨zipWith (· + ·)⟩

instance : XorOp Row := ⟨zipWith (· ^^^ ·)⟩

end Row

/-- Bits moved to the right, those that fall off coming back on the left. -/
def rotateRight (n : UInt32) (w : UInt32) : UInt32 := (w >>> n) ||| (w <<< (32 - n))

/-- Sixteen words in four rows. -/
structure State where
  a : Row
  b : Row
  c : Row
  d : Row

/-- Mixes the columns of a state with two message words each. -/
def mixColumns (s : State) (x y : Row) : State :=
  let a := s.a + s.b + x
  let d := (s.d ^^^ a).map (rotateRight 16)
  let c := s.c + d
  let b := (s.b ^^^ c).map (rotateRight 12)
  let a := a + b + y
  let d := (d ^^^ a).map (rotateRight 8)
  let c := c + d
  let b := (b ^^^ c).map (rotateRight 7)
  ⟨a, b, c, d⟩

/-- Puts the diagonals of a state into its columns. -/
def diagonalize (s : State) : State := ⟨s.a, s.b.rotate, s.c.rotate.rotate, s.d.rotate.rotate.rotate⟩

/-- Puts the columns of a state back into its diagonals. -/
def undiagonalize (s : State) : State :=
  ⟨s.a, s.b.rotate.rotate.rotate, s.c.rotate.rotate, s.d.rotate⟩

/-- Mixes the columns and then the diagonals with the sixteen words of a block. -/
def round (s : State) (m : List UInt32) : State :=
  let w (i : Nat) : UInt32 := m.getD i 0
  let s := mixColumns s ⟨w 0, w 2, w 4, w 6⟩ ⟨w 1, w 3, w 5, w 7⟩
  undiagonalize (mixColumns (diagonalize s) ⟨w 8, w 10, w 12, w 14⟩ ⟨w 9, w 11, w 13, w 15⟩)

/-- Where the words of a block come from in the next round. -/
def permutation : List Nat := [2, 6, 3, 10, 7, 0, 4, 13, 1, 11, 12, 5, 9, 14, 15, 8]

/-- A number of rounds with the block permuted between them. -/
def rounds : Nat → State → List UInt32 → State
  | 0, s, _ => s
  | n + 1, s, m => rounds n (round s m) (permutation.map (m.getD · 0))

/-- Eight words that carry the hash from block to block. -/
structure Chain where
  low : Row
  high : Row

/-- The chain before the first block. -/
def initial : Chain :=
  ⟨⟨0x6A09E667, 0xBB67AE85, 0x3C6EF372, 0xA54FF53A⟩,
    ⟨0x510E527F, 0x9B05688C, 0x1F83D9AB, 0x5BE0CD19⟩⟩

def Chain.toList (c : Chain) : List UInt32 := c.low.toList ++ c.high.toList

/-- Marks that tell what a compression is for. -/
def chunkStart : UInt32 := 1
def chunkEnd : UInt32 := 2
def parentMark : UInt32 := 4
def rootMark : UInt32 := 8

/-- A compression that is still to be done. -/
structure Pending where
  chain : Chain
  block : List UInt32
  /-- Number of the chunk; zero for a pair. -/
  counter : Nat
  /-- Bytes of the block that are input. -/
  length : Nat
  marks : UInt32

def Pending.compress (p : Pending) : Chain :=
  let s := rounds 7
    ⟨p.chain.low, p.chain.high, initial.low,
      ⟨UInt32.ofNat p.counter, UInt32.ofNat (p.counter / UInt32.size), UInt32.ofNat p.length, p.marks⟩⟩
    p.block
  ⟨s.a ^^^ s.c, s.b ^^^ s.d⟩

/-! ## §2 Chunks -/

/-- The bytes cut into pieces of `n`, the last of which may be shorter; no
bytes at all are one empty piece. -/
def pieces (n : Nat) (bytes : Bytes) : List Bytes :=
  if n = 0 ∨ bytes.length ≤ n then [bytes]
  else bytes.take n :: pieces n (bytes.drop n)
termination_by bytes.length
decreasing_by simp only [List.length_drop]; omega

/-- The sixteen words of a block, short ones filled up with zeros. -/
def blockWords (block : Bytes) : List UInt32 :=
  (pieces 4 (block ++ List.replicate (64 - block.length) 0)).map Image.number32

/-- Compresses all blocks of a chunk but the last. -/
def chunkFrom (counter : Nat) (chain : Chain) (marks : UInt32) : List Bytes → Pending
  | [] => ⟨chain, blockWords [], counter, 0, marks ||| chunkEnd⟩
  | [block] => ⟨chain, blockWords block, counter, block.length, marks ||| chunkEnd⟩
  | block :: blocks =>
    let p : Pending := ⟨chain, blockWords block, counter, block.length, marks⟩
    chunkFrom counter p.compress 0 blocks

/-- A chunk with its last block pending. -/
def chunk (counter : Nat) (bytes : Bytes) : Pending :=
  chunkFrom counter initial chunkStart (pieces 64 bytes)

/-! ## §3 The tree -/

/-- The compression that joins two. -/
def pair (left right : Pending) : Pending :=
  ⟨initial, left.compress.toList ++ right.compress.toList, 0, 64, parentMark⟩

/-- One level of pairs. -/
def pairs : List Pending → List Pending
  | x :: y :: rest => pair x y :: pairs rest
  | rest => rest

theorem length_pairs : ∀ ps : List Pending, (pairs ps).length = (ps.length + 1) / 2
  | [] => rfl
  | [_] => by simp [pairs]
  | x :: y :: rest => by simp [pairs, length_pairs rest]; omega

/-- The one compression left after joining all. -/
def root : List Pending → Pending
  | [] => chunk 0 []
  | [p] => p
  | p :: q :: rest => root (pairs (p :: q :: rest))
termination_by ps => ps.length
decreasing_by simp only [length_pairs, List.length_cons]; omega

/-- The 32 bytes of the hash. -/
def hash (input : Bytes) : Bytes :=
  let p := root ((pieces 1024 input).mapIdx chunk)
  ({ p with marks := p.marks ||| rootMark }.compress.toList).flatMap Image.word32

end Blake3

end SensorScript
