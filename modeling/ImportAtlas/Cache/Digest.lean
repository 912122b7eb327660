/-!
The BLAKE3 digest of some octets. They are cut into chunks of 1024, each chunk into blocks of 64;
the chunks are the leaves of a binary tree whose left branches are as large as a full tree can be.
-/

set_option autoImplicit false

namespace ImportAtlas.Digest

structure Row where
  w0 : UInt32
  w1 : UInt32
  w2 : UInt32
  w3 : UInt32
  deriving DecidableEq, Repr

namespace Row

def zip (f : UInt32 → UInt32 → UInt32) (a b : Row) : Row :=
  ⟨f a.w0 b.w0, f a.w1 b.w1, f a.w2 b.w2, f a.w3 b.w3⟩

def add (a b : Row) : Row :=
  zip (· + ·) a b

def xor (a b : Row) : Row :=
  zip (· ^^^ ·) a b

def rotate (n : UInt32) (a : Row) : Row :=
  let turn (w : UInt32) : UInt32 := (w >>> n) ||| (w <<< (32 - n))
  ⟨turn a.w0, turn a.w1, turn a.w2, turn a.w3⟩

/-- The words moved one place to the left, the first one to the end. -/
def shift (a : Row) : Row :=
  ⟨a.w1, a.w2, a.w3, a.w0⟩

def words (a : Row) : List UInt32 :=
  [a.w0, a.w1, a.w2, a.w3]

end Row

structure Square where
  a : Row
  b : Row
  c : Row
  d : Row
  deriving DecidableEq, Repr

def Square.mix (s : Square) (m n : Row) : Square :=
  let a := (s.a.add s.b).add m
  let d := (s.d.xor a).rotate 16
  let c := s.c.add d
  let b := (s.b.xor c).rotate 12
  let a := (a.add b).add n
  let d := (d.xor a).rotate 8
  let c := c.add d
  let b := (b.xor c).rotate 7
  ⟨a, b, c, d⟩

abbrev Message := Array UInt32

/-- Every second word of a message, from the given one on. -/
def everySecond (m : Message) (first : Nat) : Row :=
  ⟨m.getD first 0, m.getD (first + 2) 0, m.getD (first + 4) 0, m.getD (first + 6) 0⟩

def Square.round (s : Square) (m : Message) : Square :=
  let s := s.mix (everySecond m 0) (everySecond m 1)
  let s : Square := ⟨s.a, s.b.shift, s.c.shift.shift, s.d.shift.shift.shift⟩
  let s := s.mix (everySecond m 8) (everySecond m 9)
  ⟨s.a, s.b.shift.shift.shift, s.c.shift.shift, s.d.shift⟩

def nextOrder : Array Nat := #[2, 6, 3, 10, 7, 0, 4, 13, 1, 11, 12, 5, 9, 14, 15, 8]

/-- Seven rounds, with the words of the message put in a new order between them. -/
def Square.rounds : (count : Nat) → Square → Message → Square
  | 0, s, _ => s
  | count + 1, s, m => rounds count (s.round m) (nextOrder.map fun i => m.getD i 0)

/-- What is known of the octets before a block: eight words. -/
structure Chain where
  low : Row
  high : Row
  deriving DecidableEq, Repr

def Chain.start : Chain :=
  ⟨⟨0x6a09e667, 0xbb67ae85, 0x3c6ef372, 0xa54ff53a⟩,
    ⟨0x510e527f, 0x9b05688c, 0x1f83d9ab, 0x5be0cd19⟩⟩

/-- What a block is: the first or last one of a chunk, a pair of branches, the root of the tree. -/
structure Role where
  first : Bool := false
  last : Bool := false
  pair : Bool := false
  root : Bool := false
  deriving DecidableEq, Repr

def Role.word (r : Role) : UInt32 :=
  (if r.first then 1 else 0) + (if r.last then 2 else 0) + (if r.pair then 4 else 0) +
    (if r.root then 8 else 0)

/-- The chain behind a block with the given message and size, in the chunk of the given number. -/
def Chain.next (chain : Chain) (m : Message) (chunk size : Nat) (role : Role) : Chain :=
  let count := chunk.toUInt64
  let s : Square := ⟨chain.low, chain.high, Chain.start.low,
    ⟨count.toUInt32, (count >>> 32).toUInt32, size.toUInt32, role.word⟩⟩
  let s := s.rounds 7 m
  ⟨s.a.xor s.c, s.b.xor s.d⟩

/-- The pieces of a list that have the given size; the last one may be shorter. -/
def cut {α : Type} (size : Nat) (xs : List α) : List (List α) :=
  if _h : 0 < size ∧ size < xs.length then xs.take size :: cut size (xs.drop size) else [xs]
termination_by xs.length
decreasing_by
  rw [List.length_drop]
  omega

def wordOf (bytes : List UInt8) : UInt32 :=
  bytes.foldr (fun b w => w * 256 + b.toUInt32) 0

def octetsOf (w : UInt32) : List UInt8 :=
  [w.toUInt8, (w >>> 8).toUInt8, (w >>> 16).toUInt8, (w >>> 24).toUInt8]

/-- The message of a block; words that it does not fill are zero. -/
def messageOf (block : List UInt8) : Message :=
  ((cut 4 block).map wordOf).toArray

def chainOfBlocks (chunk : Nat) (root : Bool) :
    (first : Bool) → Chain → List (List UInt8) → Chain
  | _, chain, [] => chain
  | first, chain, [block] =>
    chain.next (messageOf block) chunk block.length { first, last := true, root }
  | first, chain, block :: rest =>
    chainOfBlocks chunk root false
      (chain.next (messageOf block) chunk block.length { first }) rest

def pairUp (root : Bool) (left right : Chain) : Chain :=
  Chain.start.next
    (left.low.words ++ left.high.words ++ right.low.words ++ right.high.words).toArray 0 64
    { pair := true, root }

/-- The chain of a tree of numbered chunks. -/
def chainOfChunks (root : Bool) (chunks : List (List UInt8 × Nat)) : Chain :=
  match _h : chunks with
  | [] => .start
  | [(chunk, number)] => chainOfBlocks number root true .start (cut 64 chunk)
  | a :: b :: rest =>
    let left := 1 <<< (rest.length + 1).log2
    pairUp root (chainOfChunks false ((a :: b :: rest).take left))
      (chainOfChunks false ((a :: b :: rest).drop left))
termination_by chunks.length
decreasing_by
  all_goals
    have hle : 1 <<< (rest.length + 1).log2 ≤ rest.length + 1 := by
      rw [Nat.one_shiftLeft]
      exact Nat.log2_self_le (by omega)
    have hpos : 0 < 1 <<< (rest.length + 1).log2 := by
      rw [Nat.one_shiftLeft]
      exact Nat.two_pow_pos _
    simp only [List.length_take, List.length_drop, List.length_cons]
    omega

def digest (bytes : List UInt8) : List UInt8 :=
  let chain := chainOfChunks true (cut 1024 bytes).zipIdx
  (chain.low.words ++ chain.high.words).flatMap octetsOf

end ImportAtlas.Digest
