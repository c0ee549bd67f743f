import BuildEngine.Text.Utf8

/-!
# BLAKE3

The BLAKE3 hash of bytes. The bytes are cut into chunks of 1024, a chunk into blocks of 64; every
block is compressed into a chaining value of eight words, and the chunks are joined pairwise in a
binary tree whose left subtrees are full.
-/

namespace BuildEngine.Blake3

/-- The words that chaining starts from. -/
def initialWords : List UInt32 :=
  [0x6A09E667, 0xBB67AE85, 0x3C6EF372, 0xA54FF53A, 0x510E527F, 0x9B05688C, 0x1F83D9AB, 0x5BE0CD19]

/-- The order in which a round takes the message words of the one before. -/
def permutation : Vector (Fin 16) 16 :=
  #v[2, 6, 3, 10, 7, 0, 4, 13, 1, 11, 12, 5, 9, 14, 15, 8]

/-- Marks the first block of a chunk. -/
def chunkStart : UInt32 := 1

/-- Marks the last block of a chunk. -/
def chunkEnd : UInt32 := 2

/-- Marks a node that joins two subtrees. -/
def parent : UInt32 := 4

/-- Marks the node at the top. -/
def root : UInt32 := 8

/-- Sixteen words: the state of a compression, or a block of a message. -/
abbrev Words := Vector UInt32 16

/-- A word turned right by some bits. -/
def rotateRight (x : UInt32) (n : UInt32) : UInt32 :=
  (x >>> n) ||| (x <<< (32 - n))

/-- Mixes two message words into four words of the state. -/
def mix (v : Words) (a b c d : Fin 16) (x y : UInt32) : Words :=
  let va := v[a] + v[b] + x
  let vd := rotateRight (v[d] ^^^ va) 16
  let vc := v[c] + vd
  let vb := rotateRight (v[b] ^^^ vc) 12
  let va := va + vb + y
  let vd := rotateRight (vd ^^^ va) 8
  let vc := vc + vd
  let vb := rotateRight (vb ^^^ vc) 7
  (((v.set a va).set b vb).set c vc).set d vd

/-- One round: the columns of the state, then its diagonals. -/
def round (v m : Words) : Words :=
  let v := mix v 0 4 8 12 m[0] m[1]
  let v := mix v 1 5 9 13 m[2] m[3]
  let v := mix v 2 6 10 14 m[4] m[5]
  let v := mix v 3 7 11 15 m[6] m[7]
  let v := mix v 0 5 10 15 m[8] m[9]
  let v := mix v 1 6 11 12 m[10] m[11]
  let v := mix v 2 7 8 13 m[12] m[13]
  mix v 3 4 9 14 m[14] m[15]

/-- A number of rounds, each on the permuted words of the one before. -/
def rounds : Nat → Words → Words → Words
  | 0, v, _ => v
  | n + 1, v, m => rounds n (round v m) (permutation.map fun i => m[i])

/-- Sixteen words of a list, with zeros behind its end. -/
def wordsOf (ws : List UInt32) : Words :=
  Vector.ofFn fun i => ws.getD i 0

/-- The chaining value of a block of `length` bytes. -/
def compress (chaining : List UInt32) (block : Words) (counter length : Nat) (flags : UInt32) :
    List UInt32 :=
  let low := UInt32.ofNat (counter % UInt32.size)
  let high := UInt32.ofNat (counter / UInt32.size)
  let start := chaining ++ initialWords.take 4 ++ [low, high, UInt32.ofNat length, flags]
  let v := (rounds 7 (wordsOf start) block).toList
  List.zipWith (· ^^^ ·) (v.take 8) (v.drop 8)

/-- The word of up to four bytes, the lowest first. -/
def word (bytes : Text.Bytes) : UInt32 :=
  bytes.foldr (fun b n => n * 256 + b.toUInt32) 0

/-- The sixteen words of a block, with zeros behind its bytes. -/
def blockWords (bytes : Text.Bytes) : Words :=
  Vector.ofFn fun i => word ((bytes.drop (4 * i)).take 4)

/-- The chaining value of the blocks of a chunk; `flags` are those of its first block, and
`last` those that its last block has in addition. -/
def chunkFrom (counter : Nat) (flags last : UInt32) (chaining : List UInt32)
    (bytes : Text.Bytes) : List UInt32 :=
  if bytes.length ≤ 64 then
    -- The last block counts its own bytes and is filled up with zeros.
    compress chaining (blockWords bytes) counter bytes.length (flags ||| last)
  else
    chunkFrom counter 0 last (compress chaining (blockWords (bytes.take 64)) counter 64 flags)
      (bytes.drop 64)
termination_by bytes.length
decreasing_by simp only [List.length_drop]; omega

/-- The chaining value of the chunk with a number. -/
def chunk (counter : Nat) (top : UInt32) (bytes : Text.Bytes) : List UInt32 :=
  chunkFrom counter chunkStart (chunkEnd ||| top) initialWords bytes

/-- The number of bytes in the left subtree of a tree over `n` bytes: the largest power of two of
chunks that leaves something for the right one. -/
def leftLength (n : Nat) : Nat :=
  1024 <<< Nat.log2 ((n - 1) / 1024)

/-- The left subtree is not empty. -/
theorem leftLength_pos (n : Nat) : 0 < leftLength n := by
  rw [leftLength, Nat.shiftLeft_eq]
  exact Nat.mul_pos (by decide) (Nat.two_pow_pos _)

/-- The left subtree leaves something for the right one. -/
theorem leftLength_lt {n : Nat} (h : 1024 < n) : leftLength n < n := by
  have hne : (n - 1) / 1024 ≠ 0 := by omega
  have := Nat.log2_self_le hne
  rw [leftLength, Nat.shiftLeft_eq]
  omega

/-- The chaining value of the tree over bytes, the first chunk of which has a number; `top` is
added to the flags of the node at the top. -/
def tree (counter : Nat) (top : UInt32) (bytes : Text.Bytes) : List UInt32 :=
  if h : bytes.length ≤ 1024 then chunk counter top bytes
  else
    have hpos := leftLength_pos bytes.length
    have hlt := leftLength_lt (n := bytes.length) (by omega)
    let n := leftLength bytes.length
    -- Only the node at the top carries its mark, so the subtrees get none.
    let left := tree counter 0 (bytes.take n)
    let right := tree (counter + n / 1024) 0 (bytes.drop n)
    compress initialWords (wordsOf (left ++ right)) 0 64 (parent ||| top)
termination_by bytes.length
decreasing_by
  · simp only [List.length_take]; omega
  · simp only [List.length_drop]; omega

/-- The bytes of a word, the lowest first. -/
def wordBytes (w : UInt32) : Text.Bytes :=
  [w.toUInt8, (w >>> 8).toUInt8, (w >>> 16).toUInt8, (w >>> 24).toUInt8]

/-- The hash of bytes: 32 bytes. -/
def hash (bytes : Text.Bytes) : Text.Bytes :=
  (tree 0 root bytes).flatMap wordBytes

/-- Bytes in hexadecimal digits. -/
def hex (bytes : Text.Bytes) : String :=
  String.ofList (bytes.flatMap fun b =>
    [Nat.digitChar (b.toNat / 16), Nat.digitChar (b.toNat % 16)])

end BuildEngine.Blake3
