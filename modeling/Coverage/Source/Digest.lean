/-
  Coverage.Source.Digest

  The BLAKE3 digest of some bytes, in hexadecimal.

  Bytes are hashed in chunks of 1024, a chunk in blocks of 64. The chunks are the leaves of
  a binary tree whose left part always holds the largest power of two of them that leaves
  something for the right part. Every node is one compression; that of the root is marked.
-/

import Coverage.Text.Utf8

namespace Coverage.Source.Digest

/-! ## Words -/

/-- A chaining value. -/
abbrev Chaining := Vector UInt32 8

/-- A block of a message, or the state of a compression. -/
abbrev Words := Vector UInt32 16

/-- Rotates a word to the right. -/
def rotateRight (w : UInt32) (n : UInt32) : UInt32 :=
  (w >>> n) ||| (w <<< (32 - n))

/-- The word that up to four bytes spell out, the lowest byte first. -/
def wordOfBytes : Bytes → UInt32
  | [] => 0
  | b :: rest => b.toUInt32 ||| (wordOfBytes rest <<< 8)

/-- The words of a block, filled up with zeros. -/
def wordsOfBlock (block : Bytes) : Words :=
  Vector.ofFn fun i => wordOfBytes ((block.drop (4 * i.val)).take 4)

/-! ## Compression -/

/-- The initial chaining value. -/
def initial : Chaining :=
  #v[0x6A09E667, 0xBB67AE85, 0x3C6EF372, 0xA54FF53A, 0x510E527F, 0x9B05688C, 0x1F83D9AB,
    0x5BE0CD19]

/-- Marks of a block: whether it begins or ends a chunk, joins two subtrees, or is the root. -/
structure Marks where
  chunkStart : Bool
  chunkEnd : Bool
  parent : Bool
  root : Bool

/-- The marks as the bits of a word. -/
def Marks.bits (m : Marks) : UInt32 :=
  (if m.chunkStart then 1 else 0) ||| (if m.chunkEnd then 2 else 0)
    ||| (if m.parent then 4 else 0) ||| (if m.root then 8 else 0)

/-- Mixes two words of the message into four words of the state. -/
def mix (v : Words) (a b c d : Fin 16) (x y : UInt32) : Words :=
  let a1 := v[a] + v[b] + x
  let d1 := rotateRight (v[d] ^^^ a1) 16
  let c1 := v[c] + d1
  let b1 := rotateRight (v[b] ^^^ c1) 12
  let a2 := a1 + b1 + y
  let d2 := rotateRight (d1 ^^^ a2) 8
  let c2 := c1 + d2
  let b2 := rotateRight (b1 ^^^ c2) 7
  (((v.set a a2).set b b2).set c c2).set d d2

/-- One round: the columns of the state, then its diagonals. -/
def round (v : Words) (m : Words) : Words :=
  -- Columns.
  let v := mix v 0 4 8 12 m[0] m[1]
  let v := mix v 1 5 9 13 m[2] m[3]
  let v := mix v 2 6 10 14 m[4] m[5]
  let v := mix v 3 7 11 15 m[6] m[7]
  -- Diagonals.
  let v := mix v 0 5 10 15 m[8] m[9]
  let v := mix v 1 6 11 12 m[10] m[11]
  let v := mix v 2 7 8 13 m[12] m[13]
  mix v 3 4 9 14 m[14] m[15]

/-- The message in the order of the next round. -/
def permute (m : Words) : Words :=
  #v[m[2], m[6], m[3], m[10], m[7], m[0], m[4], m[13], m[1], m[11], m[12], m[5], m[9], m[14],
    m[15], m[8]]

/-- Some rounds, the message permuted between them. -/
def rounds : Nat → Words → Words → Words
  | 0, v, _ => v
  | n + 1, v, m => rounds n (round v m) (permute m)

/-- One compression: a chaining value, a block with its length, the number of the chunk, and
    the marks. -/
def compress (cv : Chaining) (block : Words) (chunk : UInt64) (length : UInt32)
    (marks : Marks) : Chaining :=
  let start : Words :=
    #v[cv[0], cv[1], cv[2], cv[3], cv[4], cv[5], cv[6], cv[7],
      initial[0], initial[1], initial[2], initial[3],
      chunk.toUInt32, (chunk >>> 32).toUInt32, length, marks.bits]
  let v := rounds 7 start block
  Vector.ofFn fun i => v[i.val] ^^^ v[i.val + 8]

/-! ## The tree -/

/-- The last compression of a node, except that it does not say yet whether the node is the
    root. -/
structure Node where
  cv : Chaining
  block : Words
  chunk : UInt64
  length : UInt32
  marks : Marks

/-- The chaining value of a node inside the tree. -/
def Node.chaining (n : Node) : Chaining :=
  compress n.cv n.block n.chunk n.length n.marks

/-- The digest of the whole, from its root. -/
def Node.digest (n : Node) : Chaining :=
  compress n.cv n.block n.chunk n.length { n.marks with root := true }

/-- The bytes cut into pieces of a given length; there is at least one piece, and only the
    last may be shorter. -/
def pieces (length : Nat) (bytes : Bytes) : List Bytes :=
  if 0 < length ∧ length < bytes.length then
    bytes.take length :: pieces length (bytes.drop length)
  else [bytes]
termination_by bytes.length
decreasing_by simp only [List.length_drop]; omega

/-- The node of a chunk, from its blocks. -/
def chunkNode (chunk : UInt64) (cv : Chaining) (first : Bool) : List Bytes → Node
  | [] => ⟨cv, wordsOfBlock [], chunk, 0, ⟨first, true, false, false⟩⟩
  | [block] =>
    ⟨cv, wordsOfBlock block, chunk, block.length.toUInt32, ⟨first, true, false, false⟩⟩
  | block :: rest =>
    let next := compress cv (wordsOfBlock block) chunk block.length.toUInt32
      ⟨first, false, false, false⟩
    chunkNode chunk next false rest

/-- The node that joins two subtrees. -/
def parentNode (left right : Chaining) : Node :=
  ⟨initial, left ++ right, 0, 64, ⟨false, false, true, false⟩⟩

/-- The tree of some chunks, numbered from `first`. -/
def treeNode (first : Nat) (chunks : List Bytes) : Node :=
  if h : chunks.length ≤ 1 then
    chunkNode first.toUInt64 initial true (pieces 64 (chunks.head?.getD []))
  else
    -- The largest power of two below the number of chunks.
    let half := Nat.pow 2 (Nat.log2 (chunks.length - 1))
    have hle : Nat.pow 2 (Nat.log2 (chunks.length - 1)) ≤ chunks.length - 1 :=
      Nat.log2_self_le (by omega)
    have hpos : 0 < Nat.pow 2 (Nat.log2 (chunks.length - 1)) := Nat.two_pow_pos _
    parentNode (treeNode first (chunks.take half)).chaining
      (treeNode (first + half) (chunks.drop half)).chaining
termination_by chunks.length
decreasing_by
  · simp only [List.length_take]; omega
  · simp only [List.length_drop]; omega

/-! ## Text -/

/-- A byte in two lower-case hexadecimal digits. -/
def hexByte (b : UInt8) : List Char :=
  [Nat.digitChar (b.toNat / 16), Nat.digitChar (b.toNat % 16)]

/-- The bytes of a word, the lowest first. -/
def bytesOfWord (w : UInt32) : Bytes :=
  [w.toUInt8, (w >>> 8).toUInt8, (w >>> 16).toUInt8, (w >>> 24).toUInt8]

/-- The digest of some bytes, in hexadecimal. -/
def ofBytes (bytes : Bytes) : String :=
  let digest := (treeNode 0 (pieces 1024 bytes)).digest
  String.ofList ((digest.toList.flatMap bytesOfWord).flatMap hexByte)

end Coverage.Source.Digest
