/-!
# The BLAKE3 digest

The digest of a sequence of bytes: 32 bytes, unkeyed. The input is cut into
chunks of 1024 bytes and each chunk into blocks of 64; the blocks of a chunk are
compressed one after the other, and the chunks are the leaves of a binary tree
in which every left subtree is full. Pairing neighbours level by level, with an
odd node left over carried to the next level, builds exactly that tree.

A node is kept uncompressed until its place in the tree is known, since the node
at the root is compressed under a flag of its own.
-/

namespace MeteredLedger.Blake3

/-- Sixteen words: a message block, or the state of the compression. -/
abbrev Words := Vector UInt32 16

/-- The eight words that one compression passes to another. -/
abbrev Chaining := Vector UInt32 8

def iv : Chaining :=
  #v[0x6A09E667, 0xBB67AE85, 0x3C6EF372, 0xA54FF53A, 0x510E527F, 0x9B05688C, 0x1F83D9AB, 0x5BE0CD19]

/-- Where each word of a round's message comes from in the round before. -/
def permutation : Vector (Fin 16) 16 :=
  #v[2, 6, 3, 10, 7, 0, 4, 13, 1, 11, 12, 5, 9, 14, 15, 8]

def chunkStart : UInt32 := 1

def chunkEnd : UInt32 := 2

/-- Marks a node above two others. -/
def parentFlag : UInt32 := 4

/-- Marks the node whose compression is the digest. -/
def rootFlag : UInt32 := 8

def rotateRight (w n : UInt32) : UInt32 :=
  (w >>> n) ||| (w <<< (32 - n))

/-- Mixes two message words into four words of the state. -/
def mix (s : Words) (a b c d : Fin 16) (x y : UInt32) : Words :=
  let s := s.set a (s[a] + s[b] + x)
  let s := s.set d (rotateRight (s[d] ^^^ s[a]) 16)
  let s := s.set c (s[c] + s[d])
  let s := s.set b (rotateRight (s[b] ^^^ s[c]) 12)
  let s := s.set a (s[a] + s[b] + y)
  let s := s.set d (rotateRight (s[d] ^^^ s[a]) 8)
  let s := s.set c (s[c] + s[d])
  s.set b (rotateRight (s[b] ^^^ s[c]) 7)

/-- Mixes a message block into the columns and then the diagonals of the state. -/
def round (s m : Words) : Words :=
  let s := mix s 0 4 8 12 m[0] m[1]
  let s := mix s 1 5 9 13 m[2] m[3]
  let s := mix s 2 6 10 14 m[4] m[5]
  let s := mix s 3 7 11 15 m[6] m[7]
  let s := mix s 0 5 10 15 m[8] m[9]
  let s := mix s 1 6 11 12 m[10] m[11]
  let s := mix s 2 7 8 13 m[12] m[13]
  mix s 3 4 9 14 m[14] m[15]

/-- The message of the next round. -/
def permute (m : Words) : Words :=
  permutation.map fun i => m[i]

/-- A number of rounds, the message permuted between them. -/
def rounds : Nat → Words → Words → Words
  | 0, s, _ => s
  | n + 1, s, m => rounds n (round s m) (permute m)

/-- One application of the compression function, not yet carried out. -/
structure Node where
  chaining : Chaining
  message : Words
  /-- Index of the chunk, zero above the leaves. -/
  counter : UInt64
  length : UInt32
  flags : UInt32

namespace Node

/-- The chaining value of a node, compressed under extra flags. -/
def compress (n : Node) (extra : UInt32) : Chaining :=
  let start : Words := n.chaining ++
    #v[iv[0], iv[1], iv[2], iv[3], n.counter.toUInt32, (n.counter >>> 32).toUInt32, n.length,
      n.flags ||| extra]
  let final := rounds 7 start n.message
  Vector.ofFn fun i : Fin 8 => final[i.val] ^^^ final[i.val + 8]

/-- The node above two others. -/
def parent (left right : Node) : Node where
  chaining := iv
  message := left.compress 0 ++ right.compress 0
  counter := 0
  length := 64
  flags := parentFlag

end Node

/-- The consecutive pieces of a list, all but the last of length `n`. -/
def pieces (n : Nat) (l : List α) : List (List α) :=
  if _h : 0 < n ∧ l ≠ [] then l.take n :: pieces n (l.drop n) else []
termination_by l.length
decreasing_by
  have := List.length_pos_iff.mpr _h.2
  simp only [List.length_drop]
  omega

/-- Four bytes as a word, the lowest first. Missing bytes count as zero. -/
def wordOfBytes (bytes : Array UInt8) (i : Nat) : UInt32 :=
  (bytes.getD i 0).toUInt32 ||| ((bytes.getD (i + 1) 0).toUInt32 <<< 8) |||
    ((bytes.getD (i + 2) 0).toUInt32 <<< 16) ||| ((bytes.getD (i + 3) 0).toUInt32 <<< 24)

/-- The bytes of a word, the lowest first. -/
def bytesOfWord (w : UInt32) : List UInt8 :=
  [w.toUInt8, (w >>> 8).toUInt8, (w >>> 16).toUInt8, (w >>> 24).toUInt8]

/-- A block as sixteen words. -/
def wordsOfBlock (block : List UInt8) : Words :=
  let bytes := block.toArray
  Vector.ofFn fun i : Fin 16 => wordOfBytes bytes (4 * i.val)

/-- The node of a chunk, from one of its blocks on. -/
def chunkNode (counter : UInt64) (chaining : Chaining) (flags : UInt32) (block : List UInt8) :
    List (List UInt8) → Node
  | [] => ⟨chaining, wordsOfBlock block, counter, UInt32.ofNat block.length, flags ||| chunkEnd⟩
  | next :: rest =>
    let node : Node := ⟨chaining, wordsOfBlock block, counter, UInt32.ofNat block.length, flags⟩
    chunkNode counter (node.compress 0) 0 next rest

/-- The node of the chunk with a given index. -/
def leaf (chunk : List UInt8) (index : Nat) : Node :=
  match pieces 64 chunk with
  | [] => chunkNode (UInt64.ofNat index) iv chunkStart [] []
  | block :: rest => chunkNode (UInt64.ofNat index) iv chunkStart block rest

/-- Pairs neighbouring nodes; an odd one at the end stays. -/
def pairUp : List Node → List Node
  | left :: right :: rest => .parent left right :: pairUp rest
  | rest => rest

theorem length_pairUp_le (nodes : List Node) : (pairUp nodes).length ≤ nodes.length := by
  fun_induction pairUp nodes with
  | case1 left right rest ih =>
    simp only [List.length_cons]
    omega
  | case2 => exact Nat.le_refl _

/-- The root of the tree over `first` and the nodes after it. -/
def root (first : Node) (rest : List Node) : Node :=
  match rest with
  | [] => first
  | second :: rest => root (.parent first second) (pairUp rest)
termination_by rest.length
decreasing_by
  have := length_pairUp_le rest
  simp only [List.length_cons]
  omega

def hash (bytes : List UInt8) : List UInt8 :=
  let top :=
    match (pieces 1024 bytes).zipIdx.map fun (chunk, index) => leaf chunk index with
    | [] => leaf [] 0
    | first :: rest => root first rest
  (top.compress rootFlag).toList.flatMap bytesOfWord

end MeteredLedger.Blake3
