-- BLAKE3 digests of 32 bytes. A text is cut into chunks of 1024 bytes and a chunk into blocks
-- of 64; the chunks are the leaves of a tree that is full on the left.

namespace RegionLayout.Blake3

abbrev Word := UInt32

/-- The eight words that are carried from block to block. -/
abbrev Chain := Vector Word 8

abbrev Block := Vector Word 16

def initial : Chain :=
  #v[0x6A09E667, 0xBB67AE85, 0x3C6EF372, 0xA54FF53A, 0x510E527F, 0x9B05688C, 0x1F83D9AB,
    0x5BE0CD19]

/-! ## Compression -/

def rotateRight (x : Word) (n : Word) : Word := (x >>> n) ||| (x <<< (32 - n))

/-- Mixes two words of the message into four of the state. -/
def mix (v : Block) (a b c d : Fin 16) (x y : Word) : Block :=
  let v := v.set a (v[a] + v[b] + x)
  let v := v.set d (rotateRight (v[d] ^^^ v[a]) 16)
  let v := v.set c (v[c] + v[d])
  let v := v.set b (rotateRight (v[b] ^^^ v[c]) 12)
  let v := v.set a (v[a] + v[b] + y)
  let v := v.set d (rotateRight (v[d] ^^^ v[a]) 8)
  let v := v.set c (v[c] + v[d])
  v.set b (rotateRight (v[b] ^^^ v[c]) 7)

/-- The four columns, then the four diagonals. -/
def round (v m : Block) : Block :=
  let v := mix v 0 4 8 12 m[0] m[1]
  let v := mix v 1 5 9 13 m[2] m[3]
  let v := mix v 2 6 10 14 m[4] m[5]
  let v := mix v 3 7 11 15 m[6] m[7]
  let v := mix v 0 5 10 15 m[8] m[9]
  let v := mix v 1 6 11 12 m[10] m[11]
  let v := mix v 2 7 8 13 m[12] m[13]
  mix v 3 4 9 14 m[14] m[15]

/-- The order of the message words in the next round. -/
def permute (m : Block) : Block :=
  #v[m[2], m[6], m[3], m[10], m[7], m[0], m[4], m[13], m[1], m[11], m[12], m[5], m[9], m[14],
    m[15], m[8]]

def rounds : Nat → Block → Block → Block
  | 0, v, _ => v
  | n + 1, v, m => rounds n (round v m) (permute m)

/-- A block about to be compressed. -/
structure Input where
  chain : Chain
  block : Block
  /-- The number of the chunk, zero for a parent. -/
  counter : Nat
  length : Nat
  flags : Word

def chunkStart : Word := 1
def chunkEnd : Word := 2
def parent : Word := 4
def root : Word := 8

def Input.compress (i : Input) : Chain :=
  let h := i.chain
  let v : Block :=
    #v[h[0], h[1], h[2], h[3], h[4], h[5], h[6], h[7], initial[0], initial[1], initial[2],
      initial[3], i.counter.toUInt32, (i.counter / 4294967296).toUInt32, i.length.toUInt32, i.flags]
  let v := rounds 7 v i.block
  #v[v[0] ^^^ v[8], v[1] ^^^ v[9], v[2] ^^^ v[10], v[3] ^^^ v[11], v[4] ^^^ v[12],
    v[5] ^^^ v[13], v[6] ^^^ v[14], v[7] ^^^ v[15]]

/-! ## Chunks and the tree -/

/-- Cuts a list into pieces of `n`, the last as long as what is left. At most `fuel` pieces. -/
def pieces {α : Type} (n : Nat) : Nat → List α → List (List α)
  | 0, _ => []
  | _ + 1, [] => []
  | fuel + 1, xs => xs.take n :: pieces n fuel (xs.drop n)

/-- The word of four bytes, the lowest first; bytes that are missing are zero. -/
def wordOf (bytes : List UInt8) : Word :=
  bytes.foldr (fun b w => (w <<< 8) ||| b.toUInt32) 0

/-- The sixteen words of a block. -/
def blockOf (bytes : List UInt8) : Block :=
  Vector.ofFn fun i => wordOf ((bytes.drop (4 * i.val)).take 4)

/-- The last block of a chunk, after all before it are compressed. -/
def chunkInput (counter : Nat) : Chain → Word → List (List UInt8) → Input
  | chain, flags, [] => ⟨chain, blockOf [], counter, 0, flags ||| chunkEnd⟩
  | chain, flags, [b] => ⟨chain, blockOf b, counter, b.length, flags ||| chunkEnd⟩
  | chain, flags, b :: rest =>
    chunkInput counter (Input.compress ⟨chain, blockOf b, counter, b.length, flags⟩) 0 rest

def parentInput (left right : Chain) : Input where
  chain := initial
  block := left ++ right
  counter := 0
  length := 64
  flags := parent

/-- The most leaves a left half may have: the largest power of two below `n`. -/
def leftLeaves (n : Nat) : Nat := Nat.pow 2 (n - 1).log2

/-- The top of the tree over the chunks from number `counter` on. A tree of `n` leaves is less
than `n` high. -/
def treeInput : Nat → Nat → List (List UInt8) → Input
  | 0, counter, chunks => chunkInput counter initial chunkStart (pieces 64 16 (chunks.headD []))
  | height + 1, counter, chunks =>
    if chunks.length ≤ 1 then
      chunkInput counter initial chunkStart (pieces 64 16 (chunks.headD []))
    else
      let n := leftLeaves chunks.length
      parentInput (treeInput height counter (chunks.take n)).compress
        (treeInput height (counter + n) (chunks.drop n)).compress

/-- The digest, as eight words. -/
def digest (bytes : List UInt8) : Chain :=
  let chunks := pieces 1024 (bytes.length / 1024 + 1) bytes
  let top := treeInput chunks.length 0 chunks
  { top with flags := top.flags ||| root }.compress

/-! ## Text -/

def hexDigit (n : Nat) : Char := if n < 10 then Char.ofNat (48 + n) else Char.ofNat (87 + n)

/-- Two hexadecimal digits for each of four bytes, the lowest first. -/
def hexWord (w : Word) : List Char :=
  [0, 1, 2, 3].flatMap fun i =>
    let b := w.toNat / Nat.pow 256 i % 256
    [hexDigit (b / 16), hexDigit (b % 16)]

/-- The digest of a text's UTF-8 bytes, in hexadecimal digits. -/
def hex (text : String) : String :=
  String.ofList ((digest text.toUTF8.toList).toList.flatMap hexWord)

end RegionLayout.Blake3
