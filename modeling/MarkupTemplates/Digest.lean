namespace MarkupTemplates

/-! The BLAKE2s digest of 32 bytes, without a key. -/

namespace Digest

/-- The eight words of a digest in the making. -/
abbrev Chain := Vector UInt32 8

/-- The sixteen words that the rounds work on. -/
abbrev Block := Vector UInt32 16

def initial : Chain :=
  #v[0x6A09E667, 0xBB67AE85, 0x3C6EF372, 0xA54FF53A, 0x510E527F, 0x9B05688C, 0x1F83D9AB, 0x5BE0CD19]

/-- The order in which each round takes the words of the message. -/
def schedule : List (Vector (Fin 16) 16) :=
  [#v[0, 1, 2, 3, 4, 5, 6, 7, 8, 9, 10, 11, 12, 13, 14, 15],
   #v[14, 10, 4, 8, 9, 15, 13, 6, 1, 12, 0, 2, 11, 7, 5, 3],
   #v[11, 8, 12, 0, 5, 2, 15, 13, 10, 14, 3, 6, 7, 1, 9, 4],
   #v[7, 9, 3, 1, 13, 12, 11, 14, 2, 6, 5, 10, 4, 0, 15, 8],
   #v[9, 0, 5, 7, 2, 4, 10, 15, 14, 1, 11, 12, 6, 8, 3, 13],
   #v[2, 12, 6, 10, 0, 11, 8, 3, 4, 13, 7, 5, 15, 14, 1, 9],
   #v[12, 5, 1, 15, 14, 13, 4, 10, 0, 7, 6, 3, 9, 2, 8, 11],
   #v[13, 11, 7, 14, 12, 1, 3, 9, 5, 0, 15, 4, 8, 6, 2, 10],
   #v[6, 15, 14, 9, 11, 3, 0, 8, 12, 2, 13, 7, 1, 4, 10, 5],
   #v[10, 2, 8, 4, 7, 6, 1, 5, 15, 11, 9, 14, 3, 12, 13, 0]]

/-- The words that are mixed with each other: first the columns of a square, then its diagonals. -/
def quarters : List (Fin 16 × Fin 16 × Fin 16 × Fin 16) :=
  [(0, 4, 8, 12), (1, 5, 9, 13), (2, 6, 10, 14), (3, 7, 11, 15),
   (0, 5, 10, 15), (1, 6, 11, 12), (2, 7, 8, 13), (3, 4, 9, 14)]

def rotateRight (w n : UInt32) : UInt32 := (w >>> n) ||| (w <<< (32 - n))

def update (v : Block) (i : Fin 16) (w : UInt32) : Block := v.set i.val w i.isLt

def mix (v : Block) (a b c d : Fin 16) (x y : UInt32) : Block :=
  let v := update v a (v[a] + v[b] + x)
  let v := update v d (rotateRight (v[d] ^^^ v[a]) 16)
  let v := update v c (v[c] + v[d])
  let v := update v b (rotateRight (v[b] ^^^ v[c]) 12)
  let v := update v a (v[a] + v[b] + y)
  let v := update v d (rotateRight (v[d] ^^^ v[a]) 8)
  let v := update v c (v[c] + v[d])
  update v b (rotateRight (v[b] ^^^ v[c]) 7)

/-- One round: the message words are used up in pairs. -/
def round (message v : Block) (order : Vector (Fin 16) 16) : Block :=
  let step (v : Block) (quarter : (Fin 16 × Fin 16 × Fin 16 × Fin 16) × Nat) : Block :=
    let ((a, b, c, d), i) := quarter
    let first := (order.toList.getD (2 * i) 0)
    let second := (order.toList.getD (2 * i + 1) 0)
    mix v a b c d message[first] message[second]
  quarters.zipIdx.foldl step v

/-- Takes one block into the chain. The count is that of all bytes so far. -/
def compress (chain : Chain) (message : Block) (count : Nat) (last : Bool) : Chain :=
  let start : Block := chain ++ initial
  let start := update start 12 (start[12] ^^^ UInt32.ofNat count)
  let start := update start 13 (start[13] ^^^ UInt32.ofNat (count / 0x100000000))
  let start := if last then update start 14 (start[14] ^^^ 0xFFFFFFFF) else start
  let v := schedule.foldl (round message) start
  Vector.ofFn fun i : Fin 8 => chain[i] ^^^ v[i.val] ^^^ v[i.val + 8]

/-- Four bytes as a word, the lowest first. -/
def wordAt (bytes : Array UInt8) (i : Nat) : UInt32 :=
  (List.range 4).foldr (fun k w => (w <<< 8) ||| (bytes.getD (i + k) 0).toUInt32) 0

/-- Up to 64 bytes as a block, filled up with zeros. -/
def blockOf (bytes : List UInt8) : Block :=
  Vector.ofFn fun i : Fin 16 => wordAt bytes.toArray (4 * i)

/-- Takes the bytes into the chain. The last block is the only one that may be short. -/
def absorb (chain : Chain) (count : Nat) (bytes : List UInt8) : Chain :=
  if bytes.length ≤ 64 then compress chain (blockOf bytes) (count + bytes.length) true
  else absorb (compress chain (blockOf (bytes.take 64)) (count + 64) false) (count + 64) (bytes.drop 64)
termination_by bytes.length
decreasing_by simp only [List.length_drop]; omega

def wordBytes (w : UInt32) : List UInt8 :=
  [w.toUInt8, (w >>> 8).toUInt8, (w >>> 16).toUInt8, (w >>> 24).toUInt8]

/-- The digest of the bytes. The first word tells the digest's length and that there is no key. -/
def blake2s (bytes : List UInt8) : List UInt8 :=
  let chain := initial.set 0 (initial[0] ^^^ 0x01010020)
  (absorb chain 0 bytes).toList.flatMap wordBytes

end Digest

end MarkupTemplates
