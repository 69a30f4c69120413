import HueSaturation.Png.Checksum

/-!
# Compressed data

Compressed data is a run of bits, the lowest bit of each byte first: blocks of plain bytes, or of
symbols in a prefix code. A symbol is a byte, the end of its block, or the length of a stretch that
is repeated from further back.

* `Deflate.Reading`      reading bits, with a position that moves on;
* `PrefixCode`           a code given by the lengths of its words; `decode` reads a symbol;
* `Deflate.symbols`      the bytes of a block of symbols;
* `Deflate.decompress?`  all bytes of compressed data, with its two checks;
* `Deflate.wrap`         data that decompresses to the given bytes: plain blocks only.
-/

namespace HueSaturation

namespace Deflate

/-- Reading from the bits of some bytes; the state is the number of bits behind us. -/
abbrev Reading := ReaderT ByteArray (StateT Nat Option)

def bit : Reading Nat := do
  let bytes ← read
  let i ← get
  match bytes[i / 8]? with
  | some b =>
    set (i + 1)
    return b.toNat >>> (i % 8) % 2
  | none => failure

/-- The number in the next `n` bits, the lowest first. -/
def number : Nat → Reading Nat
  | 0 => return 0
  | n + 1 => return (← bit) + 2 * (← number n)

def align : Reading Unit :=
  modify fun i => (i + 7) / 8 * 8

end Deflate

/-- A code in which no word begins another. Words are ordered by length, and words of one length by
their symbols; each is the number after the one before it. -/
structure PrefixCode where
  /-- how many words have length 1, 2, ... -/
  counts : List Nat
  /-- the symbols in the order of their words -/
  symbols : Array Nat

namespace PrefixCode

/-- The code whose word for symbol `s` has `lengths[s]` bits, none if that is zero. -/
def ofLengths (lengths : List Nat) : PrefixCode :=
  let ofLength := (List.range 15).map fun l =>
    lengths.zipIdx.filterMap fun (n, s) => if n = l + 1 then some s else none
  ⟨ofLength.map List.length, ofLength.flatten.toArray⟩

/-- The symbol of a word, of which the bits `word` were read already: `first` is the first word of
the current length and `index` the place of its symbol. -/
def decodeFrom (code : PrefixCode) : List Nat → (word first index : Nat) → Deflate.Reading Nat
  | [], _, _, _ => failure
  | count :: counts, word, first, index => do
    let word := 2 * word + (← Deflate.bit)
    if word < first + count then
      match code.symbols[index + (word - first)]? with
      | some symbol => return symbol
      | none => failure
    else code.decodeFrom counts word (2 * (first + count)) (index + count)

def decode (code : PrefixCode) : Deflate.Reading Nat :=
  code.decodeFrom code.counts 0 0 0

end PrefixCode

namespace Deflate

/-- A number in steps: from `bases[i]` on, told apart by `extra[i]` more bits. -/
structure Scale where
  bases : Array Nat
  extra : Array Nat

def lengths : Scale where
  bases := #[3, 4, 5, 6, 7, 8, 9, 10, 11, 13, 15, 17, 19, 23, 27, 31, 35, 43, 51, 59, 67, 83, 99,
    115, 131, 163, 195, 227, 258]
  extra := #[0, 0, 0, 0, 0, 0, 0, 0, 1, 1, 1, 1, 2, 2, 2, 2, 3, 3, 3, 3, 4, 4, 4, 4, 5, 5, 5, 5, 0]

def distances : Scale where
  bases := #[1, 2, 3, 4, 5, 7, 9, 13, 17, 25, 33, 49, 65, 97, 129, 193, 257, 385, 513, 769, 1025,
    1537, 2049, 3073, 4097, 6145, 8193, 12289, 16385, 24577]
  extra := #[0, 0, 0, 0, 1, 1, 2, 2, 3, 3, 4, 4, 5, 5, 6, 6, 7, 7, 8, 8, 9, 9, 10, 10, 11, 11, 12,
    12, 13, 13]

def Scale.number (s : Scale) (i : Nat) : Reading Nat :=
  match s.bases[i]?, s.extra[i]? with
  | some base, some extra => return base + (← Deflate.number extra)
  | _, _ => failure

/-- `length` bytes more, each the one `distance` before it. -/
def repeated (distance : Nat) : (length : Nat) → ByteArray → ByteArray
  | 0, out => out
  | n + 1, out => repeated distance n (out.push ((out[out.size - distance]?).getD 0))

/-- The bytes of a block of symbols, behind those that are there. A symbol has at least one bit, so
`fuel` bounds the bits that are left. -/
def symbols (literals back : PrefixCode) : (fuel : Nat) → ByteArray → Reading ByteArray
  | 0, _ => failure
  | fuel + 1, out => do
    let s ← literals.decode
    if s < 256 then symbols literals back fuel (out.push s.toUInt8)
    else if s = 256 then return out
    else
      let length ← lengths.number (s - 257)
      let distance ← distances.number (← back.decode)
      if distance ≤ out.size then symbols literals back fuel (repeated distance length out)
      else failure

/-- The bytes of a plain block: their number, the same number with all bits flipped, the bytes. -/
def plain (out : ByteArray) : Reading ByteArray := do
  align
  let length ← number 16
  let flipped ← number 16
  let start := (← get) / 8
  let bytes ← read
  if length + flipped = 65535 ∧ start + length ≤ bytes.size then
    set (8 * (start + length))
    return out ++ bytes.extract start (start + length)
  else failure

def fixedLiterals : PrefixCode :=
  .ofLengths <| List.replicate 144 8 ++ List.replicate 112 9 ++ List.replicate 24 7
    ++ List.replicate 8 8

def fixedDistances : PrefixCode :=
  .ofLengths (List.replicate 30 5)

/-- The order in which the word lengths of the code for word lengths come. -/
def lengthOrder : List Nat :=
  [16, 17, 18, 0, 8, 7, 9, 6, 10, 5, 11, 4, 12, 3, 13, 2, 14, 1, 15]

/-- Word lengths up to `total`, the last one first: a length, the one before it 3 to 6 times, or
zeros. -/
def wordLengths (code : PrefixCode) (total : Nat) : (fuel : Nat) → List Nat → Reading (List Nat)
  | 0, _ => failure
  | fuel + 1, found => do
    if total ≤ found.length then
      if found.length = total then return found.reverse else failure
    else
      let more ← match ← code.decode, found with
        | 16, last :: _ => pure <| List.replicate (3 + (← number 2)) last
        | 16, [] => failure
        | 17, _ => pure <| List.replicate (3 + (← number 3)) 0
        | 18, _ => pure <| List.replicate (11 + (← number 7)) 0
        | n, _ => pure [n]
      wordLengths code total fuel (more ++ found)

def describedCodes : Reading (PrefixCode × PrefixCode) := do
  let literals := 257 + (← number 5)
  let back := 1 + (← number 5)
  let given ← (List.replicate (4 + (← number 4)) ()).mapM fun _ => number 3
  let code := PrefixCode.ofLengths <| (List.range 19).map fun s =>
    ((lengthOrder.zip given).lookup s).getD 0
  let words ← wordLengths code (literals + back) (literals + back + 1) []
  return (.ofLengths (words.take literals), .ofLengths (words.drop literals))

def blocks : (fuel : Nat) → ByteArray → Reading ByteArray
  | 0, _ => failure
  | fuel + 1, out => do
    let last ← bit
    let left := 8 * (← read).size
    let out ← match ← number 2 with
      | 0 => plain out
      | 1 => symbols fixedLiterals fixedDistances left out
      | 2 =>
        let (literals, back) ← describedCodes
        symbols literals back left out
      | _ => failure
    if last = 1 then return out else blocks fuel out

def wordAt (bytes : ByteArray) (i : Nat) : Nat :=
  (List.range 4).foldl (fun n k => 256 * n + ((bytes[i + k]?).getD 0).toNat) 0

def wordBytes (n : UInt32) : ByteArray :=
  ⟨#[(n >>> 24).toUInt8, (n >>> 16).toUInt8, (n >>> 8).toUInt8, n.toUInt8]⟩

/-- All bytes of compressed data. It begins with two bytes that form a multiple of 31 and name the
method, and ends with the sums of the bytes. -/
def decompress? (bytes : ByteArray) : Option ByteArray := do
  let method := (← bytes[0]?).toNat
  let flags := (← bytes[1]?).toNat
  guard (method % 16 = 8 ∧ (256 * method + flags) % 31 = 0 ∧ flags / 32 % 2 = 0)
  let (out, i) ← blocks (8 * bytes.size) .empty bytes 16
  guard (wordAt bytes ((i + 7) / 8) = (Checksum.adler32 out).toNat)
  return out

def plainBlocks (bytes : ByteArray) (start : Nat) (out : ByteArray) : ByteArray :=
  let length := min 65535 (bytes.size - start)
  let last := if start + length < bytes.size then 0 else 1
  let low (n : Nat) := n.toUInt8
  let head : ByteArray :=
    ⟨#[last, low length, low (length / 256), low (65535 - length), low ((65535 - length) / 256)]⟩
  let out := out ++ head ++ bytes.extract start (start + length)
  if start + 65535 < bytes.size then plainBlocks bytes (start + 65535) out else out
termination_by bytes.size - start
decreasing_by omega

def wrap (bytes : ByteArray) : ByteArray :=
  plainBlocks bytes 0 ⟨#[0x78, 0x01]⟩ ++ wordBytes (Checksum.adler32 bytes)

end Deflate
end HueSaturation
