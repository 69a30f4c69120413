/-!
# Checksums

* `Checksum.crc32`     the remainder that ends each part of a PNG file;
* `Checksum.adler32`   the two sums that end compressed data.
-/

namespace HueSaturation.Checksum

/-- One bit of the division by the polynomial `0xedb88320`, lowest bits first. -/
def crcBit (c : UInt32) : UInt32 :=
  if c % 2 = 1 then (c >>> 1) ^^^ 0xedb88320 else c >>> 1

def crcByte (c : UInt32) : UInt32 :=
  crcBit <| crcBit <| crcBit <| crcBit <| crcBit <| crcBit <| crcBit <| crcBit c

/-- The remainder of `bytes`, all bits flipped before and after. -/
def crc32 (bytes : ByteArray) : UInt32 :=
  ~~~bytes.foldl (fun c b => (c >>> 8) ^^^ crcByte ((c ^^^ b.toUInt32) &&& 0xff)) 0xffffffff

/-- The sum of the bytes plus one in the lower half, the sum of these sums in the upper half, both
modulo 65521. -/
def adler32 (bytes : ByteArray) : UInt32 :=
  let (a, b) := bytes.foldl
    (fun (s : UInt32 × UInt32) byte =>
      let a := (s.1 + byte.toUInt32) % 65521
      (a, (s.2 + a) % 65521))
    (1, 0)
  b <<< 16 ||| a

end HueSaturation.Checksum
