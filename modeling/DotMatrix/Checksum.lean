/-!
# Checksums

The two checksums of a PNG file: the cyclic redundancy check at the end of every chunk, and the
Adler sum at the end of the compressed data.
-/

namespace DotMatrix
namespace Checksum

/-- One bit of the cyclic redundancy check, lowest bit first. -/
def crcBit (c : UInt32) : UInt32 :=
  if c &&& 1 = 1 then (c >>> 1) ^^^ 0xEDB88320 else c >>> 1

/-- One byte of the cyclic redundancy check. -/
def crcByte (c : UInt32) (b : UInt8) : UInt32 :=
  let c := c ^^^ b.toUInt32
  crcBit (crcBit (crcBit (crcBit (crcBit (crcBit (crcBit (crcBit c)))))))

/-- The cyclic redundancy check of some bytes. -/
def crc32 (bytes : Array UInt8) : UInt32 := bytes.foldl crcByte 0xFFFFFFFF ^^^ 0xFFFFFFFF

/-- The modulus of the Adler sum. -/
def adlerModulus : Nat := 65521

/-- The Adler sum of some bytes. -/
def adler32 (bytes : Array UInt8) : UInt32 :=
  let (a, b) := bytes.foldl
    (fun (a, b) byte =>
      let a := (a + byte.toNat) % adlerModulus
      (a, (b + a) % adlerModulus))
    (1, 0)
  UInt32.ofNat (b * 65536 + a)

end Checksum
end DotMatrix
