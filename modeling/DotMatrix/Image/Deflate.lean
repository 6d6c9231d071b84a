import DotMatrix.ByteOrder
import DotMatrix.Checksum

/-!
# Stored data for PNG

The data of a PNG file is a compressed stream.  The stream written here stores the data in blocks
as they are, which every reader accepts: a block has a flag for the last block, its length twice,
the second time with all bits exchanged, and its bytes.
-/

namespace DotMatrix
namespace Deflate

/-- Largest number of bytes in a stored block. -/
def blockLimit : Nat := 65535

/-- A stored block. -/
def block (last : Bool) (bytes : Array UInt8) : Array UInt8 :=
  let length := UInt16.ofNat bytes.size
  #[if last then 1 else 0] ++ (ByteOrder.low16 length).toArray ++
    (ByteOrder.low16 (~~~length)).toArray ++ bytes

/-- The blocks of the data from an offset on, behind those already written. -/
def blocksOnto (data out : Array UInt8) (offset : Nat) : Array UInt8 :=
  if data.size ≤ offset + blockLimit then out ++ block true (data.extract offset data.size)
  else
    blocksOnto data (out ++ block false (data.extract offset (offset + blockLimit)))
      (offset + blockLimit)
termination_by data.size - offset
decreasing_by
  simp only [blockLimit] at *
  omega

/-- A compressed stream that stores some data. -/
def stored (data : Array UInt8) : Array UInt8 :=
  blocksOnto data #[0x78, 0x01] 0 ++ (ByteOrder.high32 (Checksum.adler32 data)).toArray

end Deflate
end DotMatrix
