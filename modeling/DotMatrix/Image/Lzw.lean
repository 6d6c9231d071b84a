/-!
# Code streams for GIF

The pixels of a GIF frame are stored as codes of a few bits.  With a code size of `n` bits, the
codes below `2 ^ n` are single pixels, `2 ^ n` clears the reader's table and `2 ^ n + 1` ends the
stream.  A reader adds one entry to its table for every code after the first, and once the table is
full for codes of `n + 1` bits the codes grow.

The stream written here uses single pixels only, and clears the table before it can grow, so that
every code has `n + 1` bits.  Any reader shows the pixels it was made from.
-/

namespace DotMatrix
namespace Lzw

/-- The code size for some pixels: at least two, and enough for the largest pixel. -/
def codeSize (pixels : Array UInt8) : Nat :=
  let largest := pixels.foldl (fun m p => max m p.toNat) 0
  max 2 (if largest = 0 then 0 else largest.log2 + 1)

/-- The code that clears the table. -/
def clear (size : Nat) : Nat := 1 <<< size

/-- The code that ends the stream. -/
def finish (size : Nat) : Nat := clear size + 1

/-- Number of pixels that can follow a clear code before the codes would grow. -/
def run (size : Nat) : Nat := clear size - 2

/-- Bits waiting to be completed to bytes, low bits first, behind the bytes that are complete. -/
structure Bits where
  /-- Complete bytes. -/
  bytes : Array UInt8
  /-- The waiting bits. -/
  waiting : Nat
  /-- Number of waiting bits. -/
  count : Nat

namespace Bits

/-- Move one complete byte, if there is one, from the waiting bits to the bytes. -/
def settle (b : Bits) : Bits :=
  if b.count < 8 then b
  else ⟨b.bytes.push (UInt8.ofNat (b.waiting % 256)), b.waiting / 256, b.count - 8⟩

/-- Add a code of up to nine bits. -/
def add (b : Bits) (width code : Nat) : Bits :=
  settle (settle ⟨b.bytes, b.waiting + code <<< b.count, b.count + width⟩)

/-- The bytes, the last of them filled up with zero bits. -/
def close (b : Bits) : Array UInt8 :=
  if b.count = 0 then b.bytes else b.bytes.push (UInt8.ofNat b.waiting)

end Bits

/-- Add one pixel, with a clear code before it if no more pixels fit after the last one. -/
def addPixel (size : Nat) : Bits × Nat → UInt8 → Bits × Nat
  | (b, 0), p => ((b.add (size + 1) (clear size)).add (size + 1) p.toNat, run size - 1)
  | (b, left + 1), p => (b.add (size + 1) p.toNat, left)

/-- The code stream of some pixels. -/
def stream (size : Nat) (pixels : Array UInt8) : Array UInt8 :=
  let opened := (Bits.mk #[] 0 0).add (size + 1) (clear size)
  let (written, _) := pixels.foldl (addPixel size) (opened, run size)
  (written.add (size + 1) (finish size)).close

end Lzw
end DotMatrix
