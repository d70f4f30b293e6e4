/-!
# CRC-32

The checksum that archives keep of every entry: the remainder of the bytes, least significant bit
first, by a fixed polynomial.
-/

namespace Verdict.Crc32

/-- The polynomial with its bits reversed. -/
def polynomial : UInt32 := 0xedb88320

/-- Takes one bit into the remainder. -/
def shift (r : UInt32) : UInt32 :=
  if r &&& 1 = 0 then r >>> 1 else (r >>> 1) ^^^ polynomial

/-- Takes one byte into the remainder. -/
def step (r : UInt32) (byte : UInt8) : UInt32 :=
  Nat.repeat shift 8 (r ^^^ byte.toUInt32)

def checksum (bytes : List UInt8) : UInt32 := ~~~(bytes.foldl step 0xffffffff)

end Verdict.Crc32
