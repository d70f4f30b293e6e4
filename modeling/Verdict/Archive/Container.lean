import Verdict.Archive.Entry
import Verdict.Digest.Crc32

/-!
# Archive files

The bytes of an archive: a ZIP file whose entries are stored as they are. Every entry is written
once with its header, the headers are repeated in a directory at the end, and a last record says
where the directory is. Reading starts from that record and refuses compressed entries.
-/

namespace Verdict.Container

/-- The bytes of a number, least significant first. -/
def littleEndian (width n : Nat) : List UInt8 :=
  (List.range width).map fun i => UInt8.ofNat (n / Nat.pow 256 i)

/-- The number written by `width` bytes, least significant first. -/
def number (bytes : ByteArray) (width start : Nat) : Nat :=
  match width with
  | 0 => 0
  | width + 1 => (bytes.data.getD start 0).toNat + 256 * number bytes width (start + 1)

/-! ## Records -/

def localSignature : Nat := 0x04034b50
def directorySignature : Nat := 0x02014b50
def endSignature : Nat := 0x06054b50

/-- The format version that readers have to know. -/
def formatVersion : Nat := 20

/-- Names are UTF-8. -/
def nameFlags : Nat := 0x0800

/-- The first of January 1980, at midnight: the date all entries carry. -/
def date : Nat := 0x00210000

/-- The bytes of an entry's text. -/
def content (e : Entry) : List UInt8 := (e.text?.getD "").toUTF8.toList

def nameBytes (e : Entry) : List UInt8 := e.name.toUTF8.toList

/-- What the header of an entry and its line in the directory have in common. -/
def description (e : Entry) : List UInt8 :=
  let bytes := content e
  littleEndian 2 formatVersion ++ littleEndian 2 nameFlags ++ littleEndian 2 0 ++
    littleEndian 4 date ++ littleEndian 4 (Crc32.checksum bytes).toNat ++
    littleEndian 4 bytes.length ++ littleEndian 4 bytes.length ++
    littleEndian 2 (nameBytes e).length ++ littleEndian 2 0

/-- An entry with its header. -/
def localRecord (e : Entry) : List UInt8 :=
  littleEndian 4 localSignature ++ description e ++ nameBytes e ++ content e

/-- The line of an entry in the directory. -/
def directoryRecord (e : Entry) (offset : Nat) : List UInt8 :=
  littleEndian 4 directorySignature ++ littleEndian 2 formatVersion ++ description e ++
    littleEndian 2 0 ++ littleEndian 2 0 ++ littleEndian 2 0 ++ littleEndian 4 0 ++
    littleEndian 4 offset ++ nameBytes e

/-- The last record of an archive. -/
def endRecord (count size offset : Nat) : List UInt8 :=
  littleEndian 4 endSignature ++ littleEndian 4 0 ++ littleEndian 2 count ++
    littleEndian 2 count ++ littleEndian 4 size ++ littleEndian 4 offset ++ littleEndian 2 0

/-- The directory of entries written from an offset on. -/
def directory (offset : Nat) : List Entry → List UInt8
  | [] => []
  | e :: es => directoryRecord e offset ++ directory (offset + (localRecord e).length) es

/-- The bytes of an archive. -/
def encode (entries : List Entry) : ByteArray :=
  let records := entries.flatMap localRecord
  let lines := directory 0 entries
  ⟨(records ++ lines ++ endRecord entries.length lines.length records.length).toArray⟩

/-! ## Reading -/

/-- Looks for the last record, from an offset backwards. -/
def findEnd? (bytes : ByteArray) : Nat → Option Nat
  | 0 => if number bytes 4 0 = endSignature then some 0 else none
  | start + 1 =>
    if number bytes 4 (start + 1) = endSignature then some (start + 1) else findEnd? bytes start

def slice (bytes : ByteArray) (start length : Nat) : ByteArray :=
  bytes.extract start (start + length)

/-- Reads the entry whose line in the directory starts at an offset, and where the next line
starts. -/
def readEntry? (bytes : ByteArray) (start : Nat) : Option (Entry × Nat) := do
  let nameLength := number bytes 2 (start + 28)
  let next := start + 46 + nameLength + number bytes 2 (start + 30) + number bytes 2 (start + 32)
  let size := number bytes 4 (start + 20)
  let header := number bytes 4 (start + 42)
  let body := header + 30 + number bytes 2 (header + 26) + number bytes 2 (header + 28)
  let name ← String.fromUTF8? (slice bytes (start + 46) nameLength)
  let data := slice bytes body size
  let sound := number bytes 4 start = directorySignature && number bytes 4 header = localSignature
    && number bytes 2 (start + 10) = 0 && data.size = size
    && number bytes 4 (start + 16) = (Crc32.checksum data.toList).toNat
  if sound then return (⟨name, String.fromUTF8? data⟩, next) else none

/-- Reads a number of entries whose lines start at an offset. -/
def readEntries? (bytes : ByteArray) (start : Nat) : Nat → Option (List Entry)
  | 0 => some []
  | count + 1 => do
    let (entry, next) ← readEntry? bytes start
    return entry :: (← readEntries? bytes next count)

/-- The entries of an archive; nothing for other bytes. -/
def decode? (bytes : ByteArray) : Option (List Entry) := do
  if bytes.size < 22 then none
  let last ← findEnd? bytes (bytes.size - 22)
  readEntries? bytes (number bytes 4 (last + 16)) (number bytes 2 (last + 10))

end Verdict.Container
