/-!
# Name hashes

Devices are addressed by the hash of their type and of their name: the CRC-32 of the text (the
reflected polynomial `0xEDB88320`, register preset and output inverted), read as a signed 32-bit
number.  A character outside ASCII counts as a question mark.
-/

namespace ChipScript.Text

/-- One bit of polynomial division. -/
def crcBit (crc : UInt32) : UInt32 :=
  if crc &&& 1 = 1 then (crc >>> 1) ^^^ 0xEDB88320 else crc >>> 1

/-- Eight bits of division after a byte has been added to the register. -/
def crcByte (crc : UInt32) (byte : UInt8) : UInt32 :=
  Nat.repeat crcBit 8 (crc ^^^ byte.toUInt32)

/-- The CRC-32 of a byte sequence. -/
def crc32 (bytes : List UInt8) : UInt32 :=
  bytes.foldl crcByte 0xFFFFFFFF ^^^ 0xFFFFFFFF

/-- The byte that stands for a character in a hash. -/
def hashByte (c : Char) : UInt8 :=
  if c.toNat < 128 then c.toNat.toUInt8 else 63

/-- The hash of a device type or a device name. -/
def checksum (s : String) : Int32 :=
  (crc32 (s.toList.map hashByte)).toInt32

/-- A hash as it is written in assembly. -/
def checksumText (hash : Int32) : String :=
  toString hash.toInt

end ChipScript.Text
