/-!
# Checksum

The cyclic redundancy check with 32 bits and the reflected polynomial `0xEDB88320`, over the bytes of a text
in UTF-8.
-/

namespace Labyrinth.Text

/-- One bit of the division by the polynomial. -/
def crcBit (crc : UInt32) : UInt32 :=
  if crc &&& 1 == 1 then (crc >>> 1) ^^^ 0xEDB88320 else crc >>> 1

/-- The remainders of all single bytes. -/
def crcTable : Array UInt32 :=
  Array.ofFn fun byte : Fin 256 =>
    crcBit (crcBit (crcBit (crcBit (crcBit (crcBit (crcBit (crcBit (UInt32.ofNat byte.val))))))))

def crcByte (crc : UInt32) (byte : UInt8) : UInt32 :=
  crcTable.getD ((crc ^^^ byte.toUInt32) &&& 0xff).toNat 0 ^^^ (crc >>> 8)

def crc32 (text : String) : Nat :=
  (text.toUTF8.foldl crcByte 0xFFFFFFFF ^^^ 0xFFFFFFFF).toNat

end Labyrinth.Text
