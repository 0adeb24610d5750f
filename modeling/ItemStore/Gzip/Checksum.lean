/-!
# The checksum of compressed data

The 32-bit cyclic redundancy check with the reflected polynomial `0xEDB88320`.
-/

namespace ItemStore.Gzip

/-- One step of the division for a single bit. -/
def checksumBit (register : UInt32) : UInt32 :=
  if register &&& 1 = 1 then (register >>> 1) ^^^ 0xEDB88320 else register >>> 1

/-- Takes in one byte. -/
def checksumByte (register : UInt32) (b : UInt8) : UInt32 :=
  (List.range 8).foldl (fun r _ => checksumBit r) (register ^^^ b.toUInt32)

/-- The checksum of bytes. -/
def checksum (bytes : List UInt8) : UInt32 :=
  (bytes.foldl checksumByte 0xFFFFFFFF) ^^^ 0xFFFFFFFF

end ItemStore.Gzip
