namespace IntervalIndex.Gzip

/-- One bit of the cyclic redundancy check with the reflected polynomial of gzip. -/
def crcBit (crc : UInt32) : UInt32 :=
  if crc &&& 1 = 1 then (crc >>> 1) ^^^ 0xEDB88320 else crc >>> 1

def crcByte (crc : UInt32) (byte : UInt8) : UInt32 :=
  Nat.repeat crcBit 8 (crc ^^^ byte.toUInt32)

def crc32 (bytes : Array UInt8) : Nat :=
  ((bytes.foldl crcByte 0xFFFFFFFF) ^^^ 0xFFFFFFFF).toNat

end IntervalIndex.Gzip
