import HeaderRelay.Document
import HeaderRelay.Error
import HeaderRelay.Hash

set_option autoImplicit false

namespace HeaderRelay

open Fields (required)

/-- A block header: eighty bytes on the wire, of which every integer is little-endian. Hashes keep
the byte order of the wire. -/
structure Header where
  version : BitVec 32
  prevHash : Digest
  merkleRoot : Digest
  timestamp : BitVec 32
  bits : BitVec 32
  nonce : BitVec 32
deriving DecidableEq

namespace Header

def size : Nat := 80

def wordBytes (word : BitVec 32) : Bytes := Bytes.ofNatLE 4 word.toNat

def wordAt (raw : Bytes) (offset : Nat) : BitVec 32 :=
  BitVec.ofNat 32 (Bytes.littleEndian ((raw.drop offset).take 4))

def wire (header : Header) : Bytes :=
  wordBytes header.version ++ header.prevHash.bytes ++ header.merkleRoot.bytes ++
    wordBytes header.timestamp ++ wordBytes header.bits ++ wordBytes header.nonce

def wrongSize (raw : Bytes) : RelayError :=
  .malformed "BlockHeader" ("expected 80 bytes, got " ++ Text.integer raw.length)

def ofWire (raw : Bytes) : Except RelayError Header :=
  if sized : raw.length = size then
    .ok
      { version := wordAt raw 0
        prevHash := SizedBytes.slice raw 4 (by simp only [sized, size]; omega)
        merkleRoot := SizedBytes.slice raw 36 (by simp only [sized, size]; omega)
        timestamp := wordAt raw 68
        bits := wordAt raw 72
        nonce := wordAt raw 76 }
  else .error (wrongSize raw)

/-- The hash of a header, which names its block. -/
def hash (header : Header) : Digest := doubleSha256 header.wire

/-- The hash of a header's bytes, taken without reading them. -/
def hashOfWire (raw : Bytes) : Except RelayError Digest :=
  if raw.length = size then .ok (doubleSha256 raw) else .error (wrongSize raw)

/-- A hash as the number that is compared with a target. -/
def hashValue (bytes : Bytes) : Nat := Bytes.littleEndian bytes

def toJson (header : Header) : Json :=
  .object [("version", .integer header.version.toNat),
    ("prevHash", header.prevHash.toJson), ("merkleRoot", header.merkleRoot.toJson),
    ("timestamp", .integer header.timestamp.toNat),
    ("bits", .integer header.bits.toNat), ("nonce", .integer header.nonce.toNat)]

def fields : Fields Header :=
  mk <$> required (.plain "version") (Reader.word 32)
    <*> required ⟨"prevHash", "prev_hash"⟩ Reader.digest
    <*> required ⟨"merkleRoot", "merkle_root"⟩ Reader.digest
    <*> required (.plain "timestamp") (Reader.word 32)
    <*> required (.plain "bits") (Reader.word 32)
    <*> required (.plain "nonce") (Reader.word 32)

def ofJson : Json → Checked Header := fields.readObject

instance : Document Header := ⟨toJson, ofJson⟩

end Header

end HeaderRelay
