import Mathlib
import HeaderRelay.Bytes.Lemmas
import HeaderRelay.Header

set_option autoImplicit false

namespace HeaderRelay.Header

variable {raw : Bytes} {header : Header}

/-- A word that is read is written as the bytes it was read from. -/
theorem wordBytes_wordAt (raw : Bytes) (offset : Nat) (within : offset + 4 ≤ raw.length) :
    wordBytes (wordAt raw offset) = (raw.drop offset).take 4 := by
  have long : ((raw.drop offset).take 4).length = 4 := by
    rw [List.length_take, List.length_drop]
    omega
  have small := Bytes.littleEndian_lt ((raw.drop offset).take 4)
  have written := Bytes.ofNatLE_littleEndian ((raw.drop offset).take 4)
  rw [long] at small written
  rw [wordBytes, wordAt, BitVec.toNat_ofNat, Nat.mod_eq_of_lt (by omega), written]

/-- Eighty bytes are always a header, whatever they are. -/
theorem exists_ofWire (sized : raw.length = size) : ∃ header, ofWire raw = .ok header := by
  rw [ofWire, dif_pos sized]
  exact ⟨_, rfl⟩

theorem length_of_ofWire (read : ofWire raw = .ok header) : raw.length = size := by
  apply Decidable.byContradiction
  intro missized
  rw [ofWire, dif_neg missized] at read
  cases read

theorem wire_of_ofWire (read : ofWire raw = .ok header) : header.wire = raw := by
  have sized : raw.length = 80 := length_of_ofWire read
  rw [ofWire, dif_pos (length_of_ofWire read)] at read
  have whole : raw.take 80 = raw := List.take_of_length_le (by omega)
  have start : (raw.drop 0).take 4 = raw.take 4 := rfl
  -- the six fields stand side by side, each beginning where the one before it ends
  rw [← Except.ok.inj read]
  simp only [wire, SizedBytes.slice]
  rw [wordBytes_wordAt raw 0 (by omega), wordBytes_wordAt raw 68 (by omega),
    wordBytes_wordAt raw 72 (by omega), wordBytes_wordAt raw 76 (by omega), start]
  simp only [← List.take_add]
  exact whole

/-- The hash of a header that was read is that of its bytes. -/
theorem hash_of_ofWire (read : ofWire raw = .ok header) : header.hash = doubleSha256 raw := by
  rw [hash, wire_of_ofWire read]

theorem length_wordBytes (word : BitVec 32) : (wordBytes word).length = 4 :=
  Bytes.length_ofNatLE 4 word.toNat

theorem wordBytes_injective {word other : BitVec 32} (same : wordBytes word = wordBytes other) :
    word = other := by
  have numbers := congrArg Bytes.littleEndian same
  rw [wordBytes, wordBytes, Bytes.littleEndian_ofNatLE, Bytes.littleEndian_ofNatLE] at numbers
  apply BitVec.eq_of_toNat_eq
  omega

theorem length_wire (header : Header) : header.wire.length = size := by
  simp only [wire, List.length_append, length_wordBytes, header.prevHash.length_eq,
    header.merkleRoot.length_eq, size]

theorem wire_injective {other : Header} (same : header.wire = other.wire) : header = other := by
  have digests (digest digest' : Digest) : digest.bytes.length = digest'.bytes.length := by
    rw [digest.length_eq, digest'.length_eq]
  have words (word word' : BitVec 32) : (wordBytes word).length = (wordBytes word').length := by
    rw [length_wordBytes, length_wordBytes]
  -- the fields have fixed lengths, so they are told apart from the last one on
  obtain ⟨same, nonce⟩ := List.append_inj' same (words _ _)
  obtain ⟨same, bits⟩ := List.append_inj' same (words _ _)
  obtain ⟨same, timestamp⟩ := List.append_inj' same (words _ _)
  obtain ⟨same, merkleRoot⟩ := List.append_inj' same (digests _ _)
  obtain ⟨version, prevHash⟩ := List.append_inj' same (digests _ _)
  cases header
  cases other
  simp only [mk.injEq]
  exact ⟨wordBytes_injective version, SizedBytes.ext_bytes prevHash,
    SizedBytes.ext_bytes merkleRoot, wordBytes_injective timestamp, wordBytes_injective bits,
    wordBytes_injective nonce⟩

theorem ofWire_wire (header : Header) : ofWire header.wire = .ok header := by
  cases read : ofWire header.wire with
  | error cause =>
    rw [ofWire, dif_pos header.length_wire] at read
    cases read
  | ok other => rw [wire_injective (wire_of_ofWire read)]

/-- Reading finds the one header that is written as the bytes. -/
theorem ofWire_eq_ok_iff : ofWire raw = .ok header ↔ header.wire = raw := by
  constructor
  · exact wire_of_ofWire
  · intro written
    rw [← written]
    exact ofWire_wire header

/-- The hash of bytes, taken without reading them, is that of the header that they are. -/
theorem hashOfWire_of_ofWire (read : ofWire raw = .ok header) :
    hashOfWire raw = .ok header.hash := by
  rw [hashOfWire, if_pos (length_of_ofWire read), hash_of_ofWire read]

/-- Headers and strings of eighty bytes stand for one another. Exactly such strings are read, each
is what its header is written as, and its hash is that of the header. Every header is written as
such a string and read back from it. -/
theorem wire_bijective :
    (∀ raw, (∃ header, ofWire raw = .ok header) ↔ raw.length = 80) ∧
      (∀ raw header, ofWire raw = .ok header →
        header.wire = raw ∧ hashOfWire raw = .ok header.hash) ∧
      ∀ header : Header, header.wire.length = 80 ∧ ofWire header.wire = .ok header := by
  refine ⟨?_, ?_, ?_⟩
  · intro raw
    constructor
    · rintro ⟨header, read⟩
      exact length_of_ofWire read
    · exact exists_ofWire
  · intro raw header read
    exact ⟨ofWire_eq_ok_iff.mp read, hashOfWire_of_ofWire read⟩
  · intro header
    exact ⟨header.length_wire, ofWire_eq_ok_iff.mpr rfl⟩

end HeaderRelay.Header
