/-!
# Bytes of the wire format

A number is written in base 128, low digits first, with the top bit set on every byte but the last.
At most ten bytes are read, and of the tenth only the lowest bit, so a number that was read fits
into 64 bits. Readers answer what they read and the bytes behind it.
-/

namespace SwiftRpc.Wire

abbrev Bytes := List UInt8

def varint (n : Nat) : Bytes :=
  if n < 128 then [UInt8.ofNat n] else UInt8.ofNat (n % 128 + 128) :: varint (n / 128)

/-- Reads a number of at most `left` bytes, where the last one allowed is at most one. -/
def readDigits : Nat → Bytes → Option (Nat × Bytes)
  | 0, _ => none
  | _, [] => none
  | left + 1, b :: rest =>
    if b.toNat < 128 then if left = 0 ∧ 1 < b.toNat then none else some (b.toNat, rest)
    else (readDigits left rest).map fun (high, rest) => (b.toNat - 128 + 128 * high, rest)

def readVarint (bytes : Bytes) : Option (Nat × Bytes) := readDigits 10 bytes

/-- The first `n` bytes and the others. -/
def readBytes : Nat → Bytes → Option (Bytes × Bytes)
  | 0, bytes => some ([], bytes)
  | _ + 1, [] => none
  | n + 1, b :: rest => (readBytes n rest).map fun (taken, rest) => (b :: taken, rest)

/-- A length and as many bytes. -/
def readDelimited (bytes : Bytes) : Option (Bytes × Bytes) :=
  (readVarint bytes).bind fun (n, rest) => readBytes n rest

def delimited (payload : Bytes) : Bytes := varint payload.length ++ payload

theorem readDigits_length {left : Nat} {bytes rest : Bytes} {n : Nat}
    (h : readDigits left bytes = some (n, rest)) : rest.length < bytes.length := by
  induction left generalizing bytes n with
  | zero => simp [readDigits] at h
  | succ left ih =>
    cases bytes with
    | nil => simp [readDigits] at h
    | cons b tail =>
      simp only [readDigits] at h
      split at h
      · split at h
        · simp at h
        · simp only [Option.some.injEq, Prod.mk.injEq] at h
          simp [← h.2]
      · obtain ⟨⟨high, rest'⟩, hr, he⟩ := Option.map_eq_some_iff.1 h
        simp only [Prod.mk.injEq] at he
        have := ih (he.2 ▸ hr)
        simp only [List.length_cons]
        omega

theorem readVarint_length {bytes rest : Bytes} {n : Nat}
    (h : readVarint bytes = some (n, rest)) : rest.length < bytes.length :=
  readDigits_length h

theorem readBytes_length {n : Nat} {bytes taken rest : Bytes}
    (h : readBytes n bytes = some (taken, rest)) : rest.length ≤ bytes.length := by
  induction n generalizing bytes taken with
  | zero =>
    simp only [readBytes, Option.some.injEq, Prod.mk.injEq] at h
    simp [← h.2]
  | succ n ih =>
    cases bytes with
    | nil => simp [readBytes] at h
    | cons b tail =>
      obtain ⟨⟨taken', rest'⟩, hr, he⟩ := Option.map_eq_some_iff.1 h
      simp only [Prod.mk.injEq] at he
      have := ih (he.2 ▸ hr)
      simp only [List.length_cons]
      omega

theorem readDelimited_length {bytes payload rest : Bytes}
    (h : readDelimited bytes = some (payload, rest)) : rest.length < bytes.length := by
  obtain ⟨⟨n, tail⟩, hv, hb⟩ := Option.bind_eq_some_iff.1 h
  exact Nat.lt_of_le_of_lt (readBytes_length hb) (readVarint_length hv)

end SwiftRpc.Wire
