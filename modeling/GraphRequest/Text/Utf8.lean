/-!
Decoding UTF-8. Text that is not valid is refused with the offset at which its first ill-formed
character starts.
-/

namespace GraphRequest.Text.Utf8

/-- A character of which some bytes are still to come. -/
structure Unfinished where
  /-- the offset of its first byte -/
  start : Nat
  /-- the bits of the bytes read so far -/
  bits : Nat
  /-- how many bytes are to come -/
  missing : Nat
  /-- the bounds of the next byte -/
  least : UInt8
  greatest : UInt8
  deriving DecidableEq, Repr

inductive Lead
  | ascii
  | partway (unfinished : Unfinished)
  | illFormed
  deriving DecidableEq, Repr

/-- Overlong forms, surrogates and code points above `0x10FFFF` are ruled out by the bounds of the
second byte. -/
def lead (offset : Nat) (byte : UInt8) : Lead :=
  let bits := byte.toNat
  if byte < 0x80 then .ascii
  else if byte < 0xC2 then .illFormed
  else if byte < 0xE0 then .partway ⟨offset, bits % 0x20, 1, 0x80, 0xBF⟩
  else if byte = 0xE0 then .partway ⟨offset, bits % 0x10, 2, 0xA0, 0xBF⟩
  else if byte = 0xED then .partway ⟨offset, bits % 0x10, 2, 0x80, 0x9F⟩
  else if byte < 0xF0 then .partway ⟨offset, bits % 0x10, 2, 0x80, 0xBF⟩
  else if byte = 0xF0 then .partway ⟨offset, bits % 0x08, 3, 0x90, 0xBF⟩
  else if byte < 0xF4 then .partway ⟨offset, bits % 0x08, 3, 0x80, 0xBF⟩
  else if byte = 0xF4 then .partway ⟨offset, bits % 0x08, 3, 0x80, 0x8F⟩
  else .illFormed

def decodeFrom (offset : Nat) : Option Unfinished → List UInt8 → Except Nat (List Char)
  | none, [] => .ok []
  | some unfinished, [] => .error unfinished.start
  | none, byte :: rest =>
      match lead offset byte with
      | .ascii => (Char.ofNat byte.toNat :: ·) <$> decodeFrom (offset + 1) none rest
      | .partway unfinished => decodeFrom (offset + 1) (some unfinished) rest
      | .illFormed => .error offset
  | some unfinished, byte :: rest =>
      if byte < unfinished.least || unfinished.greatest < byte then .error unfinished.start
      else
        let bits := unfinished.bits * 0x40 + byte.toNat % 0x40
        if unfinished.missing ≤ 1 then (Char.ofNat bits :: ·) <$> decodeFrom (offset + 1) none rest
        else
          decodeFrom (offset + 1)
            (some ⟨unfinished.start, bits, unfinished.missing - 1, 0x80, 0xBF⟩) rest

/-- The decoded text, or the offset of the first ill-formed character. -/
def decode (bytes : List UInt8) : Except Nat String :=
  String.ofList <$> decodeFrom 0 none bytes

end GraphRequest.Text.Utf8
