/-!
# Validity masks

A mask records for every row of a chunk whether it holds a value. The flags are packed into bytes,
eight to a byte and the first in the lowest bit, with a set bit for a value and a clear bit for a
null; bits past the length are kept clear. `Mask.bits` is the list of flags that the bytes stand
for. The functions whose names end in a question mark refuse to touch a byte that the mask does not
have.
-/

namespace Columnar

/-- Packed presence flags. -/
structure Mask where
  /-- The flags, eight to a byte, the first in the lowest bit. -/
  bytes : Array UInt8 := #[]
  /-- The number of flags. -/
  len : Nat := 0
deriving DecidableEq, Repr, Inhabited

namespace Mask

/-- The number of bytes that a number of flags takes. -/
def byteCount (bits : Nat) : Nat := (bits + 7) / 8

/-- The byte with the flag at an index set alone. -/
def flag (index : Nat) : UInt8 := 1 <<< UInt8.ofNat (index % 8)

/-- The bits in use in the last byte of `len` flags. -/
def tailMask (len : Nat) : UInt8 := if len % 8 = 0 then 255 else flag len - 1

/-- Clear the bits past `len` in the last byte. -/
def clearTail (bytes : Array UInt8) (len : Nat) : Array UInt8 :=
  bytes.modify (bytes.size - 1) (· &&& tailMask len)

/-- The mask without flags. -/
def empty : Mask := {}

/-- Whether there are no flags. -/
def isEmpty (m : Mask) : Bool := m.len == 0

/-- Make room for further flags. Room is made as flags are added, so that nothing changes. -/
def reserve (m : Mask) (_additional : Nat) : Mask := m

/-- A mask of nulls only. -/
def allNull (len : Nat) : Mask := ⟨Array.replicate (byteCount len) 0, len⟩

/-- The mask of the first `len` bits of packed bytes, if there are as many. Further bits and bytes
are ignored. -/
def ofBytes? (bytes : Array UInt8) (len : Nat) : Option Mask :=
  if byteCount len ≤ bytes.size then some ⟨clearTail (bytes.take (byteCount len)) len, len⟩
  else none

/-- Whether the row at an index holds a value. -/
def isValid (m : Mask) (index : Nat) : Bool :=
  m.bytes.getD (index / 8) 0 &&& flag index != 0

/-- `Mask.isValid`, within the bytes of the mask. -/
def isValid? (m : Mask) (index : Nat) : Option Bool :=
  if index / 8 < m.bytes.size then some (m.isValid index) else none

/-- The flags as a list. -/
def bits (m : Mask) : List Bool := (List.range m.len).map m.isValid

/-- Change the flag at an index; past the bytes, nothing is changed. -/
def set (m : Mask) (index : Nat) (valid : Bool) : Mask :=
  { m with
    bytes := m.bytes.modify (index / 8) fun b =>
      if valid then b ||| flag index else b &&& ~~~flag index }

/-- Change the flag at an index and return the one it had, within the bytes of the mask. -/
def set? (m : Mask) (index : Nat) (valid : Bool) : Option (Bool × Mask) :=
  if index / 8 < m.bytes.size then some (m.isValid index, m.set index valid) else none

/-- Add a flag at the end. -/
def push (m : Mask) (valid : Bool) : Mask :=
  match m with
  | ⟨bytes, len⟩ =>
    let bytes := if len % 8 = 0 then bytes.push 0 else bytes
    let bytes := if valid then bytes.modify (len / 8) (· ||| flag len) else bytes
    ⟨bytes, len + 1⟩

/-- The mask of a list of flags. -/
def ofBits (flags : List Bool) : Mask := flags.foldl push empty

/-- Bytes cut or filled up to a number of bytes. -/
def resizeBytes (bytes : Array UInt8) (count : Nat) (fill : UInt8) : Array UInt8 :=
  bytes.take count ++ Array.replicate (count - bytes.size) fill

/-- Add `count` copies of a flag. Set flags first complete the byte in use, then fill whole
bytes. -/
def extend (m : Mask) (valid : Bool) (count : Nat) : Mask :=
  if count = 0 then m
  else
    match m with
    | ⟨bytes, len⟩ =>
      let newLen := len + count
      if valid then
        let inByte := min ((8 - len % 8) % 8) count
        let bytes := (List.range' len inByte).foldl (fun bytes i =>
          bytes.modify (i / 8) (· ||| flag i)) bytes
        ⟨clearTail (resizeBytes bytes (byteCount newLen) 255) newLen, newLen⟩
      else ⟨resizeBytes bytes (byteCount newLen) 0, newLen⟩

/-- A mask of values only. -/
def allValidOfLen (len : Nat) : Mask := empty.extend true len

/-- Drop the flags from an index on. -/
def truncate (m : Mask) (len : Nat) : Mask :=
  if m.len ≤ len then m
  else ⟨clearTail (m.bytes.take (byteCount len)) len, len⟩

/-- Clear every flag that is clear in the other mask. -/
def and (m other : Mask) : Mask :=
  { m with
    bytes := m.bytes.mapIdx fun i b =>
      match other.bytes[i]? with
      | some b' => b &&& b'
      | none => b }

/-- The number of bits set in a byte. -/
def popCount (b : UInt8) : Nat := (List.range 8).countP fun i => b &&& flag i != 0

/-- The number of nulls in `start..stop`. Flags are read one by one up to the first whole byte,
then byte by byte, then one by one again. -/
def nullCountIn (m : Mask) (start stop : Nat) : Nat :=
  if stop ≤ start then 0
  else
    let firstByte := min ((start + 7) / 8 * 8) stop
    let lastByte := firstByte + (stop - firstByte) / 8 * 8
    let before := (List.range' start (firstByte - start)).countP m.isValid
    let whole := (m.bytes.extract (firstByte / 8) (lastByte / 8)).foldl
      (fun n b => n + popCount b) 0
    let after := (List.range' lastByte (stop - lastByte)).countP m.isValid
    stop - start - (before + whole + after)

/-- `Mask.nullCountIn`, within the bytes of the mask. -/
def nullCountIn? (m : Mask) (start stop : Nat) : Option Nat :=
  if start < stop ∧ 8 * m.bytes.size < stop then none else some (m.nullCountIn start stop)

/-- The number of nulls. -/
def nullCount (m : Mask) : Nat := m.nullCountIn 0 m.len

/-- Whether there is no null. -/
def allValid (m : Mask) : Bool := m.nullCount == 0

end Mask

end Columnar
