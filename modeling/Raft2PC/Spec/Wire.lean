import Raft2PC.Spec.Protobuf
import Raft2PC.Wire.Varint

/-! The library with the wire format it documents, for strings of ASCII characters. -/

namespace Raft2PC

open Wire

/-- An `int32` travels with its sign extended to 64 bits. -/
def int64 (v : ℤ) : ℕ := (v % (2 ^ 64 : ℕ)).toNat

/-- The lower 32 bits with their sign. -/
def int32 (n : ℕ) : ℤ := (n : ℤ).bmod (2 ^ 32)

def textBytes (t : Text) : List UInt8 := t.map fun c => c.toNat.toUInt8

def bytesText (bytes : List UInt8) : Text := bytes.map fun b => Char.ofNat b.toNat

/-! ### Writing -/

abbrev Item := Part × List UInt8

def intItem (part : ℕ → ℤ → Part) (number : ℕ) (v : ℤ) : List Item :=
  if v = 0 then [] else [(part number v, head number 0 (int64 v))]

def commandItem (number : ℕ) (t : Text) : List Item :=
  if t = [] then [] else [(.command t, head number 2 t.length ++ textBytes t)]

def Entry.items (e : Entry) : List Item :=
  intItem .entryInt 1 e.term ++ intItem .entryInt 2 e.index ++ commandItem 3 e.command ++
    intItem .entryInt 4 e.id

def Field.items : Field → List Item
  | .int number v => intItem .int number v
  | .entry number e => (.entry, head number 2 (toBytes e.items).length) :: e.items

def WrapperMessage.items (m : WrapperMessage) : List Item :=
  if m = .notSet then []
  else
    let body := m.fields.flatMap Field.items
    (.message m.number, head m.number 2 (toBytes body).length) :: body

/-! ### Reading -/

/-- Where a reader stands: before the message or inside it, with `left` bytes of an entry to
come. -/
inductive Place where
  | outside
  | inside (left : ℕ)
deriving DecidableEq, Repr

/-- The next part, the place after it and the rest of the buffer. -/
def nextPart : Place → List UInt8 → Option (Part × Place × List UInt8)
  | .outside, bytes =>
    (readHead bytes).map fun ((number, _, _), rest) => (.message number, .inside 0, rest)
  | .inside 0, bytes =>
    (readHead bytes).map fun ((number, type, value), rest) =>
      if type = 0 then (.int number (int32 value), .inside 0, rest)
      else (.entry, .inside value, rest)
  | .inside left, bytes =>
    (readHead bytes).bind fun ((number, type, value), rest) =>
      let left := left - (bytes.length - rest.length)
      if type = 0 then some (.entryInt number (int32 value), .inside left, rest)
      else if value ≤ rest.length then
        some (.command (bytesText (rest.take value)), .inside (left - value), rest.drop value)
      else none

def wire : Protobuf where
  serialize m := toBytes m.items
  parse bytes := build (readAll nextPart bytes.length .outside bytes)

end Raft2PC
