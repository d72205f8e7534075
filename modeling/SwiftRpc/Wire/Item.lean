import SwiftRpc.Wire.Field
import SwiftRpc.Wire.Kind

/-!
# Items of a record

A record that was read is the list of its items, one for each value in the order of the bytes.
Items of tags that the record's kind does not have are left out. What a repeated or a missing tag
means is up to who takes the items up.
-/

namespace SwiftRpc.Wire

inductive Item where
  | number (tag : Nat) (value : UInt64)
  | double (tag : Nat) (bits : Bytes)
  | text (tag : Nat) (value : String)
  | bytes (tag : Nat) (value : Bytes)
  | record (tag : Nat) (items : List Item)

def textBytes (s : String) : Bytes := s.toUTF8.data.toList

/-- Text has to be valid UTF-8. -/
def readText (bytes : Bytes) : Option String := String.fromUTF8? ⟨bytes.toArray⟩

mutual

def Item.write : Item → Bytes
  | .number tag value => key tag .varint ++ varint value.toNat
  | .double tag bits => key tag .fixed64 ++ bits
  | .text tag value => key tag .delimited ++ delimited (textBytes value)
  | .bytes tag value => key tag .delimited ++ delimited value
  | .record tag items => key tag .delimited ++ delimited (Item.writeAll items)

def Item.writeAll : List Item → Bytes
  | [] => []
  | item :: rest => item.write ++ Item.writeAll rest

end

/-- The numbers of a packed list. -/
def readNumbers (bytes : Bytes) : Option (List UInt64) :=
  if bytes = [] then some []
  else
    match _h : readVarint bytes with
    | none => none
    | some (n, rest) => (readNumbers rest).map (UInt64.ofNat n :: ·)
termination_by bytes.length
decreasing_by exact readVarint_length ‹_›

/-- The items of one field. A field that the kind does not have is passed over, which takes a level
of the budget; `enter` reads a record one level down. -/
def RawField.items (k : Kind) (budget : Nat) (enter : Kind → Bytes → Option (List Item))
    (f : RawField) : Option (List Item) :=
  match k.field? f.tag, f.value with
  | none, _ => if budget = 0 then none else some []
  | some .number, .varint n => some [.number f.tag (UInt64.ofNat n)]
  | some .numbers, .varint n => some [.number f.tag (UInt64.ofNat n)]
  | some .numbers, .delimited payload => (readNumbers payload).map (·.map (.number f.tag))
  | some .double, .fixed64 bits => some [.double f.tag bits]
  | some .text, .delimited payload => (readText payload).map fun s => [.text f.tag s]
  | some .bytes, .delimited payload => some [.bytes f.tag payload]
  | some (.record k'), .delimited payload =>
    (enter k' payload).map fun items => [.record f.tag items]
  | _, _ => none

def readRecord (k : Kind) (budget : Nat) (enter : Kind → Bytes → Option (List Item))
    (bytes : Bytes) : Option (List Item) := do
  let fields ← readFields budget bytes
  let items ← fields.mapM (RawField.items k budget enter)
  return items.flatten

/-- The items of a record that may nest `budget` levels deep. -/
def readItems : Nat → Kind → Bytes → Option (List Item)
  | 0, k, bytes => readRecord k 0 (fun _ _ => none) bytes
  | budget + 1, k, bytes => readRecord k (budget + 1) (readItems budget) bytes

end SwiftRpc.Wire
