import SwiftRpc.Wire.Varint

/-!
# Fields of the wire format

A message is a sequence of fields. Each starts with a key, a number made of the field's tag and its
wire type, and goes on with a value whose end the wire type tells. A group goes up to the end key
with its tag; groups are only ever passed over, and their content is not kept.

`budget` is how deep the fields may still nest.
-/

namespace SwiftRpc.Wire

inductive WireType where
  | varint | fixed64 | delimited | startGroup | endGroup | fixed32
deriving DecidableEq

def WireType.ofCode? : Nat → Option WireType
  | 0 => some varint
  | 1 => some fixed64
  | 2 => some delimited
  | 3 => some startGroup
  | 4 => some endGroup
  | 5 => some fixed32
  | _ => none

def WireType.code : WireType → Nat
  | varint => 0
  | fixed64 => 1
  | delimited => 2
  | startGroup => 3
  | endGroup => 4
  | fixed32 => 5

def key (tag : Nat) (type : WireType) : Bytes := varint (8 * tag + type.code)

/-- A key fits into 32 bits and its tag is not zero. -/
def readKey (bytes : Bytes) : Option (Nat × WireType × Bytes) :=
  match readVarint bytes with
  | none => none
  | some (n, rest) =>
    if n < UInt32.size ∧ 8 ≤ n then (WireType.ofCode? (n % 8)).map fun type => (n / 8, type, rest)
    else none

theorem readKey_length {bytes rest : Bytes} {tag : Nat} {type : WireType}
    (h : readKey bytes = some (tag, type, rest)) : rest.length < bytes.length := by
  simp only [readKey] at h
  split at h
  · simp at h
  · rename_i n tail hv
    split at h
    · obtain ⟨t, _, he⟩ := Option.map_eq_some_iff.1 h
      simp only [Prod.mk.injEq] at he
      exact he.2.2 ▸ readVarint_length hv
    · simp at h

inductive RawValue where
  | varint (n : Nat)
  | fixed64 (bytes : Bytes)
  | fixed32 (bytes : Bytes)
  | delimited (payload : Bytes)
  | group
deriving DecidableEq

structure RawField where
  tag : Nat
  value : RawValue
deriving DecidableEq

/-- A value that is not a group. -/
def readPlain : WireType → Bytes → Option (RawValue × Bytes)
  | .varint, bytes => (readVarint bytes).map fun (n, rest) => (.varint n, rest)
  | .fixed64, bytes => (readBytes 8 bytes).map fun (b, rest) => (.fixed64 b, rest)
  | .fixed32, bytes => (readBytes 4 bytes).map fun (b, rest) => (.fixed32 b, rest)
  | .delimited, bytes => (readDelimited bytes).map fun (b, rest) => (.delimited b, rest)
  | .startGroup, _ => none
  | .endGroup, _ => none

theorem readPlain_length {type : WireType} {bytes rest : Bytes} {value : RawValue}
    (h : readPlain type bytes = some (value, rest)) : rest.length ≤ bytes.length := by
  cases type with
  | varint =>
    obtain ⟨⟨n, tail⟩, hr, he⟩ := Option.map_eq_some_iff.1 h
    simp only [Prod.mk.injEq] at he
    exact he.2 ▸ Nat.le_of_lt (readVarint_length hr)
  | fixed64 =>
    obtain ⟨⟨b, tail⟩, hr, he⟩ := Option.map_eq_some_iff.1 h
    simp only [Prod.mk.injEq] at he
    exact he.2 ▸ readBytes_length hr
  | fixed32 =>
    obtain ⟨⟨b, tail⟩, hr, he⟩ := Option.map_eq_some_iff.1 h
    simp only [Prod.mk.injEq] at he
    exact he.2 ▸ readBytes_length hr
  | delimited =>
    obtain ⟨⟨b, tail⟩, hr, he⟩ := Option.map_eq_some_iff.1 h
    simp only [Prod.mk.injEq] at he
    exact he.2 ▸ Nat.le_of_lt (readDelimited_length hr)
  | startGroup => simp [readPlain] at h
  | endGroup => simp [readPlain] at h

/-- Passes over what is left of the group `tag` and of the groups around it, innermost first. Every
field inside takes one level of the budget that its group has left. -/
def skipGroups (budget tag : Nat) (outer : List Nat) (bytes : Bytes) : Option Bytes :=
  match _hk : readKey bytes with
  | none => none
  | some (tag', .endGroup, rest) =>
    if tag' ≠ tag then none
    else
      match outer with
      | [] => some rest
      | tag :: outer => skipGroups (budget + 1) tag outer rest
  | some (tag', .startGroup, rest) =>
    if budget = 0 then none else skipGroups (budget - 1) tag' (tag :: outer) rest
  | some (_, type, rest) =>
    if budget = 0 then none
    else
      match _hp : readPlain type rest with
      | none => none
      | some (_, rest') => skipGroups budget tag outer rest'
termination_by bytes.length
decreasing_by
  · exact readKey_length ‹_›
  · exact readKey_length ‹_›
  · exact Nat.lt_of_le_of_lt (readPlain_length ‹_›) (readKey_length ‹_›)

/-- The first field. A group needs a level of the budget for itself. -/
def readField (budget : Nat) (bytes : Bytes) : Option (RawField × Bytes) :=
  match readKey bytes with
  | none => none
  | some (tag, .startGroup, rest) =>
    if budget = 0 then none
    else (skipGroups (budget - 1) tag [] rest).map fun rest => (⟨tag, .group⟩, rest)
  | some (tag, type, rest) =>
    (readPlain type rest).map fun (value, rest) => (⟨tag, value⟩, rest)

theorem skipGroups_length {budget tag : Nat} {outer : List Nat} {bytes rest : Bytes}
    (h : skipGroups budget tag outer bytes = some rest) : rest.length < bytes.length := by
  fun_induction skipGroups budget tag outer bytes with
  | case1 => simp at h
  | case2 => simp at h
  | case3 => exact Option.some.inj h ▸ readKey_length ‹_›
  | case4 _ _ _ _ _ hk _ _ _ ih => exact Nat.lt_trans (ih h) (readKey_length hk)
  | case5 => simp at h
  | case6 _ _ _ _ _ _ hk _ ih => exact Nat.lt_trans (ih h) (readKey_length hk)
  | case7 => simp at h
  | case8 => simp at h
  | case9 _ _ _ _ _ _ _ _ _ hk _ _ _ hp ih =>
    exact Nat.lt_trans (Nat.lt_of_lt_of_le (ih h) (readPlain_length hp)) (readKey_length hk)

theorem readField_length {budget : Nat} {bytes rest : Bytes} {f : RawField}
    (h : readField budget bytes = some (f, rest)) : rest.length < bytes.length := by
  simp only [readField] at h
  split at h
  · simp at h
  · rename_i hk
    split at h
    · simp at h
    · obtain ⟨rest', hs, he⟩ := Option.map_eq_some_iff.1 h
      simp only [Prod.mk.injEq] at he
      exact he.2 ▸ Nat.lt_trans (skipGroups_length hs) (readKey_length hk)
  · rename_i hk
    obtain ⟨⟨value, rest'⟩, hp, he⟩ := Option.map_eq_some_iff.1 h
    simp only [Prod.mk.injEq] at he
    exact he.2 ▸ Nat.lt_of_le_of_lt (readPlain_length hp) (readKey_length hk)

/-- The fields of a whole message. -/
def readFields (budget : Nat) (bytes : Bytes) : Option (List RawField) :=
  if bytes = [] then some []
  else
    match _h : readField budget bytes with
    | none => none
    | some (f, rest) => (readFields budget rest).map (f :: ·)
termination_by bytes.length
decreasing_by exact readField_length ‹_›

end SwiftRpc.Wire
