import Mathlib.Algebra.Group.Nat.Defs
import Mathlib.Data.List.Basic
import SwiftRpc.Wire.Item

/-!
# What is written is read back

From bytes up: a number, a key, a field and a whole record are read back from what was written of
them, whatever bytes follow. Numbers and lengths have to fit into 64 bits, tags into a key, and a
record may not nest deeper than the budget; a deeper one is refused (`readItems_writeAll`).

That items can be written and read at all is `Conforms`: each one has a tag of the record's kind and
the form that the kind wants there.
-/

namespace SwiftRpc.Wire

/-! ## Numbers and lengths -/

/-- As many bytes as a length can tell. -/
def Fits (bytes : Bytes) : Prop := bytes.length < UInt64.size

instance (bytes : Bytes) : Decidable (Fits bytes) :=
  inferInstanceAs (Decidable (bytes.length < UInt64.size))

theorem toNat_ofNat_of_lt {n : Nat} (h : n < 256) : (UInt8.ofNat n).toNat = n := by
  rw [UInt8.toNat_ofNat']
  exact Nat.mod_eq_of_lt h

/-- The last digit allowed may only be zero or one, hence the bound. -/
theorem readDigits_varint {left n : Nat} (h : n < 2 * 128 ^ left) (rest : Bytes) :
    readDigits (left + 1) (varint n ++ rest) = some (n, rest) := by
  induction left generalizing n with
  | zero =>
    have hlast : ¬ 1 < n := by omega
    rw [varint, if_pos (by omega), List.singleton_append, readDigits,
      toNat_ofNat_of_lt (by omega), if_pos (by omega), if_neg (by simp [hlast])]
  | succ left ih =>
    rw [varint]
    by_cases hn : n < 128
    · rw [if_pos hn, List.singleton_append, readDigits, toNat_ofNat_of_lt (by omega), if_pos hn,
        if_neg (by simp)]
    · have hhigh : n / 128 < 2 * 128 ^ left := by
        rw [Nat.div_lt_iff_lt_mul (by decide), Nat.mul_assoc, ← Nat.pow_succ]
        exact h
      rw [if_neg hn, List.cons_append, readDigits, toNat_ofNat_of_lt (by omega),
        if_neg (by omega), ih hhigh]
      simp only [Option.map_some, Option.some.injEq, Prod.mk.injEq, and_true]
      omega

theorem readVarint_varint {n : Nat} (h : n < UInt64.size) (rest : Bytes) :
    readVarint (varint n ++ rest) = some (n, rest) :=
  readDigits_varint (by simpa [UInt64.size] using h) rest

theorem readBytes_append (taken rest : Bytes) :
    readBytes taken.length (taken ++ rest) = some (taken, rest) := by
  induction taken with
  | nil => rfl
  | cons b tail ih => rw [List.length_cons, List.cons_append, readBytes, ih, Option.map_some]

theorem readDelimited_delimited {payload : Bytes} (h : Fits payload) (rest : Bytes) :
    readDelimited (delimited payload ++ rest) = some (payload, rest) := by
  rw [readDelimited, delimited, List.append_assoc, readVarint_varint h]
  exact readBytes_append payload rest

theorem readText_textBytes (s : String) : readText (textBytes s) = some s := by
  have hbytes : (⟨(textBytes s).toArray⟩ : ByteArray) = s.toByteArray := by simp [textBytes]
  rw [readText, hbytes, String.fromUTF8?, dif_pos s.isValidUTF8]
  rfl

/-! ## Keys and fields -/

theorem WireType.ofCode?_code (type : WireType) : ofCode? type.code = some type := by
  cases type <;> rfl

theorem WireType.code_lt (type : WireType) : type.code < 8 := by
  cases type <;> decide

/-- A tag that a key has room for. -/
def IsTag (tag : Nat) : Prop := 0 < tag ∧ tag < 2 ^ 29

theorem readKey_key {tag : Nat} (h : IsTag tag) (type : WireType) (rest : Bytes) :
    readKey (key tag type ++ rest) = some (tag, type, rest) := by
  obtain ⟨hpos, hlt⟩ := h
  have hcode := type.code_lt
  have hfits : 8 * tag + type.code < UInt64.size := by
    rw [UInt64.size]
    omega
  have hkey : 8 * tag + type.code < UInt32.size ∧ 8 ≤ 8 * tag + type.code := by
    rw [UInt32.size]
    omega
  have hmod : (8 * tag + type.code) % 8 = type.code := by omega
  have hdiv : (8 * tag + type.code) / 8 = tag := by omega
  rw [readKey, key, readVarint_varint hfits]
  simp only [if_pos hkey, hmod, hdiv, WireType.ofCode?_code, Option.map_some]

theorem readField_of_plain {budget tag : Nat} {type : WireType} {bytes rest rest' : Bytes}
    {value : RawValue} (hkey : readKey bytes = some (tag, type, rest))
    (hplain : readPlain type rest = some (value, rest')) :
    readField budget bytes = some (⟨tag, value⟩, rest') := by
  cases type with
  | startGroup => cases hplain
  | _ => simp only [readField, hkey, hplain, Option.map_some]

theorem readFields_of_field {budget : Nat} {bytes rest : Bytes} {f : RawField}
    (h : readField budget bytes = some (f, rest)) :
    readFields budget bytes = (readFields budget rest).map (f :: ·) := by
  have hne : bytes ≠ [] := List.ne_nil_of_length_pos (Nat.zero_lt_of_lt (readField_length h))
  rw [readFields, if_neg hne]
  split
  · rename_i hnone
    cases hnone.symm.trans h
  · rename_i f' rest' hsome
    cases hsome.symm.trans h
    rfl

/-! ## Items that a kind of record has -/

inductive Item.Conforms : Kind → Item → Prop where
  | number {k : Kind} {tag : Nat} {value : UInt64}
      (h : k.field? tag = some .number ∨ k.field? tag = some .numbers) :
      Conforms k (.number tag value)
  | double {k : Kind} {tag : Nat} {bits : Bytes} (h : k.field? tag = some .double)
      (hbits : bits.length = 8) : Conforms k (.double tag bits)
  | text {k : Kind} {tag : Nat} {value : String} (h : k.field? tag = some .text) :
      Conforms k (.text tag value)
  | bytes {k : Kind} {tag : Nat} {value : Bytes} (h : k.field? tag = some .bytes) :
      Conforms k (.bytes tag value)
  | record {k k' : Kind} {tag : Nat} {items : List Item} (h : k.field? tag = some (.record k'))
      (hitems : ∀ item ∈ items, Conforms k' item) : Conforms k (.record tag items)

/-- All items are ones that the kind has. -/
def AllConform (k : Kind) (items : List Item) : Prop := ∀ item ∈ items, item.Conforms k

theorem Kind.isTag_of_field? {k : Kind} {tag : Nat} {type : FieldType}
    (h : k.field? tag = some type) : IsTag tag := by
  have hfields : ∀ k : Kind, ∀ p ∈ k.fields, 0 < p.1 ∧ p.1 < 2 ^ 29 := by
    intro k
    cases k <;> decide
  obtain ⟨before, after, hsplit, -⟩ := List.lookup_eq_some_iff.1 h
  exact hfields k (tag, type) (by rw [hsplit]; simp)

namespace Item

/-- The field as which an item is written. -/
def raw : Item → RawField
  | .number tag value => ⟨tag, .varint value.toNat⟩
  | .double tag bits => ⟨tag, .fixed64 bits⟩
  | .text tag value => ⟨tag, .delimited (textBytes value)⟩
  | .bytes tag value => ⟨tag, .delimited value⟩
  | .record tag items => ⟨tag, .delimited (writeAll items)⟩

theorem fits_of_delimited {start payload : Bytes} (h : Fits (start ++ delimited payload)) :
    Fits payload := by
  rw [Fits, delimited, List.length_append, List.length_append] at h
  rw [Fits]
  omega

theorem readField_delimited {tag : Nat} (htag : IsTag tag) {payload : Bytes} (h : Fits payload)
    (budget : Nat) (rest : Bytes) :
    readField budget (key tag .delimited ++ delimited payload ++ rest) =
      some (⟨tag, .delimited payload⟩, rest) := by
  rw [List.append_assoc]
  apply readField_of_plain (readKey_key htag _ _)
  rw [readPlain, readDelimited_delimited h]
  rfl

/-- One step of reading: the first item's field, and the bytes behind it. -/
theorem readField_write {k : Kind} {item : Item} (h : item.Conforms k) (hfits : Fits item.write)
    (budget : Nat) (rest : Bytes) :
    readField budget (item.write ++ rest) = some (item.raw, rest) := by
  cases h with
  | @number k tag value h =>
    have htag : IsTag tag := h.elim Kind.isTag_of_field? Kind.isTag_of_field?
    rw [write, List.append_assoc]
    apply readField_of_plain (readKey_key htag _ _)
    rw [readPlain, readVarint_varint value.toNat_lt]
    rfl
  | @double k tag bits h hbits =>
    rw [write, List.append_assoc]
    apply readField_of_plain (readKey_key (Kind.isTag_of_field? h) _ _)
    rw [readPlain, ← hbits, readBytes_append]
    rfl
  | text h =>
    rw [write] at hfits ⊢
    exact readField_delimited (Kind.isTag_of_field? h) (fits_of_delimited hfits) budget rest
  | bytes h =>
    rw [write] at hfits ⊢
    exact readField_delimited (Kind.isTag_of_field? h) (fits_of_delimited hfits) budget rest
  | record h hitems =>
    rw [write] at hfits ⊢
    exact readField_delimited (Kind.isTag_of_field? h) (fits_of_delimited hfits) budget rest

theorem fits_of_writeAll {items : List Item} (h : Fits (writeAll items)) :
    ∀ item ∈ items, Fits item.write := by
  induction items with
  | nil => simp
  | cons first rest ih =>
    rw [writeAll, Fits, List.length_append] at h
    refine List.forall_mem_cons.2 ⟨?_, ih ?_⟩
    · rw [Fits]
      omega
    · rw [Fits]
      omega

theorem readFields_writeAll {k : Kind} {items : List Item} (h : AllConform k items)
    (hfits : Fits (writeAll items)) (budget : Nat) :
    readFields budget (writeAll items) = some (items.map raw) := by
  have heach := fits_of_writeAll hfits
  clear hfits
  induction items with
  | nil => rw [writeAll, readFields, if_pos rfl, List.map_nil]
  | cons first rest ih =>
    obtain ⟨hfirst, hrest⟩ := List.forall_mem_cons.1 h
    obtain ⟨hfits, hfits'⟩ := List.forall_mem_cons.1 heach
    rw [writeAll, readFields_of_field (readField_write hfirst hfits budget _), ih hrest hfits',
      Option.map_some, List.map_cons]

/-! ## Records up to a depth -/

mutual

/-- How many records there are inside of each other. -/
def depth : Item → Nat
  | .record _ items => depthAll items + 1
  | .number _ _ | .double _ _ | .text _ _ | .bytes _ _ => 0

def depthAll : List Item → Nat
  | [] => 0
  | item :: rest => max item.depth (depthAll rest)

end

theorem depthAll_le_iff {items : List Item} {n : Nat} :
    depthAll items ≤ n ↔ ∀ item ∈ items, item.depth ≤ n := by
  induction items with
  | nil => simp [depthAll]
  | cons first rest ih => rw [depthAll, Nat.max_le, ih, List.forall_mem_cons]

theorem depthAll_append (l l' : List Item) :
    depthAll (l ++ l') = max (depthAll l) (depthAll l') := by
  induction l with
  | nil => simp [depthAll]
  | cons first rest ih => rw [List.cons_append, depthAll, depthAll, ih, Nat.max_assoc]

/-- What the reader of the records inside has to do: to give back each one that is not too deep. -/
def Enters (budget : Nat) (enter : Kind → Bytes → Option (List Item)) : Prop :=
  ∀ k items, AllConform k items → Fits (writeAll items) →
    enter k (writeAll items) = if depthAll items + 1 ≤ budget then some items else none

theorem items_raw {k : Kind} {item : Item} (h : item.Conforms k) (hfits : Fits item.write)
    {budget : Nat} {enter : Kind → Bytes → Option (List Item)} (henter : Enters budget enter) :
    item.raw.items k budget enter = if item.depth ≤ budget then some [item] else none := by
  cases h with
  | number h =>
    rcases h with h | h
    · simp [raw, RawField.items, h, depth]
    · simp [raw, RawField.items, h, depth]
  | double h hbits => simp [raw, RawField.items, h, depth]
  | text h => simp [raw, RawField.items, h, depth, readText_textBytes]
  | bytes h => simp [raw, RawField.items, h, depth]
  | @record k k' tag items h hitems =>
    rw [write] at hfits
    have hinner := henter k' items hitems (fits_of_delimited hfits)
    by_cases hdepth : depthAll items + 1 ≤ budget
    · simp [raw, RawField.items, h, hinner, depth, hdepth]
    · simp [raw, RawField.items, h, hinner, depth, hdepth]

theorem mapM_raw {items : List Item} {p : Item → Prop} [DecidablePred p]
    {f : RawField → Option (List Item)}
    (h : ∀ item ∈ items, f item.raw = if p item then some [item] else none) :
    ((items.map raw).mapM f).map List.flatten =
      if ∀ item ∈ items, p item then some items else none := by
  induction items with
  | nil => simp
  | cons first rest ih =>
    obtain ⟨hfirst, hrest⟩ := List.forall_mem_cons.1 h
    have ih := ih hrest
    rw [List.map_cons, List.mapM_cons, hfirst]
    by_cases hp : p first
    · by_cases hall : ∀ item ∈ rest, p item
      · rw [if_pos hall] at ih
        obtain ⟨lists, hlists, hflat⟩ := Option.map_eq_some_iff.1 ih
        rw [if_pos (List.forall_mem_cons.2 ⟨hp, hall⟩)]
        simp [hp, hlists, hflat]
      · rw [if_neg hall] at ih
        have hnone := Option.map_eq_none_iff.1 ih
        rw [if_neg (fun h => hall (List.forall_mem_cons.1 h).2)]
        simp [hp, hnone]
    · rw [if_neg (fun h => hp (List.forall_mem_cons.1 h).1)]
      simp [hp]

theorem readRecord_writeAll {k : Kind} {items : List Item} (h : AllConform k items)
    (hfits : Fits (writeAll items)) {budget : Nat} {enter : Kind → Bytes → Option (List Item)}
    (henter : Enters budget enter) :
    readRecord k budget enter (writeAll items) =
      if depthAll items ≤ budget then some items else none := by
  have heach : ∀ item ∈ items, item.raw.items k budget enter =
      if item.depth ≤ budget then some [item] else none := by
    intro item hitem
    exact items_raw (h item hitem) (fits_of_writeAll hfits item hitem) henter
  have hread := mapM_raw heach
  simp only [← depthAll_le_iff] at hread
  rw [← hread, readRecord, readFields_writeAll h hfits, Option.map_eq_bind]
  rfl

/-- **Records are read back, up to the depth that the budget allows.** -/
theorem readItems_writeAll {k : Kind} {items : List Item} (h : AllConform k items)
    (hfits : Fits (writeAll items)) (budget : Nat) :
    readItems budget k (writeAll items) =
      if depthAll items ≤ budget then some items else none := by
  induction budget generalizing k items with
  | zero =>
    refine readRecord_writeAll h hfits ?_
    intro k items _ _
    rfl
  | succ budget ih =>
    refine readRecord_writeAll h hfits ?_
    intro k items h hfits
    rw [ih h hfits]
    simp only [Nat.add_le_add_iff_right]

end Item

end SwiftRpc.Wire
