import Mathlib.Logic.Relation
import SwiftRpc.Api.Json
import SwiftRpc.Dictionary
import SwiftRpc.Options.Basic

/-!
# The forms of JSON objects

Seven kinds of records are written as JSON objects. The form of an object says which members have to
be there, which ones have a default, and which one lists objects of another form. An object is read
by looking up the members of its form one after the other, and a default may as well be written. So
nothing else is read when an object, however deep inside, gains members that its form does not know
or loses members that have their defaults (`Loosens`), and nothing at all is read when one loses a
required member (`Cuts`).
-/

namespace SwiftRpc

namespace Json

variable {α : Type} {members extra : List (String × Json)} {key other : String}
  {read : Json → Option α}

def keys : Json → List String
  | object members => members.map (·.1)
  | _ => []

/-- The members that are not called `key`. -/
def without (key : String) (members : List (String × Json)) : List (String × Json) :=
  members.filter (·.1 != key)

theorem lookup_without_self (key : String) (members : List (String × Json)) :
    (without key members).lookup key = none :=
  Dictionary.lookup_filter_self key members

theorem lookup_without (h : other ≠ key) (members : List (String × Json)) :
    (without key members).lookup other = members.lookup other :=
  Dictionary.lookup_filter_ne h members

theorem lookup_insert (h : other ≠ key) (before after : List (String × Json)) (value : Json) :
    (before ++ (key, value) :: after).lookup other = (before ++ after).lookup other := by
  rw [List.lookup_append, List.lookup_append, List.lookup_cons, beq_false_of_ne h]

theorem lookup_insert_self {before : List (String × Json)} (h : before.lookup key = none)
    (after : List (String × Json)) (value : Json) :
    (before ++ (key, value) :: after).lookup key = some value := by
  rw [List.lookup_append, h, List.lookup_cons, beq_self_eq_true]
  rfl

/-! ## Members -/

theorem required_eq_bind (h : extra.lookup key = none) :
    required members key read = ((members ++ extra).lookup key).bind read := by
  rw [required, List.lookup_append, h, Option.or_none]

/-- The default may as well be written at the end. -/
theorem optional_eq_bind {default : α} {value : Json} (hvalue : extra.lookup key = some value)
    (hread : read value = some default) :
    optional members key default read = ((members ++ extra).lookup key).bind read := by
  rw [optional, List.lookup_append, hvalue]
  cases members.lookup key with
  | none => exact hread.symm
  | some found => rfl

theorem int32?_int32 (n : Int32) : int32? (int32 n) = some n := by
  have hlow := Int32.le_toInt n
  have hhigh := Int32.toInt_lt n
  rw [int32, int32?, if_pos ⟨by omega, by omega⟩, Int32.ofInt_toInt]

/-! ## Lists of items -/

theorem mapM_read_write {write : α → Json} (h : ∀ a, read (write a) = some a) (items : List α) :
    (items.map write).mapM read = some items := by
  have hpure : read ∘ write = fun a => pure a := funext h
  rw [List.mapM_map, hpure, List.mapM_pure, List.map_id']
  rfl

theorem mapM_congr {item item' : Json} (h : read item' = read item) (items more : List Json) :
    (items ++ item' :: more).mapM read = (items ++ item :: more).mapM read := by
  rw [List.mapM_append, List.mapM_append, List.mapM_cons, List.mapM_cons, h]

theorem mapM_eq_none {item : Json} (h : read item = none) (items more : List Json) :
    (items ++ item :: more).mapM read = none := by
  rw [List.mapM_append, List.mapM_cons, h]
  cases items.mapM read with
  | none => rfl
  | some _ => rfl

end Json

namespace Api

/-! ## What is written is read -/

theorem Scalar.ofJson?_toJson (s : Scalar) : ofJson? s.toJson = some s := by
  cases s <;> decide +kernel

theorem Label.ofJson?_toJson (l : Label) : ofJson? l.toJson = some l := by
  cases l <;> decide +kernel

theorem Field.ofJson?_toJson (f : Field) : ofJson? f.toJson = some f := by
  rcases f with ⟨name, typeName, isMessage, jsonName, label, _ | s⟩
  · show (Label.ofJson? label.toJson).bind (fun label =>
      some (Field.mk name typeName isMessage jsonName label none)) = _
    rw [Label.ofJson?_toJson]
    rfl
  · show (Label.ofJson? label.toJson).bind (fun label =>
      ((Scalar.ofJson? s.toJson).map some).bind fun scalar =>
        some (Field.mk name typeName isMessage jsonName label scalar)) = _
    rw [Label.ofJson?_toJson, Scalar.ofJson?_toJson]
    rfl

theorem EnumValue.ofJson?_toJson (v : EnumValue) : ofJson? v.toJson = some v := by
  show (Json.int32? (.int32 v.number)).bind (fun number => some (EnumValue.mk v.name number)) = _
  rw [Json.int32?_int32]
  rfl

theorem Method.ofJson?_toJson (m : Method) : ofJson? m.toJson = some m := rfl

theorem Model.ofJson?_toJson (m : Model) : ofJson? m.toJson = some m := by
  show ((m.fields.map Field.toJson).mapM Field.ofJson?).bind (fun fields =>
    some { m with fields := fields }) = _
  rw [Json.mapM_read_write Field.ofJson?_toJson]
  rfl

theorem Enumeration.ofJson?_toJson (e : Enumeration) : ofJson? e.toJson = some e := by
  show ((e.values.map EnumValue.toJson).mapM EnumValue.ofJson?).bind (fun values =>
    some { e with values := values }) = _
  rw [Json.mapM_read_write EnumValue.ofJson?_toJson]
  rfl

theorem Service.ofJson?_toJson (s : Service) : ofJson? s.toJson = some s := by
  show ((s.methods.map Method.toJson).mapM Method.ofJson?).bind (fun methods =>
    some { s with methods := methods }) = _
  rw [Json.mapM_read_write Method.ofJson?_toJson]
  rfl

end Api

theorem Options.ofJson?_toJson (o : Options) : ofJson? o.toJson = some o := rfl

open SwiftRpc.Api

/-! ## Forms -/

inductive Form where
  | model | field | enumeration | enumValue | service | method | options

namespace Form

def required : Form → List String
  | model => ["name"]
  | field => ["name", "type_name", "is_message"]
  | enumeration => ["name"]
  | enumValue => ["name", "number"]
  | service => ["name", "package"]
  | method => ["name", "input_arg", "input_type", "output_type"]
  | options => []

/-- The members that may be missing, each with what it is taken for then. -/
def defaults : Form → List (String × Json)
  | model =>
    [("package", .text ""), ("can_marshal", .bool false), ("can_unmarshal", .bool false),
      ("is_map_entry", .bool false), ("fields", .array [])]
  | field => [("json_name", .text ""), ("label", .text "Optional"), ("scalar", .null)]
  | enumeration => [("package", .text ""), ("values", .array [])]
  | enumValue => []
  | service => [("methods", .array [])]
  | method => [("client_streaming", .bool false), ("server_streaming", .bool false)]
  | options => [("ext", .text "swift"), ("models", .bool true), ("log", .text "warn")]

/-- The keys that the form knows. -/
def keys (f : Form) : List String := f.required ++ f.defaults.map (·.1)

/-- The member that lists objects, and their form. -/
def items? : Form → Option (String × Form)
  | model => some ("fields", field)
  | enumeration => some ("values", enumValue)
  | service => some ("methods", method)
  | _ => none

/-- The records of a form. -/
def Value : Form → Type
  | model => Model
  | field => Field
  | enumeration => Enumeration
  | enumValue => EnumValue
  | service => Service
  | method => Method
  | options => Options

def write : (f : Form) → f.Value → Json
  | model => Model.toJson
  | field => Field.toJson
  | enumeration => Enumeration.toJson
  | enumValue => EnumValue.toJson
  | service => Service.toJson
  | method => Method.toJson
  | options => Options.toJson

def read? : (f : Form) → Json → Option f.Value
  | model => Model.ofJson?
  | field => Field.ofJson?
  | enumeration => Enumeration.ofJson?
  | enumValue => EnumValue.ofJson?
  | service => Service.ofJson?
  | method => Method.ofJson?
  | options => Options.ofJson?

theorem read?_write (f : Form) (v : f.Value) : f.read? (f.write v) = some v := by
  cases f with
  | model => exact Model.ofJson?_toJson v
  | field => exact Field.ofJson?_toJson v
  | enumeration => exact Enumeration.ofJson?_toJson v
  | enumValue => exact EnumValue.ofJson?_toJson v
  | service => exact Service.ofJson?_toJson v
  | method => exact Method.ofJson?_toJson v
  | options => exact Options.ofJson?_toJson v

section Table

variable {f g : Form} {key : String} {value : Json}

theorem lookup_defaults_of_required (h : key ∈ f.required) : f.defaults.lookup key = none := by
  rw [← Option.isNone_iff_eq_none]
  revert key
  cases f <;> decide +kernel

theorem lookup_defaults_of_items? (h : f.items? = some (key, g)) :
    f.defaults.lookup key = some (.array []) := by
  cases f <;> cases h <;> rfl

theorem mem_keys_of_required (h : key ∈ f.required) : key ∈ f.keys :=
  List.mem_append_left _ h

theorem mem_keys_of_default (h : f.defaults.lookup key = some value) : key ∈ f.keys := by
  obtain ⟨before, after, hsplit, -⟩ := List.lookup_eq_some_iff.1 h
  refine List.mem_append_right _ ?_
  rw [hsplit]
  simp

end Table

/-- A form knows the keys that are written in it. -/
theorem mem_keys_iff (f : Form) (key : String) :
    key ∈ f.keys ↔ ∃ v : f.Value, key ∈ (f.write v).keys := by
  constructor
  · intro h
    cases f with
    | model => exact ⟨({ name := "" } : Model), h⟩
    | field =>
      -- a scalar is written only if there is one
      exact ⟨({ name := "", typeName := "", isMessage := false, scalar := some .bool } : Field), h⟩
    | enumeration => exact ⟨({ name := "" } : Enumeration), h⟩
    | enumValue => exact ⟨({ name := "", number := 0 } : EnumValue), h⟩
    | service => exact ⟨({ name := "", package := "" } : Service), h⟩
    | method => exact ⟨Method.unary "" "" "", h⟩
    | options => exact ⟨({} : Options), h⟩
  · rintro ⟨v, h⟩
    cases f with
    | field =>
      rcases v with ⟨name, typeName, isMessage, jsonName, label, _ | s⟩
      · -- without a scalar its key is the only one that is not written
        have hall := List.mem_append_left ["scalar"] h
        exact hall
      · exact h
    | _ => exact h

/-! ## Reading member by member -/

/-- What is found under a key is read alike if it is the same, or if it is two lists of objects that
give the same. -/
inductive Alike (f : Form) (key : String) : Option Json → Option Json → Prop where
  | same (value? : Option Json) : Alike f key value? value?
  | items {g : Form} {items items' : List Json} (hform : f.items? = some (key, g))
      (h : items.mapM g.read? = items'.mapM g.read?) :
      Alike f key (some (.array items)) (some (.array items'))

/-- Nothing can be read under a key if nothing is there, or if it is a list of objects that cannot
be read. -/
inductive Unreadable (f : Form) (key : String) : Option Json → Prop where
  | missing : Unreadable f key none
  | items {g : Form} {items : List Json} (hform : f.items? = some (key, g))
      (h : items.mapM g.read? = none) : Unreadable f key (some (.array items))

/-- What the form finds under a key, which is the default if the key is missing. -/
def find? (f : Form) (members : List (String × Json)) (key : String) : Option Json :=
  (members ++ f.defaults).lookup key

/-- A reader looks at nothing but what the form finds under the keys, and needs each of them. -/
structure Reads {α : Type} (f : Form) (keys : List String)
    (reader : List (String × Json) → Option α) : Prop where
  congr : ∀ {members members' : List (String × Json)},
    (∀ key ∈ keys, f.Alike key (f.find? members key) (f.find? members' key)) →
      reader members = reader members'
  fails : ∀ {members : List (String × Json)} {key : String},
    key ∈ keys → f.Unreadable key (f.find? members key) → reader members = none

section Reads

variable {f g : Form} {α β : Type} {key : String} {value? value?' : Option Json}
  {read : Json → Option α} {reader : List (String × Json) → Option α}

theorem Alike.of_eq (h : value? = value?') : f.Alike key value? value?' := by
  rw [h]
  exact .same _

theorem Alike.eq (h : f.Alike key value? value?') (hplain : f.items?.map (·.1) ≠ some key) :
    value? = value?' := by
  cases h with
  | same => rfl
  | items hform =>
    rw [hform] at hplain
    exact absurd rfl hplain

theorem Unreadable.eq_none (h : f.Unreadable key value?)
    (hplain : f.items?.map (·.1) ≠ some key) : value? = none := by
  cases h with
  | missing => rfl
  | items hform =>
    rw [hform] at hplain
    exact absurd rfl hplain

theorem Alike.bind_list? (h : f.Alike key value? value?') (hform : f.items? = some (key, g)) :
    value?.bind (Json.list? g.read?) = value?'.bind (Json.list? g.read?) := by
  cases h with
  | same => rfl
  | items hform' h =>
    cases hform.symm.trans hform'
    exact h

theorem Unreadable.bind_list? (h : f.Unreadable key value?) (hform : f.items? = some (key, g)) :
    value?.bind (Json.list? g.read?) = none := by
  cases h with
  | missing => rfl
  | items hform' h =>
    cases hform.symm.trans hform'
    exact h

theorem Reads.done (a : α) : f.Reads [] fun _ => some a where
  congr _ := rfl
  fails hkey := absurd hkey List.not_mem_nil

theorem Reads.bind {keys : List String} {next : α → List (String × Json) → Option β}
    (h : f.Reads [key] reader) (hnext : ∀ a, f.Reads keys (next a)) :
    f.Reads (key :: keys) fun members => (reader members).bind fun a => next a members where
  congr := by
    intro members members' halike
    obtain ⟨hfirst, hrest⟩ := List.forall_mem_cons.1 halike
    rw [h.congr (List.forall_mem_singleton.2 hfirst)]
    exact congrArg _ (funext fun a => (hnext a).congr hrest)
  fails := by
    intro members other hother hno
    rcases List.mem_cons.1 hother with rfl | hother
    · rw [h.fails (List.mem_singleton_self _) hno]
      rfl
    · rw [Option.bind_eq_none_iff]
      intro a _
      exact (hnext a).fails hother hno

theorem Reads.plain (hplain : f.items?.map (·.1) ≠ some key)
    (h : ∀ members, reader members = (f.find? members key).bind read) :
    f.Reads [key] reader where
  congr := by
    intro members members' halike
    rw [h, h, (List.forall_mem_singleton.1 halike).eq hplain]
  fails := by
    intro members other hother hno
    rw [List.mem_singleton.1 hother] at hno
    rw [h, hno.eq_none hplain]
    rfl

theorem Reads.required (hkey : key ∈ f.required) :
    f.Reads [key] fun members => Json.required members key read := by
  have hno := lookup_defaults_of_required hkey
  refine .plain ?_ fun members => Json.required_eq_bind hno
  intro h
  obtain ⟨⟨_, g⟩, hform, rfl⟩ := Option.map_eq_some_iff.1 h
  rw [lookup_defaults_of_items? hform] at hno
  cases hno

theorem Reads.optional {default : α} {value : Json} (hvalue : f.defaults.lookup key = some value)
    (hread : read value = some default) (hplain : f.items?.map (·.1) ≠ some key) :
    f.Reads [key] fun members => Json.optional members key default read :=
  .plain hplain fun _ => Json.optional_eq_bind hvalue hread

theorem Reads.items (hform : f.items? = some (key, g)) :
    f.Reads [key] fun members => Json.optional members key [] (Json.list? g.read?) := by
  have hempty : Json.list? g.read? (.array []) = some [] := rfl
  have hfind (members : List (String × Json)) :
      Json.optional members key [] (Json.list? g.read?) =
        (f.find? members key).bind (Json.list? g.read?) :=
    Json.optional_eq_bind (lookup_defaults_of_items? hform) hempty
  constructor
  · intro members members' halike
    rw [hfind, hfind, (List.forall_mem_singleton.1 halike).bind_list? hform]
  · intro members other hother hno
    rw [List.mem_singleton.1 hother] at hno
    rw [hfind, hno.bind_list? hform]

end Reads

/-- An object is read key by key. -/
theorem reads_read? (f : Form) : f.Reads f.keys fun members => f.read? (.object members) := by
  cases f with
  | model =>
    refine .bind (.required (by decide)) fun name => ?_
    refine .bind (.optional rfl rfl (by decide)) fun package => ?_
    refine .bind (.optional rfl rfl (by decide)) fun encodable => ?_
    refine .bind (.optional rfl rfl (by decide)) fun decodable => ?_
    refine .bind (.optional rfl rfl (by decide)) fun isMapEntry => ?_
    exact .bind (.items (g := field) rfl) fun fields => .done _
  | field =>
    refine .bind (.required (by decide)) fun name => ?_
    refine .bind (.required (by decide)) fun typeName => ?_
    refine .bind (.required (by decide)) fun isMessage => ?_
    refine .bind (.optional rfl rfl (by decide)) fun jsonName => ?_
    refine .bind (.optional rfl rfl (by decide)) fun label => ?_
    exact .bind (.optional rfl rfl (by decide)) fun scalar => .done _
  | enumeration =>
    refine .bind (.required (by decide)) fun name => ?_
    refine .bind (.optional rfl rfl (by decide)) fun package => ?_
    exact .bind (.items (g := enumValue) rfl) fun values => .done _
  | enumValue =>
    refine .bind (.required (by decide)) fun name => ?_
    exact .bind (.required (by decide)) fun number => .done _
  | service =>
    refine .bind (.required (by decide)) fun name => ?_
    refine .bind (.required (by decide)) fun package => ?_
    exact .bind (.items (g := method) rfl) fun methods => .done _
  | method =>
    refine .bind (.required (by decide)) fun name => ?_
    refine .bind (.required (by decide)) fun inputArg => ?_
    refine .bind (.required (by decide)) fun inputType => ?_
    refine .bind (.required (by decide)) fun outputType => ?_
    refine .bind (.optional rfl rfl (by decide)) fun clientStreaming => ?_
    exact .bind (.optional rfl rfl (by decide)) fun serverStreaming => .done _
  | options =>
    refine .bind (.optional rfl rfl (by decide)) fun ext => ?_
    refine .bind (.optional rfl rfl (by decide)) fun models => ?_
    exact .bind (.optional rfl rfl (by decide)) fun log => .done _

/-! ## Changes to an object -/

/-- A change that says nothing to the form: one more member that it does not know, or one less that
has its default. -/
inductive Loosens (f : Form) : Json → Json → Prop where
  | insert {key : String} (hkey : key ∉ f.keys) (value : Json)
      (before after : List (String × Json)) :
      Loosens f (.object (before ++ after)) (.object (before ++ (key, value) :: after))
  | drop {key : String} {value : Json} (hdefault : f.defaults.lookup key = some value)
      {members : List (String × Json)} (hvalue : members.lookup key = some value) :
      Loosens f (.object members) (.object (Json.without key members))

/-- A required member is gone. -/
inductive Cuts (f : Form) : Json → Json → Prop where
  | drop {key : String} (hkey : key ∈ f.required) (members : List (String × Json)) :
      Cuts f (.object members) (.object (Json.without key members))

/-- A change to the object itself, or to one of the objects that it lists, at any depth. -/
inductive Somewhere (change : Form → Json → Json → Prop) : Form → Json → Json → Prop where
  | here {f : Form} {j j' : Json} (h : change f j j') : Somewhere change f j j'
  | inside {f g : Form} {key : String} (hform : f.items? = some (key, g))
      (before after : List (String × Json)) (hfirst : before.lookup key = none)
      (items more : List Json) {item item' : Json} (h : Somewhere change g item item') :
      Somewhere change f (.object (before ++ (key, .array (items ++ item :: more)) :: after))
        (.object (before ++ (key, .array (items ++ item' :: more)) :: after))

section Changes

variable {f : Form} {j j' : Json}

theorem find?_of_lookup {members : List (String × Json)} {key : String} {value : Json}
    (h : members.lookup key = some value) : f.find? members key = some value := by
  rw [find?, List.lookup_append, h, Option.some_or]

theorem find?_congr {members members' : List (String × Json)} {key : String}
    (h : members'.lookup key = members.lookup key) :
    f.find? members' key = f.find? members key := by
  rw [find?, find?, List.lookup_append, List.lookup_append, h]

theorem Loosens.read?_eq (h : f.Loosens j j') : f.read? j' = f.read? j := by
  cases h with
  | insert hkey value before after =>
    refine f.reads_read?.congr fun other hother => .of_eq (find?_congr ?_)
    exact Json.lookup_insert (ne_of_mem_of_not_mem hother hkey) before after value
  | @drop key value hdefault members hvalue =>
    refine f.reads_read?.congr fun other _ => .of_eq ?_
    by_cases hother : other = key
    · -- the default is found where the same value was written before
      rw [hother, find?_of_lookup hvalue, find?, List.lookup_append, Json.lookup_without_self,
        Option.none_or, hdefault]
    · exact find?_congr (Json.lookup_without hother members)

theorem Cuts.read?_eq (h : f.Cuts j j') : f.read? j' = none := by
  cases h with
  | @drop key hkey members =>
    refine f.reads_read?.fails (mem_keys_of_required hkey) ?_
    rw [find?, List.lookup_append, Json.lookup_without_self, lookup_defaults_of_required hkey]
    exact .missing

variable {change : Form → Json → Json → Prop}

theorem Somewhere.read?_eq (hchange : ∀ {f j j'}, change f j j' → f.read? j' = f.read? j)
    (h : Somewhere change f j j') : f.read? j' = f.read? j := by
  induction h with
  | here h => exact hchange h
  | @inside f g key hform before after hfirst items more item item' _ ih =>
    refine f.reads_read?.congr fun other _ => ?_
    by_cases hother : other = key
    · rw [hother, find?_of_lookup (Json.lookup_insert_self hfirst _ _),
        find?_of_lookup (Json.lookup_insert_self hfirst _ _)]
      exact .items hform (Json.mapM_congr ih items more)
    · refine .of_eq (find?_congr ?_)
      rw [Json.lookup_insert hother, Json.lookup_insert hother]

theorem Somewhere.read?_eq_none (hchange : ∀ {f j j'}, change f j j' → f.read? j' = none)
    (h : Somewhere change f j j') : f.read? j' = none := by
  induction h with
  | here h => exact hchange h
  | @inside f g key hform before after hfirst items more item item' _ ih =>
    refine f.reads_read?.fails (mem_keys_of_default (lookup_defaults_of_items? hform)) ?_
    rw [find?_of_lookup (Json.lookup_insert_self hfirst _ _)]
    exact .items hform (Json.mapM_eq_none ih items more)

/-- However often this is done, the same is read. -/
theorem read?_of_loosens (h : Relation.ReflTransGen (Somewhere Loosens f) j j') :
    f.read? j' = f.read? j := by
  induction h with
  | refl => rfl
  | tail _ hlast ih => rw [hlast.read?_eq Loosens.read?_eq, ih]

end Changes

/-- **Records are read as they were written.** The keys that a form knows are those that are written
in it. What was written is read as the record that it was written for. So it is after any number of
changes that add unknown members to the objects in it or take away members that have their defaults,
in whichever of these objects. Where one of the objects loses a required member, nothing is read. -/
theorem records_lossless (f : Form) :
    (∀ key, key ∈ f.keys ↔ ∃ v : f.Value, key ∈ (f.write v).keys) ∧
    (∀ v : f.Value, f.read? (f.write v) = some v) ∧
    (∀ (v : f.Value) (j : Json), Relation.ReflTransGen (Somewhere Loosens f) (f.write v) j →
      f.read? j = some v) ∧
    ∀ j j' : Json, Somewhere Cuts f j j' → f.read? j' = none := by
  refine ⟨f.mem_keys_iff, f.read?_write, ?_, ?_⟩
  · intro v j hloose
    rw [read?_of_loosens hloose, f.read?_write v]
  · intro j j' hcut
    exact hcut.read?_eq_none Cuts.read?_eq

/-- The package of a model is left out, and its field is written without its label and with a note.
Without the name of its type the field is not read. -/
theorem records_lossless_hat :
    let brim : Field := { name := "brim", typeName := "svc.Brim", isMessage := true }
    let hat : Model := { name := "svc.Hat", fields := [brim] }
    let loose (field : List (String × Json)) : Json :=
      .object [("name", .text "svc.Hat"), ("can_marshal", .bool false),
        ("can_unmarshal", .bool false), ("is_map_entry", .bool false),
        ("fields", .array [.object field])]
    let noted : List (String × Json) :=
      [("name", .text "brim"), ("note", .null), ("type_name", .text "svc.Brim"),
        ("is_message", .bool true), ("json_name", .text "")]
    Relation.ReflTransGen (Somewhere Loosens model) (write model hat) (loose noted) ∧
      read? model (loose noted) = some hat ∧
      Somewhere Cuts model (loose noted) (loose (Json.without "type_name" noted)) ∧
      read? model (loose (Json.without "type_name" noted)) = none := by
  intro brim hat loose noted
  have hpackage : Somewhere Loosens model (write model hat) (loose
      [("name", .text "brim"), ("type_name", .text "svc.Brim"), ("is_message", .bool true),
        ("json_name", .text ""), ("label", .text "Optional")]) :=
    .here (@Loosens.drop model "package" _ rfl _ rfl)
  have hinside {change : Form → Json → Json → Prop} {members members' : List (String × Json)}
      (h : change field (.object members) (.object members')) :
      Somewhere change model (loose members) (loose members') :=
    .inside (g := field) rfl [("name", .text "svc.Hat"), ("can_marshal", .bool false),
      ("can_unmarshal", .bool false), ("is_map_entry", .bool false)] [] rfl [] [] (.here h)
  have hlabel := hinside (@Loosens.drop field "label" _ rfl
    [("name", .text "brim"), ("type_name", .text "svc.Brim"), ("is_message", .bool true),
      ("json_name", .text ""), ("label", .text "Optional")] rfl)
  have hnote : Somewhere Loosens model _ (loose noted) :=
    hinside (@Loosens.insert field "note" (by decide +kernel) .null [("name", .text "brim")] _)
  have hloose : Relation.ReflTransGen (Somewhere Loosens model) (write model hat) (loose noted) :=
    ((Relation.ReflTransGen.single hpackage).tail hlabel).tail hnote
  have hcut := hinside (@Cuts.drop field "type_name" (by decide) noted)
  obtain ⟨-, -, hread, hfail⟩ := records_lossless model
  exact ⟨hloose, hread hat _ hloose, hcut, hfail _ _ hcut⟩

end Form

end SwiftRpc
