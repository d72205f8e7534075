import Mathlib.Data.List.Basic
import SwiftRpc.Proofs.Declare
import SwiftRpc.Proofs.Registry
import SwiftRpc.Swift.Source

/-!
# The walkers over declared types agree

Three walks go over the messages and enumerations of a file: the one that registers them, the one
that indexes them and the one that renders them. Each builds the full names in its own way. As long
as no name is empty they find the same types in the same order (`Declaration.type?`).
-/

namespace SwiftRpc

/-! ## Names -/

namespace Name

theorem join_ne_empty {scope name : String} (h : name ≠ "") : join scope name ≠ "" := by
  unfold join
  split
  · exact h
  · intro he
    have hl := congrArg String.toList he
    simp at hl

theorem extend_eq_join {scope name : String} (h : name ≠ "") :
    extend scope name = join scope name := by
  unfold extend join
  rw [if_neg h]

/-- Joining a relative name to its package is joining its last part to all before it. -/
theorem join_join (package scope name : String) :
    join package (join scope name) = join (extend package scope) name := by
  unfold join extend
  by_cases hp : package = ""
  · simp [hp]
  · by_cases hs : scope = ""
    · simp [hp, hs]
    · have hne : package ++ "." ++ scope ≠ "" := by
        intro he
        have hl := congrArg String.toList he
        simp at hl
      simp only [hp, hs, hne, if_false]
      simp only [String.append_assoc]

theorem extend_join {package scope name : String} (h : name ≠ "") :
    extend package (join scope name) = join (extend package scope) name := by
  rw [extend_eq_join (join_ne_empty h), join_join]

/-- The name does not start with a dot. -/
def Undotted (s : String) : Prop := s.toList.head? ≠ some '.'

instance (s : String) : Decidable (Undotted s) := inferInstanceAs (Decidable (_ ≠ _))

theorem absolute_of_undotted {s : String} (h : Undotted s) : absolute s = s := by
  unfold absolute
  rw [Undotted] at h
  cases hl : s.toList with
  | nil =>
    rw [← hl]
    simp [hl, ← String.toList_inj]
  | cons c rest =>
    rw [hl] at h
    have hc : ¬ c = '.' := by simpa using h
    rw [List.dropWhile_cons_of_neg (by simpa using hc), ← hl, String.ofList_toList]

theorem undotted_absolute (s : String) : Undotted (absolute s) := by
  unfold Undotted absolute
  rw [String.toList_ofList]
  intro h
  have hd := List.head?_dropWhile_not (fun c : Char => decide (c = '.')) s.toList
  rw [h] at hd
  simp at hd

theorem absolute_absolute (s : String) : absolute (absolute s) = absolute s :=
  absolute_of_undotted (undotted_absolute s)

theorem undotted_join {scope name : String} (hs : Undotted scope) (hn : Undotted name) :
    Undotted (join scope name) := by
  unfold join
  split
  · exact hn
  · rename_i hne
    unfold Undotted at hs ⊢
    rw [String.toList_append, String.toList_append]
    cases hl : scope.toList with
    | nil => exact absurd (String.toList_inj.1 (hl.trans rfl)) hne
    | cons c rest => simpa [hl] using hs

end Name

/-! ## Declared types -/

namespace Descriptor

namespace Declaration

open SwiftRpc.Swift (TypeKind)

/-- The full name and the kind of the type that is declared, if it is one. -/
def type? : Declaration → Option (String × TypeKind)
  | .message scope m => some (Name.join scope m.name, .message)
  | .enum scope e => some (Name.join scope e.name, .enum)
  | .service _ => none

/-- The name of the declared type is not empty. -/
def Named : Declaration → Prop
  | .message _ m => m.name ≠ ""
  | .enum _ e => e.name ≠ ""
  | .service _ => True

theorem WellFormed.named {d : Declaration} (h : d.WellFormed) : d.Named := by
  cases d with
  | message scope m => exact h.1
  | enum scope e => exact h
  | service s => trivial

/-- The name of the declared type does not start with a dot. -/
def Undotted : Declaration → Prop
  | .message _ m => Name.Undotted m.name
  | .enum _ e => Name.Undotted e.name
  | .service _ => True

instance : DecidablePred Declaration.Undotted
  | .message _ m => inferInstanceAs (Decidable (Name.Undotted m.name))
  | .enum _ e => inferInstanceAs (Decidable (Name.Undotted e.name))
  | .service _ => isTrue trivial

end Declaration

/-! ### The types in a list of declarations -/

theorem types_enums (scope : String) (enums : List Enum) :
    (enums.map (Declaration.enum scope)).filterMap (·.type?) =
      enums.map fun e => (Name.join scope e.name, Swift.TypeKind.enum) := by
  rw [List.filterMap_map, ← List.filterMap_eq_map]
  rfl

theorem types_declarations (scope : String) (name? : Option String) (fields : List Field)
    (nested : List Message) (enums : List Enum) (options? : Option MessageOptions) :
    (Message.declarations scope ⟨name?, fields, nested, enums, options?⟩).filterMap (·.type?) =
      (Name.join scope (name?.getD ""), .message) ::
        ((Message.allDeclarations (Name.join scope (name?.getD "")) nested).filterMap (·.type?) ++
          enums.map fun e => (Name.join (Name.join scope (name?.getD "")) e.name, .enum)) := by
  rw [Message.declarations, ← types_enums, ← List.filterMap_append]
  rfl

theorem File.types_declarations (f : File) :
    f.declarations.filterMap (·.type?) =
      (Message.allDeclarations f.package f.messages).filterMap (·.type?) ++
        f.enums.map fun e => (Name.join f.package e.name, .enum) := by
  have hservices : (f.services.map Declaration.service).filterMap (·.type?) = [] := by
    rw [List.filterMap_map, List.filterMap_eq_nil_iff]
    exact fun s _ => rfl
  rw [File.declarations, List.filterMap_append, List.filterMap_append, hservices,
    List.append_nil, types_enums]

/-! ### Names without leading dots -/

/-- Neither the package nor a type declared in the file has a name that starts with a dot. -/
def File.Undotted (f : File) : Prop :=
  Name.Undotted f.package ∧ ∀ d ∈ f.declarations, d.Undotted

instance (f : File) : Decidable f.Undotted := inferInstanceAs (Decidable (_ ∧ _))

mutual

theorem Message.undotted_type (scope : String) (hscope : Name.Undotted scope) :
    ∀ m : Message, (∀ d ∈ m.declarations scope, d.Undotted) →
      ∀ t ∈ (m.declarations scope).filterMap (·.type?), Name.Undotted t.1
  | ⟨name?, fields, nested, enums, options?⟩, h => by
    rw [Message.declarations, List.forall_mem_cons, List.forall_mem_append] at h
    obtain ⟨hname, hnested, henums⟩ := h
    have hfull : Name.Undotted (Name.join scope (name?.getD "")) :=
      Name.undotted_join hscope hname
    intro t ht
    rw [types_declarations, List.mem_cons, List.mem_append, List.mem_map] at ht
    rcases ht with rfl | ht | ⟨e, he, rfl⟩
    · exact hfull
    · exact Message.undotted_allType _ hfull nested hnested t ht
    · exact Name.undotted_join hfull (henums _ (List.mem_map_of_mem he))

theorem Message.undotted_allType (scope : String) (hscope : Name.Undotted scope) :
    ∀ l : List Message, (∀ d ∈ Message.allDeclarations scope l, d.Undotted) →
      ∀ t ∈ (Message.allDeclarations scope l).filterMap (·.type?), Name.Undotted t.1
  | [], _ => by simp [Message.allDeclarations]
  | m :: rest, h => by
    rw [Message.allDeclarations, List.forall_mem_append] at h
    rw [Message.allDeclarations]
    intro t ht
    rw [List.filterMap_append, List.mem_append] at ht
    rcases ht with ht | ht
    · exact Message.undotted_type scope hscope m h.1 t ht
    · exact Message.undotted_allType scope hscope rest h.2 t ht

end

/-- A full name starts with the package or with the name of a type. -/
theorem File.Undotted.type {f : File} (h : f.Undotted) {t : String × Swift.TypeKind}
    (ht : t ∈ f.declarations.filterMap (·.type?)) : Name.Undotted t.1 := by
  obtain ⟨hpackage, hdecls⟩ := h
  rw [File.declarations, List.forall_mem_append, List.forall_mem_append] at hdecls
  rw [File.types_declarations, List.mem_append, List.mem_map] at ht
  rcases ht with ht | ⟨e, he, rfl⟩
  · exact Message.undotted_allType f.package hpackage f.messages hdecls.1.1 t ht
  · exact Name.undotted_join hpackage (hdecls.1.2 _ (List.mem_map_of_mem he))

end Descriptor

namespace Swift

open SwiftRpc.Descriptor

/-! ## The rendered types -/

theorem enumTypes_eq {scope : String} {enums : List Enum}
    (h : ∀ d ∈ enums.map (Declaration.enum scope), d.Named) :
    (enums.map fun e => (Name.extend scope e.name, TypeKind.enum)) =
      enums.map fun e => (Name.join scope e.name, TypeKind.enum) := by
  refine List.map_congr_left fun e he => ?_
  have hne : e.name ≠ "" := h _ (List.mem_map_of_mem he)
  rw [Name.extend_eq_join hne]

mutual

theorem messageTypes_eq (scope : String) :
    ∀ m : Message, (∀ d ∈ m.declarations scope, d.Named) →
      messageTypes scope m = (m.declarations scope).filterMap (·.type?)
  | ⟨name?, fields, nested, enums, options?⟩, h => by
    rw [Message.declarations, List.forall_mem_cons, List.forall_mem_append] at h
    obtain ⟨hname, hnested, henums⟩ := h
    have hne : name?.getD "" ≠ "" := hname
    rw [messageTypes, types_declarations, Name.extend_eq_join hne, enumTypes_eq henums,
      messagesTypes_eq _ nested hnested]

theorem messagesTypes_eq (scope : String) :
    ∀ l : List Message, (∀ d ∈ Message.allDeclarations scope l, d.Named) →
      messagesTypes scope l = (Message.allDeclarations scope l).filterMap (·.type?)
  | [], _ => by simp [messagesTypes, Message.allDeclarations]
  | m :: rest, h => by
    rw [Message.allDeclarations, List.forall_mem_append] at h
    rw [messagesTypes, Message.allDeclarations, List.filterMap_append,
      messageTypes_eq scope m h.1, messagesTypes_eq scope rest h.2]

end

theorem fileTypes_eq {f : File} (h : ∀ d ∈ f.declarations, d.Named) :
    fileTypes f = f.declarations.filterMap (·.type?) := by
  rw [File.declarations, List.forall_mem_append, List.forall_mem_append] at h
  obtain ⟨⟨hmessages, henums⟩, -⟩ := h
  rw [fileTypes, File.types_declarations, messagesTypes_eq _ _ hmessages, enumTypes_eq henums]

/-! ## The indexed types -/

namespace TypeIndex

/-- A binding without the place of its type. -/
def label (b : String × TypeEntry) : String × TypeKind := (b.1, b.2.kind)

theorem label_binding (package relativeName : String) (kind : TypeKind) :
    label (binding package relativeName kind) = (Name.join package relativeName, kind) := rfl

theorem labels_enums (package scope : String) (enums : List Enum) :
    (enums.map fun e => binding package (Name.join scope e.name) .enum).map label =
      enums.map fun e => (Name.join (Name.extend package scope) e.name, TypeKind.enum) := by
  rw [List.map_map]
  refine List.map_congr_left fun e _ => ?_
  rw [Function.comp_apply, label_binding, Name.join_join]

mutual

theorem labels_ofMessage (package scope : String) :
    ∀ m : Message, (∀ d ∈ m.declarations (Name.extend package scope), d.Named) →
      (ofMessage package scope m).map label =
        (m.declarations (Name.extend package scope)).filterMap (·.type?)
  | ⟨name?, fields, nested, enums, options?⟩, h => by
    rw [Message.declarations, List.forall_mem_cons, List.forall_mem_append] at h
    obtain ⟨hname, hnested, -⟩ := h
    have hne : name?.getD "" ≠ "" := hname
    rw [← Name.extend_join hne] at hnested
    rw [ofMessage, types_declarations, List.map_cons, List.map_append, labels_enums,
      labels_ofMessages package _ nested hnested, label_binding, Name.join_join,
      Name.extend_join hne]

theorem labels_ofMessages (package scope : String) :
    ∀ l : List Message, (∀ d ∈ Message.allDeclarations (Name.extend package scope) l, d.Named) →
      (ofMessages package scope l).map label =
        (Message.allDeclarations (Name.extend package scope) l).filterMap (·.type?)
  | [], _ => by simp [ofMessages, Message.allDeclarations]
  | m :: rest, h => by
    rw [Message.allDeclarations, List.forall_mem_append] at h
    rw [ofMessages, Message.allDeclarations, List.map_append, List.filterMap_append,
      labels_ofMessage package scope m h.1, labels_ofMessages package scope rest h.2]

end

theorem labels_ofFile {f : File} (h : ∀ d ∈ f.declarations, d.Named) :
    (ofFile f).map label = f.declarations.filterMap (·.type?) := by
  -- inside the package the names start with nothing around them
  have htop : Name.extend f.package "" = f.package := by
    unfold Name.extend
    split
    · rename_i hp
      exact hp.symm
    · rfl
  rw [File.declarations, List.forall_mem_append, List.forall_mem_append] at h
  have hmessages := labels_ofMessages f.package "" f.messages (by rw [htop]; exact h.1.1)
  have henums := labels_enums f.package "" f.enums
  rw [htop] at hmessages henums
  rw [ofFile, File.types_declarations, List.map_append, hmessages, ← henums]
  rfl

theorem exists_get?_ofFiles {files : List File} {name : String} :
    (∃ e, (ofFiles files).get? name = some e) ↔ ∃ f ∈ files, name ∈ (ofFile f).map (·.1) := by
  rw [← Dictionary.mem_keys, ofFiles, Dictionary.mem_keys_ofList, List.map_flatMap,
    List.mem_flatMap]

/-- The types of indexed files are found under their full names. -/
theorem exists_resolve?_of_declared {files : List File} {f : File} (hf : f ∈ files)
    (hnamed : ∀ d ∈ f.declarations, d.Named) (hdots : f.Undotted) {t : String × TypeKind}
    (ht : t ∈ f.declarations.filterMap (·.type?)) :
    ∃ e, (ofFiles files).resolve? t.1 = some e := by
  rw [resolve?, Name.absolute_of_undotted (hdots.type ht), exists_get?_ofFiles]
  rw [← labels_ofFile hnamed] at ht
  obtain ⟨b, hb, rfl⟩ := List.mem_map.1 ht
  exact ⟨f, hf, List.mem_map.2 ⟨b, hb, rfl⟩⟩

/-! ## Swift names -/

theorem swiftName_eq_ok {index : TypeIndex} {reference referrer name : String} :
    index.swiftName reference referrer = .ok name ↔
      ∃ e, index.resolve? reference = some e ∧ name = typeName e.package e.relativeName := by
  unfold swiftName
  cases index.resolve? reference <;> simp [eq_comm]

theorem exists_swiftName {index : TypeIndex} {reference referrer : String} :
    (∃ s, index.swiftName reference referrer = .ok s) ↔
      ∃ e, index.resolve? reference = some e := by
  simp only [swiftName_eq_ok]
  exact ⟨fun ⟨_, e, he, _⟩ => ⟨e, he⟩, fun ⟨e, he⟩ => ⟨_, e, he, rfl⟩⟩

theorem swiftMessageName_eq_ok {index : TypeIndex} {reference referrer name : String} :
    index.swiftMessageName reference referrer = .ok name ↔
      ∃ e, index.resolve? reference = some e ∧ e.kind = .message ∧
        name = typeName e.package e.relativeName := by
  unfold swiftMessageName
  cases index.resolve? reference with
  | none => simp
  | some e =>
    obtain ⟨package, relativeName, kind⟩ := e
    cases kind <;> simp [eq_comm]

theorem exists_swiftMessageName {index : TypeIndex} {reference referrer : String} :
    (∃ s, index.swiftMessageName reference referrer = .ok s) ↔
      ∃ e, index.resolve? reference = some e ∧ e.kind = .message := by
  simp only [swiftMessageName_eq_ok]
  exact ⟨fun ⟨_, e, he, hkind, _⟩ => ⟨e, he, hkind⟩, fun ⟨e, he, hkind⟩ => ⟨_, e, he, hkind, rfl⟩⟩

theorem resolve?_absolute (index : TypeIndex) (reference : String) :
    index.resolve? (Name.absolute reference) = index.resolve? reference := by
  rw [resolve?, resolve?, Name.absolute_absolute]

end TypeIndex

end Swift

end SwiftRpc
