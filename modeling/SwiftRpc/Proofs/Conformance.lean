import SwiftRpc.Proofs.Output

/-!
# Structures conform to what is asked of them

What a client sends has to be encodable and what it receives decodable, together with all that
these values are made of. A structure conforms by an extension at the end of its block. The
extensions follow the capabilities of the registered models, and these go along message fields:
directly to the type of a singular field or of a list, and in two steps, through the hidden entry,
to the values of a map.
-/

namespace SwiftRpc.Swift

open SwiftRpc.Api

/-! ## Extensions -/

namespace Struct

/-- One of the lines of the block opens the extension that stands for the capability. -/
def Extends (s : Struct) : Capability → Prop
  | .encode => "extension " ++ s.name ++ ": Encodable \x7b\x7d" ∈ s.lines
  | .decode => "extension " ++ s.name ++ ": Decodable \x7b" ∈ s.lines

/-- The block is its lines, each with its end. -/
theorem render_eq_join (s : Struct) : s.render = String.join (s.lines.map (· ++ "\n")) := rfl

/-- Whether a line starts like an extension. -/
def isExtension (line : String) : Bool := line.toList.head? = some 'e'

theorem isExtension_declaration (p : Property) : isExtension p.declaration = false := by
  unfold Property.declaration isExtension
  simp

theorem isExtension_codingKey (p : Property) : isExtension p.codingKey = false := by
  unfold Property.codingKey isExtension
  simp

theorem isExtension_decoding (p : Property) : isExtension p.decoding = false := by
  unfold Property.decoding isExtension
  simp

theorem isExtension_encodableLine (s : Struct) : isExtension s.encodableLine = true := by
  simp [isExtension, encodableLine]

theorem isExtension_decodableLine (s : Struct) : isExtension s.decodableLine = true := by
  simp [isExtension, decodableLine]

theorem extensions_map {f : Property → String} (h : ∀ p, isExtension (f p) = false)
    (l : List Property) : (l.map f).filter isExtension = [] := by
  rw [List.filter_eq_nil_iff, List.forall_mem_map]
  intro p _
  simp [h p]

theorem extensions_bodyLines (s : Struct) : s.bodyLines.filter isExtension = [] := by
  have hlead : isExtension ("public struct " ++ s.name ++ " \x7b") = false := by
    simp [isExtension]
  simp only [bodyLines, List.filter_append, extensions_map isExtension_declaration,
    List.filter_cons_of_neg (by simpa using hlead)]
  split
  · decide
  · simp only [List.filter_append, extensions_map isExtension_codingKey]
    decide

theorem extensions_decodableLines (s : Struct) :
    s.decodableLines.filter isExtension = [s.decodableLine] := by
  simp only [decodableLines, List.filter_append, extensions_map isExtension_decoding,
    List.filter_cons_of_pos (isExtension_decodableLine s)]
  split <;> rfl

/-- The extensions of a block, in order. -/
theorem extensions_lines (s : Struct) :
    s.lines.filter isExtension =
      (if s.encodable then [s.encodableLine] else []) ++
        if s.decodable then [s.decodableLine] else [] := by
  rw [lines, List.filter_append, List.filter_append, extensions_bodyLines, List.nil_append]
  congr 1
  · split
    · rw [List.filter_cons_of_neg (by decide),
        List.filter_cons_of_pos (isExtension_encodableLine s)]
      rfl
    · rfl
  · split
    · rw [List.filter_cons_of_neg (by decide), extensions_decodableLines]
    · rfl

theorem mem_lines_of_isExtension {s : Struct} {line : String} (h : isExtension line = true) :
    line ∈ s.lines ↔
      (s.encodable = true ∧ line = s.encodableLine) ∨
        (s.decodable = true ∧ line = s.decodableLine) := by
  have hfilter : line ∈ s.lines ↔ line ∈ s.lines.filter isExtension := by
    rw [List.mem_filter, and_iff_left h]
  rw [hfilter, extensions_lines, List.mem_append, List.mem_ite_nil_right, List.mem_ite_nil_right,
    List.mem_singleton, List.mem_singleton]

theorem encodableLine_ne_decodableLine (s : Struct) : s.encodableLine ≠ s.decodableLine := by
  intro h
  have hlength := congrArg String.length h
  simp only [encodableLine, decodableLine, String.length_append, Nat.add_left_cancel_iff] at hlength
  exact absurd hlength (by decide)

theorem extends_iff_of_ofModel {r : Registry} {index : TypeIndex} {m : Model} {s : Struct}
    (h : Struct.ofModel r index m = .ok s) {c : Capability} : s.Extends c ↔ m.can c = true := by
  obtain ⟨-, name, properties, -, -, rfl⟩ := ofModel_eq_ok.1 h
  have hne := encodableLine_ne_decodableLine ⟨name, properties, m.encodable, m.decodable⟩
  cases c with
  | encode =>
    show encodableLine _ ∈ lines _ ↔ _
    rw [mem_lines_of_isExtension (isExtension_encodableLine _)]
    simp [hne, Model.can]
  | decode =>
    show decodableLine _ ∈ lines _ ↔ _
    rw [mem_lines_of_isExtension (isExtension_decodableLine _)]
    simp [hne.symm, Model.can]

/-- Every property has its line, with its name and its type. -/
theorem exists_mem_lines_of_property {s : Struct} {p : Property} (hp : p ∈ s.properties) :
    ∃ initial, "    public var " ++ p.name ++ ": " ++ p.typeDecl ++ initial ∈ s.lines := by
  have hdecl : p.declaration ∈ s.properties.map Property.declaration := List.mem_map_of_mem hp
  refine ⟨p.defaultAfter " = ", ?_⟩
  show p.declaration ∈ s.lines
  simp only [lines, bodyLines, List.mem_append, hdecl, true_or, or_true]

end Struct

/-! ## Properties -/

section Properties

variable {r : Registry} {index : TypeIndex}

/-- The field is a map, a list or a single one of messages of type `name`. -/
def Holds (r : Registry) (f : Field) (name : String) : Prop :=
  (∃ entry value, IsMap r f entry ∧ entry.field? "value" = some value ∧
    value.isMessage = true ∧ value.typeName = name) ∨
  (∀ entry, ¬ IsMap r f entry) ∧ f.isMessage = true ∧ f.typeName = name

/-- How the type of a property is made from the type of a message. -/
inductive BuiltFrom (element : String) : String → Prop where
  | optional : BuiltFrom element (element ++ "?")
  | list : BuiltFrom element ("[" ++ element ++ "]")
  | map (key : String) : BuiltFrom element ("[" ++ key ++ ": " ++ element ++ "]")

theorem Property.name_of_ofField {m : Model} {f : Field} {p : Property}
    (h : Property.ofField r index m f = .ok p) : p.name = propertyName f.name := by
  unfold Property.ofField at h
  split at h
  · obtain ⟨type, -, rfl⟩ := Outcome.map_eq_ok.1 h
    simp only [ofMap]
  · obtain ⟨element, -, rfl⟩ := Outcome.map_eq_ok.1 h
    unfold ofElement
    split
    · simp only
    · split <;> simp only

theorem elementType_eq_ok {f : Field} (hscalar : f.scalar = none) {referrer type : String} :
    elementType index f referrer = .ok type ↔
      ∃ e, index.resolve? f.typeName = some e ∧ type = typeName e.package e.relativeName := by
  rw [elementType, hscalar]
  exact TypeIndex.swiftName_eq_ok

/-- No message field of a registered model counts as a scalar. -/
def Unmixed (r : Registry) : Prop :=
  ∀ m ∈ r.models, ∀ f ∈ m.fields, f.isMessage = true → f.scalar = none

theorem builtFrom_of_holds (hr : r.Valid) (hunmixed : Unmixed r) {m : Model} (hm : m ∈ r.models)
    {f : Field} (hf : f ∈ m.fields) {p : Property} (hp : Property.ofField r index m f = .ok p)
    {name : String} (hholds : Holds r f name) {e : TypeEntry}
    (he : index.resolve? name = some e) :
    BuiltFrom (typeName e.package e.relativeName) p.typeDecl := by
  unfold Property.ofField at hp
  rcases hholds with ⟨entry, value, hmap, hvalue, hmsg, rfl⟩ | ⟨hno, hmsg, rfl⟩
  · rw [(entryModel?_eq_some hr).2 hmap] at hp
    obtain ⟨type, htype, rfl⟩ := Outcome.map_eq_ok.1 hp
    obtain ⟨key, value', keyType, valueType, -, hvalue', -, helement, rfl⟩ :=
      mapType_eq_ok.1 htype
    rw [hvalue] at hvalue'
    cases hvalue'
    -- the values have the type of that name, as the structure has
    have hscalar := hunmixed entry hmap.registered value (List.mem_of_find?_eq_some hvalue) hmsg
    obtain ⟨e', he', rfl⟩ := (elementType_eq_ok hscalar).1 helement
    rw [he] at he'
    cases he'
    exact BuiltFrom.map keyType
  · rw [(entryModel?_eq_none hr).2 hno] at hp
    obtain ⟨element, helement, rfl⟩ := Outcome.map_eq_ok.1 hp
    have hscalar := hunmixed m hm f hf hmsg
    obtain ⟨e', he', rfl⟩ := (elementType_eq_ok hscalar).1 helement
    rw [he] at he'
    cases he'
    unfold Property.ofElement
    split
    · exact BuiltFrom.list
    · rw [hscalar]
      exact BuiltFrom.optional

/-- The property of a field that holds messages is built from their structure. -/
theorem property_of_holds (hr : r.Valid) (hunmixed : Unmixed r) {m m' : Model} (hm : m ∈ r.models)
    {f : Field} (hf : f ∈ m.fields) (hholds : Holds r f m'.name) {s s' : Struct}
    (hs : Struct.ofModel r index m = .ok s) (hs' : Struct.ofModel r index m' = .ok s') :
    ∃ p ∈ s.properties, p.name = propertyName f.name ∧ BuiltFrom s'.name p.typeDecl ∧
      ∃ initial, "    public var " ++ p.name ++ ": " ++ p.typeDecl ++ initial ∈ s.lines := by
  obtain ⟨-, name, properties, -, hproperties, rfl⟩ := ofModel_eq_ok.1 hs
  obtain ⟨-, name', properties', hname', -, rfl⟩ := ofModel_eq_ok.1 hs'
  obtain ⟨p, hp, hproperty⟩ := Outcome.exists_mem_of_forall₂ hproperties hf
  obtain ⟨e, he, rfl⟩ := TypeIndex.swiftName_eq_ok.1 hname'
  refine ⟨p, hp, Property.name_of_ofField hproperty, ?_, ?_⟩
  · exact builtFrom_of_holds hr hunmixed hm hf hproperty hholds he
  · exact Struct.exists_mem_lines_of_property hp

end Properties

end SwiftRpc.Swift

namespace SwiftRpc.Plugin

open SwiftRpc.Api
open SwiftRpc.Descriptor
open SwiftRpc.Swift

/-! ## The structures of a run -/

/-- The message of full name `name` is declared in the generated file `f`, at any depth, and is no
map entry. -/
structure InRun (r : Request) (f : File) (name : String) (m : Message) : Prop where
  generated : f ∈ generatedFiles r
  declared : ∃ scope, .message scope m ∈ f.declarations ∧ Name.join scope m.name = name
  visible : m.isMapEntry = false

/-- `s` is the structure of the model that is registered under `name`. -/
def IsStruct (plan : Plan) (index : TypeIndex) (name : String) (s : Struct) : Prop :=
  ∃ model, plan.registry.model? name = some model ∧
    Struct.ofModel plan.registry index model = .ok s

section Structures

variable {r : Request} {plan : Plan}

theorem described_of_ofRequest (h : Plan.ofRequest r = .ok plan) {m : Model}
    (hm : m ∈ plan.registry.models) {field : Api.Field} (hf : field ∈ m.fields) :
    ∃ d, field = Field.described d := by
  have hmem : m.bare ∈ declaredModels (generatedFiles r) := by
    rw [← models_of_ofRequest h]
    exact List.mem_map_of_mem hm
  obtain ⟨f, -, scope, msg, -, hbare⟩ := mem_declaredModels.1 hmem
  have hbare' : m.bare = (Model.described f scope msg).bare := hbare
  have hfields : m.fields = msg.fields.map Field.described := Model.fields_of_bare hbare'
  rw [hfields] at hf
  obtain ⟨d, -, rfl⟩ := List.mem_map.1 hf
  exact ⟨d, rfl⟩

theorem unmixed_of_ofRequest (h : Plan.ofRequest r = .ok plan) : Unmixed plan.registry := by
  intro m hm field hf hmsg
  obtain ⟨d, rfl⟩ := described_of_ofRequest h hm hf
  unfold Field.described at hmsg ⊢
  cases hcontent : contentOf d with
  | scalar s =>
    rw [hcontent] at hmsg
    cases hmsg
  | enumeration => rfl
  | message => rfl

/-- The block of a message of the run is among the models of its file in the response. -/
theorem exists_block (h : Plan.ofRequest r = .ok plan) (hopt : plan.options.models = true)
    {index : TypeIndex} (hnone : (plan.render (renderer index plan.options)).error? = none)
    {f : File} {name : String} {m : Message} (hm : InRun r f name m) :
    ∃ s blocks, IsStruct plan index name s ∧ s.render ∈ blocks ∧
      { name? := some (Path.modelFile f.name plan.options.ext)
        content? := some (Text.tidy (sourceText f.name blocks)) } ∈
        (plan.render (renderer index plan.options)).files := by
  obtain ⟨hf, ⟨scope, hdecl, rfl⟩, hentry⟩ := hm
  have hblock : (Declaration.message scope m).hasBlock = true := by
    simp [Declaration.hasBlock, hentry]
  obtain ⟨outputs, houtputs⟩ := exists_outputs hnone
  obtain ⟨output, houtput, clients, models, -, hmodels, rfl⟩ :=
    Outcome.exists_mem_of_forall₂ ((forall₂_fileOutput h).1 houtputs) hf
  rw [ModelOutput, if_pos ⟨hopt, declares_of_hasBlock hdecl hblock⟩] at hmodels
  obtain ⟨blocks, hblocks, rfl⟩ := hmodels
  obtain ⟨text, htext, model, hmodel, hrender⟩ :=
    Outcome.exists_mem_of_forall₂ hblocks (List.mem_filter.2 ⟨hdecl, hblock⟩)
  obtain ⟨s, hs, rfl⟩ := Outcome.map_eq_ok.1 hrender
  refine ⟨s, blocks, ⟨model, hmodel, hs⟩, htext, ?_⟩
  rw [render_of_outputs houtputs]
  refine List.mem_map.2 ⟨⟨_, _⟩, List.mem_flatten.2 ⟨_, houtput, ?_⟩, rfl⟩
  exact List.mem_cons_of_mem _ List.mem_cons_self

/-- The structures of what a method takes and gives have their extensions. -/
theorem extends_of_method (h : Plan.ofRequest r = .ok plan) {index : TypeIndex} {f : File}
    (hf : f ∈ generatedFiles r) {v : Descriptor.Service} (hv : v ∈ f.services)
    {k : Descriptor.Method} (hk : k ∈ v.methods) {c : Capability} {s : Struct}
    (hs : IsStruct plan index ((Method.described k).endType c) s) : s.Extends c := by
  obtain ⟨model, hmodel, hstruct⟩ := hs
  obtain ⟨hmem, hname⟩ := (valid_of_ofRequest h).model?_eq_some.1 hmodel
  obtain ⟨-, -, -, hreg, -, hregistry⟩ := ofRequest_eq_ok.1 h
  rw [hregistry] at hmem
  have hservice : Service.described f v ∈ (declaredRegistry (generatedFiles r)).services := by
    rw [services_declaredRegistry]
    exact mem_declaredServices hf hv
  rw [Struct.extends_iff_of_ofModel hstruct]
  exact hreg.valid.can_of_endType hmem hservice (List.mem_map_of_mem hk) hname.symm

/-- A model passes its capabilities on to the models that its fields hold. -/
theorem can_of_holds (h : Plan.ofRequest r = .ok plan) {model model' : Model}
    (hm : model ∈ plan.registry.models) (hm' : model' ∈ plan.registry.models) {field : Api.Field}
    (hf : field ∈ model.fields) (hholds : Holds plan.registry field model'.name) {c : Capability}
    (hcan : model.can c = true) : model'.can c = true := by
  obtain ⟨-, -, -, hreg, -, hregistry⟩ := ofRequest_eq_ok.1 h
  rcases hholds with ⟨entry, value, hmap, hvalue, hmsg, hty⟩ | ⟨-, hmsg, hty⟩
  · -- two steps: from the model to the entry, and from the entry to the type of its values
    have hentry := hmap.registered
    rw [hregistry] at hm hm' hentry
    have hcan' := hreg.valid.can_of_field hm hentry hf hmap.message hmap.name.symm hcan
    have hin := List.mem_of_find?_eq_some hvalue
    exact hreg.valid.can_of_field hentry hm' hin hmsg hty hcan'
  · rw [hregistry] at hm hm'
    exact hreg.valid.can_of_field hm hm' hf hmsg hty hcan

theorem fields_of_inRun (h : Plan.ofRequest r = .ok plan) {f : File} {name : String} {m : Message}
    (hm : InRun r f name m) {model : Model} (hmodel : plan.registry.model? name = some model) :
    model.fields = m.fields.map Field.described := by
  obtain ⟨hf, ⟨scope, hdecl, rfl⟩, -⟩ := hm
  obtain ⟨model', hmodel', hbare⟩ := registered_message h hf hdecl
  rw [hmodel] at hmodel'
  cases hmodel'
  exact Model.fields_of_bare hbare

end Structures

/-- **Structures conform to what is asked of them.** In a response without errors every message
of the run has its block, and the block is the lines of its structure. The structure of what a
method takes is encodable, that of what it gives decodable; and where a property of a structure is
an optional value, a list or a map of another structure, the other one has the extensions that the
first one has. -/
theorem conformances_closed {r : Request} {response : Response} {plan : Plan}
    (hrun : run r = .ok response) (hnone : response.error? = none)
    (hplan : Plan.ofRequest r = .ok plan) (hopt : plan.options.models = true) :
    let index := TypeIndex.ofFiles r.files
    (∀ f name m, InRun r f name m → ∃ s blocks, IsStruct plan index name s ∧
      s.render = String.join (s.lines.map (· ++ "\n")) ∧ s.render ∈ blocks ∧
      { name? := some (Path.modelFile f.name plan.options.ext)
        content? := some (Text.tidy (sourceText f.name blocks)) } ∈ response.files) ∧
    (∀ f ∈ generatedFiles r, ∀ v ∈ f.services, ∀ k ∈ v.methods, ∀ name s,
      IsStruct plan index name s →
        (Name.absolute k.inputType = name → s.Extends .encode) ∧
        (Name.absolute k.outputType = name → s.Extends .decode)) ∧
    (∀ f name m s name' s', InRun r f name m → IsStruct plan index name s →
      IsStruct plan index name' s' →
      ∀ d ∈ m.fields, Holds plan.registry (Field.described d) name' →
        (∃ p ∈ s.properties, p.name = propertyName d.name ∧ BuiltFrom s'.name p.typeDecl ∧
          ∃ initial, "    public var " ++ p.name ++ ": " ++ p.typeDecl ++ initial ∈ s.lines) ∧
        ∀ c, s.Extends c → s'.Extends c) := by
  intro index
  have hvalid := valid_of_ofRequest hplan
  rw [run_eq_ok hplan] at hrun
  cases hrun
  refine ⟨?_, ?_, ?_⟩
  · intro f name m hm
    obtain ⟨s, blocks, hs, hblock, hfile⟩ := exists_block hplan hopt hnone hm
    exact ⟨s, blocks, hs, s.render_eq_join, hblock, hfile⟩
  · intro f hf v hv k hk name s hs
    constructor
    · rintro rfl
      exact extends_of_method hplan hf hv hk (c := .encode) hs
    · rintro rfl
      exact extends_of_method hplan hf hv hk (c := .decode) hs
  · rintro f name m s name' s' hm ⟨model, hmodel, hs⟩ ⟨model', hmodel', hs'⟩ d hd hholds
    obtain ⟨hmem, -⟩ := hvalid.model?_eq_some.1 hmodel
    obtain ⟨hmem', rfl⟩ := hvalid.model?_eq_some.1 hmodel'
    have hfield : Field.described d ∈ model.fields := by
      rw [fields_of_inRun hplan hm hmodel]
      exact List.mem_map_of_mem hd
    constructor
    · rw [← Field.name_described d]
      exact property_of_holds hvalid (unmixed_of_ofRequest hplan) hmem hfield hholds hs hs'
    · intro c hc
      rw [Struct.extends_iff_of_ofModel hs] at hc
      rw [Struct.extends_iff_of_ofModel hs']
      exact can_of_holds hplan hmem hmem' hfield hholds hc

/-- A method of one file takes a box, declared in another one; the values of the map in the box are
encodable, too. -/
theorem conformances_closed_map :
    let items : Descriptor.Field :=
      { name? := some "items", label? := some 3, type? := some 11,
        typeName? := some ".m.Box.ItemsEntry" }
    let key : Descriptor.Field := { name? := some "key", type? := some 9 }
    let value : Descriptor.Field :=
      { name? := some "value", type? := some 11, typeName? := some ".m.Item" }
    let entry : Message :=
      { name? := some "ItemsEntry", fields := [key, value],
        options? := some { mapFlag? := some true } }
    let box : Message := { name? := some "Box", fields := [items], nested := [entry] }
    let item : Message := { name? := some "Item" }
    let put : Descriptor.Method :=
      { name? := some "Put", inputType? := some ".m.Box", outputType? := some ".m.Box" }
    let types : File :=
      { name? := some "m.proto", package? := some "m", messages := [box, item],
        services := [{ name? := some "Idle" }] }
    let calls : File :=
      { name? := some "desk.proto", services := [{ name? := some "Desk", methods := [put] }] }
    let r : Request :=
      { filesToGenerate := ["desk.proto", "m.proto"], files := [types, calls] }
    ∃ plan s, Plan.ofRequest r = .ok plan ∧ InRun r types "m.Item" item ∧
      IsStruct plan (TypeIndex.ofFiles r.files) "m.Item" s ∧
      s.render = String.join (s.lines.map (· ++ "\n")) ∧ s.Extends .encode := by
  intro items key value entry box item put types calls r
  have hok : (Plan.ofRequest r).toOption.isSome = true := by decide +kernel
  obtain ⟨plan, hplan⟩ := Outcome.exists_eq_ok_iff.2 hok
  have hnone : (run r).toOption.bind (·.error?) = none := by decide +kernel
  have hrun := run_eq_ok hplan
  rw [hrun] at hnone
  obtain ⟨-, hparse, -, -, -, hregistry⟩ := ofRequest_eq_ok.1 hplan
  have hopt : plan.options.models = true := by
    rw [show Options.parse r.parameter? = .ok {} by decide +kernel] at hparse
    rw [← Except.ok.inj hparse]
  obtain ⟨hblocks, hmethods, hholds⟩ := conformances_closed hrun hnone hplan hopt
  have htypes : types ∈ generatedFiles r := by
    refine List.mem_filter.2 ⟨List.mem_filterMap.2 ⟨"m.proto", by simp [r], rfl⟩, ?_⟩
    decide +kernel
  have hcalls : calls ∈ generatedFiles r := by
    refine List.mem_filter.2 ⟨List.mem_filterMap.2 ⟨"desk.proto", by simp [r], rfl⟩, ?_⟩
    decide +kernel
  have hdecls : types.declarations = [.message "m" box, .message "m.Box" entry, .message "m" item,
      .service { name? := some "Idle" }] := by rfl
  have hbox : InRun r types "m.Box" box := ⟨htypes, ⟨"m", by simp [hdecls], by decide⟩, rfl⟩
  have hitem : InRun r types "m.Item" item := ⟨htypes, ⟨"m", by simp [hdecls], by decide⟩, rfl⟩
  obtain ⟨sbox, -, hsbox, -⟩ := hblocks types "m.Box" box hbox
  obtain ⟨sitem, -, hsitem, hlines, -⟩ := hblocks types "m.Item" item hitem
  have hput := hmethods calls hcalls _ List.mem_cons_self put List.mem_cons_self
  have hencode := (hput "m.Box" sbox hsbox).1 (by decide)
  refine ⟨plan, sitem, hplan, hitem, hsitem, hlines, ?_⟩
  have hmap : Holds plan.registry (Field.described items) "m.Item" := by
    have hentry : .message "m.Box" entry ∈ types.declarations := by simp [hdecls]
    obtain ⟨model, hmodel, hbare⟩ := registered_message hplan htypes hentry
    obtain ⟨hmem, hname⟩ := (valid_of_ofRequest hplan).model?_eq_some.1 hmodel
    have hflag : model.isMapEntry = true := Model.isMapEntry_of_bare hbare
    have hvalue : model.bare.field? "value" = some (Field.described value) := by
      rw [hbare]
      decide +kernel
    refine Or.inl
      ⟨model, Field.described value, ⟨by decide, by decide, hmem, ?_, hflag⟩, hvalue, ?_⟩
    · rw [hname]
      decide
    · decide
  exact (hholds types _ box _ _ _ hbox hsbox hsitem items List.mem_cons_self hmap).2 _ hencode

end SwiftRpc.Plugin
