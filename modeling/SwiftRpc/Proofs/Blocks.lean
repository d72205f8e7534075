import SwiftRpc.Proofs.LineEnds
import SwiftRpc.Proofs.OneLine
import SwiftRpc.Proofs.Render

/-!
# The lines of a block

A block of generated text is a list of lines, and each of them ends in something that the renderer
wrote and not in a name. So a block is tidy whatever the names are, if they are on one line. Only a
client can differ: it is filled from a template, and a name that has the slot of the methods in it
gets lines put in. Then a line is torn, and if it is torn behind a blank the block is not tidy.
-/

namespace SwiftRpc.Text

/-! ## Lines -/

/-- A line that ends in something to be seen. -/
def IsLine (s : String) : Prop := OneLine s ∧ s ≠ "" ∧ EndTrimmed s.toList

instance (s : String) : Decidable (IsLine s) := inferInstanceAs (Decidable (_ ∧ _))

theorem IsLine.behind {s t : String} (hs : OneLine s) (ht : IsLine t) : IsLine (s ++ t) := by
  obtain ⟨hone, hne, hend⟩ := ht
  have hne' : t.toList ≠ [] := fun h => hne (String.toList_inj.1 h)
  refine ⟨hs.append hone, fun h => ?_, ?_⟩
  · have hlist := congrArg String.toList h
    rw [String.toList_append] at hlist
    exact hne' (List.append_eq_nil_iff.1 hlist).2
  · rwa [String.toList_append, EndTrimmed, List.getLast?_append_of_ne_nil _ hne']

/-- Lines of which the last one is not empty. -/
structure NeatLines (ls : List String) : Prop where
  line : ∀ l ∈ ls, l = "" ∨ IsLine l
  last : ∃ l, ls.getLast? = some l ∧ IsLine l

theorem NeatLines.behind {ls ls' : List String} (h : ∀ l ∈ ls, l = "" ∨ IsLine l)
    (h' : NeatLines ls') : NeatLines (ls ++ ls') := by
  refine ⟨fun l hl => (List.mem_append.1 hl).elim (h l) (h'.line l), ?_⟩
  obtain ⟨l, hl, hline⟩ := h'.last
  refine ⟨l, ?_, hline⟩
  rw [List.getLast?_append, hl, Option.some_or]

theorem NeatLines.singleton {l : String} (h : IsLine l) : NeatLines [l] :=
  ⟨List.forall_mem_singleton.2 (Or.inr h), l, rfl, h⟩

theorem NeatLines.afterEmpty {ls : List String} (h : NeatLines ls) : NeatLines ("" :: ls) := by
  show NeatLines ([""] ++ ls)
  exact .behind (by simp) h

/-- Further lines may follow or not. -/
theorem NeatLines.appendIf {ls ls' : List String} (h : NeatLines ls) (h' : NeatLines ls')
    (c : Bool) : NeatLines (ls ++ if c then ls' else []) := by
  cases c with
  | true => exact .behind h.line h'
  | false =>
    rw [if_neg Bool.false_ne_true, List.append_nil]
    exact h

theorem forall_mem_unless {c : Prop} [Decidable c] {p : String → Prop} {ls : List String}
    (h : ∀ l ∈ ls, p l) : ∀ l ∈ if c then [] else ls, p l := by
  split
  · simp
  · exact h

theorem NeatLines.tidyLines {ls : List String} (h : NeatLines ls) :
    TidyLines (ls.map String.toList) := by
  constructor
  · rw [List.forall_mem_map]
    intro l hl
    rcases h.line l hl with rfl | hline
    · decide
    · exact hline.1
  · rw [List.forall_mem_map]
    intro l hl
    rcases h.line l hl with rfl | hline
    · decide
    · exact hline.2.2
  · obtain ⟨l, hl, -, hne, -⟩ := h.last
    rw [List.getLast?_map, hl, Option.map_some, ne_eq, Option.some.injEq]
    exact fun hnil => hne (String.toList_inj.1 hnil)

/-! ## Blocks -/

/-- Text that ends its last line, and no line of it ends in a blank. -/
structure IsBlock (text : String) : Prop where
  endsLine : EndsLine text.toList
  tidy : ¬ GapBefore ['\n'] text.toList

theorem toList_join_blocks (blocks : List String) :
    (String.join (blocks.map ("\n" ++ ·))).toList = blocks.flatMap ('\n' :: ·.toList) := by
  rw [String.toList_join, List.flatMap_map]
  refine List.flatMap_congr fun b _ => ?_
  rw [String.toList_append]
  rfl

theorem gapBefore_blocks {blocks : List String} (h : ∀ b ∈ blocks, EndsLine b.toList) :
    GapBefore ['\n'] (blocks.flatMap ('\n' :: ·.toList)) ↔
      ∃ b ∈ blocks, GapBefore ['\n'] b.toList := by
  induction blocks with
  | nil => simp
  | cons b rest ih =>
    obtain ⟨hb, hrest⟩ := List.forall_mem_cons.1 h
    have hjoin (t : List Char) :
        GapBefore ['\n'] ('\n' :: (b.toList ++ t)) ↔
          GapBefore ['\n'] b.toList ∨ GapBefore ['\n'] t := by
      rw [gapBefore_cons, or_iff_right (fun hgap => not_isGap_feed hgap.1), gapBefore_append]
      rw [hb.getLast?_eq]
      rintro c ⟨⟩ hc
      exact absurd hc not_isGap_feed
    rw [List.flatMap_cons, List.cons_append, hjoin, ih hrest]
    simp

theorem endsLine_blocks {blocks : List String} (hne : blocks ≠ [])
    (h : ∀ b ∈ blocks, EndsLine b.toList) : EndsLine (blocks.flatMap ('\n' :: ·.toList)) := by
  obtain ⟨front, b, rfl⟩ := (List.eq_nil_or_concat blocks).resolve_left hne
  have hb : EndsLine b.toList := h b (by simp)
  rw [List.concat_eq_append, List.flatMap_append, List.flatMap_singleton]
  exact (hb.append ['\n']).append _

end SwiftRpc.Text

namespace SwiftRpc.Swift

open SwiftRpc.Api
open SwiftRpc.Text

theorem toList_unlines (ls : List String) :
    (unlines ls).toList = (ls.map String.toList).flatMap (· ++ ['\n']) := by
  rw [unlines, String.toList_join, List.flatMap_map, List.flatMap_map]
  refine List.flatMap_congr fun l _ => ?_
  rw [String.toList_append]
  rfl

theorem isBlock_unlines {ls : List String} (h : NeatLines ls) : IsBlock (unlines ls) := by
  have htidy : IsTidy (unlines ls).toList := by
    rw [toList_unlines]
    exact h.tidyLines.isTidy
  have hends : EndsLine (unlines ls).toList := by
    refine htidy.ending.resolve_left fun hnil => ?_
    obtain ⟨l, hl, -⟩ := h.last
    rw [toList_unlines, List.flatMap_eq_nil_iff] at hnil
    have hmem := List.mem_map_of_mem (f := String.toList) (List.mem_of_getLast? hl)
    simpa using hnil _ hmem
  exact ⟨hends, hends.isTidy_iff.1 htidy⟩

/-! ## Structures -/

/-- A property whose names and types are on one line. What stands at the end of its lines is its
default value or, if it has none, its type. -/
structure Property.Neat (p : Property) : Prop where
  name : OneLine p.name
  typeDecl : OneLine p.typeDecl
  decodeType : OneLine p.decodeType
  jsonName : OneLine p.jsonName
  default : ∀ value ∈ p.default?, IsLine value
  optional : p.default? = none → IsLine p.typeDecl

structure Struct.Neat (s : Struct) : Prop where
  name : OneLine s.name
  properties : ∀ p ∈ s.properties, p.Neat

theorem isLine_textLiteral {s : String} (h : OneLine s) : IsLine (textLiteral s) := by
  have hquote : IsLine "\"" := by decide
  exact .behind (hquote.1.append (oneLine_ofList.2 (feed_not_mem_quoteChars h))) hquote

namespace Property.Neat

variable {p : Property}

theorem declaration (h : p.Neat) : IsLine p.declaration := by
  have hlead : OneLine ("    public var " ++ p.name ++ ": ") :=
    (OneLine.append (by decide) h.name).append (by decide)
  unfold Property.declaration defaultAfter
  split
  · rename_i value hvalue
    exact .behind (hlead.append h.typeDecl) (.behind (by decide) (h.default value hvalue))
  · rename_i hnone
    rw [String.append_empty]
    exact .behind hlead (h.optional hnone)

theorem codingKey (h : p.Neat) : IsLine p.codingKey :=
  .behind ((OneLine.append (by decide) h.name).append (by decide)) (isLine_textLiteral h.jsonName)

theorem decoding (h : p.Neat) : IsLine p.decoding := by
  have hcall : IsLine ("        " ++ p.name ++ " = try container.decodeIfPresent(" ++
      p.decodeType ++ ".self, forKey: ." ++ p.name ++ ")") := by
    refine .behind ?_ (by decide)
    simp only [oneLine_append, h.name, h.decodeType, and_true]
    decide
  unfold Property.decoding defaultAfter
  split
  · rename_i value hvalue
    exact .behind hcall.1 (.behind (by decide) (h.default value hvalue))
  · rw [String.append_empty]
    exact hcall

end Property.Neat

namespace Struct.Neat

variable {s : Struct}

theorem bodyLines (h : s.Neat) : NeatLines s.bodyLines := by
  have hopen : IsLine ("public struct " ++ s.name ++ " \x7b") :=
    .behind (OneLine.append (by decide) h.name) (by decide)
  have hkeys : ∀ l ∈ ["", "    enum CodingKeys: String, CodingKey \x7b"] ++
      s.properties.map Property.codingKey ++ ["    \x7d"], l = "" ∨ IsLine l := by
    simp only [List.forall_mem_append, List.forall_mem_map]
    exact ⟨⟨by decide, fun p hp => Or.inr (h.properties p hp).codingKey⟩, by decide⟩
  refine .behind ?_ (.singleton (by decide))
  simp only [List.forall_mem_append, List.forall_mem_map, List.forall_mem_singleton]
  refine ⟨⟨⟨⟨Or.inr hopen, ?_⟩, forall_mem_unless (by decide)⟩, by decide⟩, forall_mem_unless hkeys⟩
  exact fun p hp => Or.inr (h.properties p hp).declaration

theorem decodableLines (h : s.Neat) : NeatLines s.decodableLines := by
  have hopen : IsLine s.decodableLine := .behind (OneLine.append (by decide) h.name) (by decide)
  refine .behind ?_ ⟨by decide, "\x7d", rfl, by decide⟩
  simp only [List.forall_mem_append, List.forall_mem_map, List.forall_mem_cons]
  refine ⟨⟨⟨Or.inr hopen, by decide, by decide, by decide⟩, forall_mem_unless (by decide)⟩, ?_⟩
  exact fun p hp => Or.inr (h.properties p hp).decoding

theorem lines (h : s.Neat) : NeatLines s.lines := by
  have hencodable : IsLine s.encodableLine :=
    .behind (OneLine.append (by decide) h.name) (by decide)
  have hfirst := h.bodyLines.appendIf (.afterEmpty (.singleton hencodable)) s.encodable
  exact hfirst.appendIf h.decodableLines.afterEmpty s.decodable

end Struct.Neat

section Rendered

variable {r : Registry} {index : TypeIndex}

theorem oneLine_scalarType (s : Scalar) : OneLine (scalarType s) := by
  cases s <;> decide

theorem isLine_scalarZero (s : Scalar) : IsLine (scalarZero s) := by
  cases s <;> decide

theorem oneLine_elementType (hindex : index.Neat) {f : Field} {referrer type : String}
    (h : elementType index f referrer = .ok type) : OneLine type := by
  unfold elementType at h
  split at h
  · rename_i s _
    cases h
    exact oneLine_scalarType s
  · obtain ⟨e, he, rfl⟩ := TypeIndex.swiftName_eq_ok.1 h
    exact (hindex _ e he).2

theorem oneLine_mapType (hindex : index.Neat) {entry : Model} {referrer type : String}
    (h : mapType index entry referrer = .ok type) : OneLine type := by
  obtain ⟨key, value, keyType, valueType, -, -, hkey, hvalue, rfl⟩ := mapType_eq_ok.1 h
  simp only [oneLine_append, oneLine_elementType hindex hkey, oneLine_elementType hindex hvalue]
  decide

theorem Property.neat_withDefault {name type jsonName value : String} (hname : OneLine name)
    (htype : OneLine type) (hjson : OneLine jsonName) (hvalue : IsLine value) :
    Property.Neat ⟨name, type, type, some value, jsonName⟩ where
  name := hname
  typeDecl := htype
  decodeType := htype
  jsonName := hjson
  default := by
    rintro _ ⟨⟩
    exact hvalue
  optional := nofun

theorem Property.neat_optional {name type jsonName : String} (hname : OneLine name)
    (htype : OneLine type) (hjson : OneLine jsonName) :
    Property.Neat ⟨name, type ++ "?", type, none, jsonName⟩ where
  name := hname
  typeDecl := htype.append (by decide)
  decodeType := htype
  jsonName := hjson
  default := nofun
  optional := fun _ => .behind htype (by decide)

theorem Property.neat_ofMap {f : Field} (hname : OneLine f.name) (hjson : OneLine f.jsonName)
    {type : String} (htype : OneLine type) : (ofMap f type).Neat :=
  neat_withDefault (oneLine_propertyName hname) htype hjson (by decide)

theorem Property.neat_ofElement {f : Field} (hname : OneLine f.name) (hjson : OneLine f.jsonName)
    {element : String} (helement : OneLine element) : (ofElement f element).Neat := by
  have hproperty := oneLine_propertyName hname
  unfold ofElement
  split
  · refine neat_withDefault hproperty ?_ hjson (by decide)
    exact (OneLine.append (by decide) helement).append (by decide)
  · split
    · rename_i s _
      exact neat_withDefault hproperty helement hjson (isLine_scalarZero s)
    · exact neat_optional hproperty helement hjson

theorem Property.neat_of_ofField (hindex : index.Neat) {m : Model} {f : Field}
    (hname : OneLine f.name) (hjson : OneLine f.jsonName) {p : Property}
    (h : ofField r index m f = .ok p) : p.Neat := by
  unfold ofField at h
  split at h
  · obtain ⟨type, htype, rfl⟩ := Outcome.map_eq_ok.1 h
    exact neat_ofMap hname hjson (oneLine_mapType hindex htype)
  · obtain ⟨element, helement, rfl⟩ := Outcome.map_eq_ok.1 h
    exact neat_ofElement hname hjson (oneLine_elementType hindex helement)

theorem isBlock_of_renderModel (hindex : index.Neat) {m : Model}
    (hfields : ∀ f ∈ m.fields, OneLine f.name ∧ OneLine f.jsonName) {text : String}
    (h : renderModel r index m = .ok text) : IsBlock text := by
  obtain ⟨s, hs, rfl⟩ := Outcome.map_eq_ok.1 h
  obtain ⟨-, name, properties, hname, hproperties, rfl⟩ := ofModel_eq_ok.1 hs
  obtain ⟨e, he, rfl⟩ := TypeIndex.swiftName_eq_ok.1 hname
  refine isBlock_unlines (Struct.Neat.lines ⟨(hindex _ e he).2, fun p hp => ?_⟩)
  obtain ⟨f, hf, hofField⟩ := Outcome.exists_mem_of_forall₂ hproperties.flip hp
  exact Property.neat_of_ofField hindex (hfields f hf).1 (hfields f hf).2 hofField

/-! ## Enumerations -/

theorem isLine_caseLine (enumeration : String) {value : String} (h : OneLine value) :
    IsLine (caseLine enumeration value) := by
  have hname := oneLine_caseName enumeration h
  exact .behind ((OneLine.append (by decide) hname).append (by decide)) (isLine_textLiteral h)

theorem isBlock_of_renderEnum (hindex : index.Neat) {e : Enumeration}
    (hvalues : ∀ v ∈ e.values, OneLine v.name) {text : String}
    (h : renderEnum index e = .ok text) : IsBlock text := by
  obtain ⟨name, hname, htext⟩ := Outcome.bind_eq_ok.1 h
  obtain ⟨entry, hentry, rfl⟩ := TypeIndex.swiftName_eq_ok.1 hname
  rw [Outcome.pure_eq_ok.1 htext]
  refine isBlock_unlines (.behind ?_ (.singleton (by decide)))
  rw [List.forall_mem_append, List.forall_mem_singleton, List.forall_mem_map]
  refine ⟨Or.inr (.behind ?_ (by decide)), fun v hv => Or.inr (isLine_caseLine _ (hvalues v hv))⟩
  exact OneLine.append (by decide) (hindex _ entry hentry).2

end Rendered

end SwiftRpc.Swift
