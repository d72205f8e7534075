import SwiftRpc.Proofs.Blocks

/-!
# The blocks of clients

A client is filled from a template. Its own lines end as the template has them, and its methods are
lines of their own. But a name may have the slot of the methods in it, and then the methods are put
into the line of the name. If the slot stands behind a blank, this blank ends the torn line
(`TearsLine`). Nothing else makes a line of a client end in a blank.
-/

namespace SwiftRpc.Swift

open SwiftRpc.Api
open SwiftRpc.Text

/-! ## Methods -/

structure ClientMethod.Neat (m : ClientMethod) : Prop where
  function : OneLine m.function
  argument : OneLine m.argument
  inputType : OneLine m.inputType
  outputType : OneLine m.outputType
  path : OneLine m.path

theorem ClientMethod.Neat.isBlock {m : ClientMethod} (h : m.Neat) : IsBlock m.render := by
  refine isBlock_unlines ⟨?_, "    \x7d", rfl, by decide⟩
  simp only [List.forall_mem_cons, List.not_mem_nil, false_implies, implies_true, and_true]
  refine ⟨Or.inr (.behind ?_ (by decide)), Or.inr (.behind ?_ (by decide)), Or.inr (by decide)⟩
  · simp only [oneLine_append, h.function, h.argument, h.inputType, h.outputType]
    decide
  · simp only [oneLine_append, h.argument, h.path]
    decide

theorem ClientMethod.neat_of_ofMethod {index : TypeIndex} (hindex : index.Neat) {service : String}
    {k : Descriptor.Method} (hname : OneLine k.name) {m : ClientMethod}
    (h : ofMethod index service (Method.described k) = .ok m) : m.Neat := by
  obtain ⟨-, h⟩ := Outcome.refused_eq_ok.1 h
  obtain ⟨inputType, hinput, h⟩ := Outcome.bind_eq_ok.1 h
  obtain ⟨outputType, houtput, h⟩ := Outcome.bind_eq_ok.1 h
  obtain ⟨input, hi, -, hinputType⟩ := TypeIndex.swiftMessageName_eq_ok.1 hinput
  obtain ⟨output, ho, -, houtputType⟩ := TypeIndex.swiftMessageName_eq_ok.1 houtput
  obtain ⟨hreference, hinputLine⟩ := hindex _ input hi
  obtain ⟨-, houtputLine⟩ := hindex _ output ho
  rw [← hinputType] at hinputLine
  rw [← houtputType] at houtputLine
  -- the label is made of the reference, which is the name of a type
  have hplain : Name.absolute (Method.described k).inputType = Name.absolute k.inputType :=
    Name.absolute_absolute k.inputType
  rw [hplain] at hreference
  have hlabel : OneLine (Method.described k).inputArg :=
    Name.oneLine_decapitalize (Name.oneLine_short hreference)
  rw [Outcome.pure_eq_ok.1 h]
  constructor <;> dsimp only
  · exact oneLine_escape (Name.oneLine_decapitalize hname)
  · exact oneLine_escape hlabel
  · exact hinputLine
  · exact houtputLine
  · exact hname

/-! ## The template -/

/-- The template has a blank before the name of the structure and nowhere else at a slot. -/
theorem clientTemplate_texts :
    ∃ head fields body tail : String,
      clientTemplate = [.text head, .slot .serviceType, .text fields, .slot .serviceFullName,
        .text body, .slot .methods, .text tail] ∧
      head.toList = "public struct".toList ++ [' '] ∧
      (∀ t ∈ [fields, body, tail], ¬ GapBefore ['\n'] t.toList) ∧
      (∀ t ∈ [fields, body], t.toList ≠ [] ∧ t.toList.head? ≠ some '\n') ∧
      fields.toList.getLast? = some '/' ∧ body.toList.getLast? = some '\n' ∧
      EndsLine tail.toList := by
  refine ⟨_, _, _, _, rfl, by decide, ?_, ?_, ?_, ?_, ?_⟩
  · simp only [List.forall_mem_cons, List.not_mem_nil, false_implies, implies_true, and_true,
      String.toList_append]
    refine ⟨?_, ?_, ?_⟩
    all_goals
      repeat rw [String.toList_ofList]
      decide +kernel
  · simp only [List.forall_mem_cons, List.not_mem_nil, false_implies, implies_true, and_true,
      String.toList_append]
    refine ⟨⟨?_, ?_⟩, ?_, ?_⟩
    all_goals
      repeat rw [String.toList_ofList]
      decide +kernel
  · rw [String.toList_append, List.getLast?_append_of_ne_nil _ (by decide)]
    decide
  · rw [String.toList_append, List.getLast?_append_of_ne_nil _ (by decide)]
    decide
  · rw [String.toList_append]
    exact EndsLine.append ⟨[], '\x7d', by decide, by decide⟩ _

/-- The only place where a slot starts behind a blank is that of the name of the structure. -/
theorem gapBefore_clientTemplate {held : Slot → List Char}
    (hmethods : ∀ c ∈ (held .methods).getLast?, ¬ IsGap c) :
    GapBefore ['\n'] (clientTemplate.flatMap (·.content held)) ↔
      GapBefore ['\n'] (' ' :: held .serviceType) ∨ GapBefore ['\n'] (held .serviceFullName) ∨
        GapBefore ['\n'] (held .methods) := by
  obtain ⟨head, fields, body, tail, htemplate, hhead, htexts, hstarts, hfieldsLast, hbodyLast, -⟩ :=
    clientTemplate_texts
  simp only [List.forall_mem_cons, List.not_mem_nil, false_implies, implies_true, and_true]
    at htexts hstarts
  obtain ⟨hfields, hbody, htail⟩ := htexts
  obtain ⟨⟨hfieldsFull, hfieldsHead⟩, hbodyFull, hbodyHead⟩ := hstarts
  have htext : clientTemplate.flatMap (·.content held) =
      "public struct".toList ++ ((' ' :: held .serviceType) ++ (fields.toList ++
        (held .serviceFullName ++ (body.toList ++ (held .methods ++ tail.toList))))) := by
    rw [htemplate]
    simp [Segment.content, hhead]
  have hstart : ¬ GapBefore ['\n'] "public struct".toList := by decide
  rw [htext, gapBefore_append, gapBefore_append, gapBefore_append, gapBefore_append,
    gapBefore_append, gapBefore_append]
  · simp only [hstart, hfields, hbody, htail, false_or, or_false]
  · exact fun c hc hgap => absurd hgap (hmethods c hc)
  · rw [hbodyLast]
    rintro c ⟨⟩ hgap
    exact absurd hgap not_isGap_feed
  · rw [List.head?_append_of_ne_nil _ hbodyFull]
    exact fun _ _ _ => hbodyHead
  · rw [hfieldsLast]
    rintro c ⟨⟩ hgap
    exact absurd hgap (by decide)
  · rw [List.head?_append_of_ne_nil _ hfieldsFull]
    exact fun _ _ _ => hfieldsHead
  · exact fun _ _ _ hfeed => absurd (Option.some.inj hfeed) (by decide)

theorem endsLine_clientTemplate (held : Slot → List Char) :
    EndsLine (clientTemplate.flatMap (·.content held)) := by
  obtain ⟨head, fields, body, tail, htemplate, -, -, -, -, -, hends⟩ := clientTemplate_texts
  have htail : clientTemplate.flatMap (·.content held) =
      clientTemplate.dropLast.flatMap (·.content held) ++ tail.toList := by
    rw [htemplate]
    simp [Segment.content]
  rw [htail]
  exact hends.append _

structure Client.Neat (c : Client) : Prop where
  typeName : OneLine c.typeName
  fullName : OneLine c.fullName
  methods : ∀ m ∈ c.methods, m.Neat

/-- The slot of the methods stands behind a blank, in the name of a structure or in its path. Where
methods are put there, the blank ends its line. -/
def TearsLine (typeName fullName : String) : Prop :=
  GapBefore Slot.methods.marker.toList
      (' ' :: (replaceAll Slot.serviceFullName.marker fullName typeName).toList) ∨
    GapBefore Slot.methods.marker.toList fullName.toList

instance (typeName fullName : String) : Decidable (TearsLine typeName fullName) :=
  inferInstanceAs (Decidable (_ ∨ _))

theorem toList_methodText (c : Client) :
    c.methodText.toList = (c.methods.map ClientMethod.render).flatMap ('\n' :: ·.toList) := by
  rw [← toList_join_blocks, List.map_map]
  rfl

namespace Client.Neat

variable {c : Client}

theorem isBlock_method (hc : c.Neat) : ∀ b ∈ c.methods.map ClientMethod.render, IsBlock b := by
  rw [List.forall_mem_map]
  exact fun m hm => (hc.methods m hm).isBlock

theorem not_gapBefore_methodText (hc : c.Neat) : ¬ GapBefore ['\n'] c.methodText.toList := by
  rw [toList_methodText, gapBefore_blocks fun b hb => (hc.isBlock_method b hb).endsLine]
  rintro ⟨b, hb, hgap⟩
  exact (hc.isBlock_method b hb).tidy hgap

theorem getLast?_methodText (hc : c.Neat) (hne : c.methods ≠ []) :
    c.methodText.toList.getLast? = some '\n' := by
  rw [toList_methodText]
  have hends := endsLine_blocks (by simpa using hne) fun b hb => (hc.isBlock_method b hb).endsLine
  exact hends.getLast?_eq

/-- Text on one line, with the methods in the places of their slots. -/
theorem gapBefore_putMethods (hc : c.Neat) {s : List Char} (hs : '\n' ∉ s) :
    GapBefore ['\n'] (replaceFrom Slot.methods.marker.toList c.methodText.toList 0 s) ↔
      c.methods ≠ [] ∧ GapBefore Slot.methods.marker.toList s := by
  cases hmethods : c.methods with
  | nil =>
    have hempty : c.methodText.toList = [] := by rw [toList_methodText, hmethods]; rfl
    rw [hempty]
    refine iff_of_false (not_gapBefore_of_not_mem ?_) (fun h => h.1 rfl)
    exact feed_not_mem_replaceFrom List.not_mem_nil hs
  | cons m rest =>
    have hne : c.methods ≠ [] := by simp [hmethods]
    have hhead : c.methodText.toList.head? = some '\n' := by
      rw [toList_methodText, hmethods]
      rfl
    have hmarker : Slot.methods.marker.toList.all (!isBlank ·) = true := by decide +kernel
    rw [gapBefore_replaceFrom Slot.methods.marker_ne_nil (by simpa using hmarker) hhead
      (hc.getLast?_methodText hne) hc.not_gapBefore_methodText,
      or_iff_right (not_gapBefore_of_not_mem hs)]
    simp

/-- Every line of a client ends as it should, but for those that its methods tear. -/
theorem gapBefore_render (hc : c.Neat) :
    EndsLine c.render.toList ∧ (GapBefore ['\n'] c.render.toList ↔
      c.methods ≠ [] ∧ TearsLine c.typeName c.fullName) := by
  have hfilled : c.render.toList =
      clientTemplate.flatMap (·.content (Template.refilled c.slotValue)) :=
    Template.toList_fill clientTemplate_fenced c.slotValue
  have htype : '\n' ∉ (replaceAll Slot.serviceFullName.marker c.fullName c.typeName).toList := by
    rw [replaceAll, String.toList_ofList]
    exact feed_not_mem_replaceFrom hc.fullName hc.typeName
  have hlast : ∀ d ∈ c.methodText.toList.getLast?, ¬ IsGap d := by
    intro d hd
    by_cases hne : c.methods = []
    · rw [toList_methodText, hne] at hd
      cases hd
    · rw [hc.getLast?_methodText hne] at hd
      cases hd
      exact not_isGap_feed
  -- the blank before the name of the structure is part of what is searched
  have hstruct : ' ' :: Template.refilled c.slotValue .serviceType =
      replaceFrom Slot.methods.marker.toList c.methodText.toList 0
        (' ' :: (replaceAll Slot.serviceFullName.marker c.fullName c.typeName).toList) := by
    rw [replaceFrom_cons (by simp [Slot.marker]), replaceAll, String.toList_ofList]
    rfl
  have hpath : Template.refilled c.slotValue .serviceFullName =
      replaceFrom Slot.methods.marker.toList c.methodText.toList 0 c.fullName.toList := rfl
  have hmethods : Template.refilled c.slotValue .methods = c.methodText.toList := rfl
  rw [hfilled]
  refine ⟨endsLine_clientTemplate _, ?_⟩
  rw [gapBefore_clientTemplate hlast, hstruct, hpath, hmethods,
    or_iff_left hc.not_gapBefore_methodText, hc.gapBefore_putMethods hc.fullName,
    hc.gapBefore_putMethods (by simpa using htype), ← and_or_left]
  rfl

end Client.Neat

theorem not_tearsLine_of_unbraced {typeName fullName : String} (htype : Unbraced typeName.toList)
    (hname : Unbraced fullName.toList) : ¬ TearsLine typeName fullName := by
  obtain ⟨marker, hmarker, -⟩ := Slot.methods.marker_eq
  have hbraces : ['\x7b', '\x7b'] <:+: Slot.methods.marker.toList := by
    rw [hmarker]
    exact (List.prefix_append ['\x7b', '\x7b'] marker).isInfix
  rintro (hgap | hgap)
  · rw [replaceAll, String.toList_ofList, Slot.replaceFrom_of_unbraced _ htype] at hgap
    rcases List.infix_cons_iff.1 (hbraces.trans hgap.isInfix) with hstart | hinside
    · exact absurd (List.cons_prefix_cons.1 hstart).1 (by decide)
    · exact htype hinside
  · exact hname (hbraces.trans hgap.isInfix)

theorem gapBefore_of_renderService {index : TypeIndex} (hindex : index.Neat) {f : Descriptor.File}
    {s : Descriptor.Service} (hpackage : OneLine f.package) (hname : OneLine s.name)
    (hmethods : ∀ k ∈ s.methods, OneLine k.name) {text : String}
    (h : renderService index (Service.described f s) = .ok text) :
    EndsLine text.toList ∧ (GapBefore ['\n'] text.toList ↔
      s.methods ≠ [] ∧
        TearsLine (packageLead f.package ++ s.name) (Name.join f.package s.name)) := by
  obtain ⟨client, hclient, rfl⟩ := Outcome.map_eq_ok.1 h
  obtain ⟨methods, hofMethods, hc⟩ := Outcome.bind_eq_ok.1 hclient
  have hall := Outcome.mapM_eq_ok.1 hofMethods
  have hne : methods ≠ [] ↔ s.methods ≠ [] := by
    have hlength : s.methods.length = methods.length := by
      rw [← hall.length_eq, Service.described, List.length_map]
    rw [← List.length_pos_iff, ← List.length_pos_iff, hlength]
  rw [Outcome.pure_eq_ok.1 hc, ← hne]
  refine Client.Neat.gapBefore_render ⟨?_, ?_, ?_⟩
  · exact (oneLine_packageLead hpackage).append hname
  · exact Name.oneLine_join hpackage hname
  · intro m hm
    obtain ⟨_, hdescribed, hofMethod⟩ := Outcome.exists_mem_of_forall₂ hall.flip hm
    obtain ⟨k, hk, rfl⟩ := List.mem_map.1 hdescribed
    exact ClientMethod.neat_of_ofMethod hindex (hmethods k hk) hofMethod

end SwiftRpc.Swift
