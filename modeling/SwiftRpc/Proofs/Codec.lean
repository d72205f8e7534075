import Mathlib.Data.List.Basic
import SwiftRpc.Plugin.Run
import SwiftRpc.Proofs.Outcome
import SwiftRpc.Proofs.Wire

/-!
# Requests and responses as bytes

Every descriptor gives items that its kind of record has, and taking these items up gives the
descriptor back: values that are set come back set, be they empty or zero, the others stay unset,
and lists keep their order.
-/

namespace SwiftRpc.Wire

open SwiftRpc.Descriptor

/-! ## Values -/

theorem toInt32_ofInt32 (n : Int32) : toInt32 (ofInt32 n) = n := by
  apply Int32.toBitVec_inj.1
  have hback := congrArg Int32.toBitVec (Int32.toInt32_toInt64 n)
  rw [Int64.toBitVec_toInt32, BitVec.signExtend_eq_setWidth_of_le _ (by decide)] at hback
  rw [← hback]
  show BitVec.ofInt 32 (n.toInt64.toBitVec.toNat : Int) = _
  rw [BitVec.ofInt_natCast, BitVec.ofNat_toNat]

theorem toBool_ofBool (b : Bool) : toBool (ofBool b) = b := by
  cases b <;> rfl

/-! ## Taking up what was given

The state of a descriptor that is being taken up is told as a function of the one member at which
the next items are aimed. -/

section Fold

variable {σ α : Type} (put : σ → Item → σ) {tag : Nat}

theorem foldl_optional {item : α → Item} (state : Option α → σ)
    (h : ∀ a, put (state none) (item a) = state (some a)) (value? : Option α) :
    ((value?.map item).toList).foldl put (state none) = state value? := by
  cases value? with
  | none => rfl
  | some a => exact h a

theorem foldl_textItem (state : Option String → σ)
    (h : ∀ s, put (state none) (.text tag s) = state (some s)) (value? : Option String) :
    (textItem tag value?).foldl put (state none) = state value? :=
  foldl_optional put state h value?

theorem foldl_intItem (state : Option Int32 → σ)
    (h : ∀ n, put (state none) (.number tag n) = state (some (toInt32 n)))
    (value? : Option Int32) : (intItem tag value?).foldl put (state none) = state value? :=
  foldl_optional put state (fun n => by rw [h, toInt32_ofInt32]) value?

theorem foldl_boolItem (state : Option Bool → σ)
    (h : ∀ n, put (state none) (.number tag n) = state (some (toBool n)))
    (value? : Option Bool) : (boolItem tag value?).foldl put (state none) = state value? :=
  foldl_optional put state (fun b => by rw [h, toBool_ofBool]) value?

theorem foldl_list {item : α → Item} (state : List α → σ) (l : List α)
    (h : ∀ a ∈ l, ∀ before, put (state before) (item a) = state (before ++ [a]))
    (before : List α) : (l.map item).foldl put (state before) = state (before ++ l) := by
  induction l generalizing before with
  | nil => rw [List.append_nil]; rfl
  | cons a rest ih =>
    obtain ⟨ha, hrest⟩ := List.forall_mem_cons.1 h
    rw [List.map_cons, List.foldl_cons, ha, ih hrest, List.append_assoc, List.singleton_append]

theorem foldl_recordItems {items : α → List Item} {take : List Item → α} (state : List α → σ)
    (h : ∀ before given, put (state before) (.record tag given) = state (before ++ [take given]))
    (hback : ∀ a, take (items a) = a) (l : List α) :
    (recordItems tag items l).foldl put (state []) = state l :=
  foldl_list put state l (fun a _ before => by rw [h, hback]) []

/-- A record that may be there once. -/
theorem foldl_optionalRecord {items : α → List Item} (state : Option α → σ)
    (h : ∀ a, put (state none) (.record tag (items a)) = state (some a)) (value? : Option α) :
    (recordItems tag items value?.toList).foldl put (state none) = state value? := by
  cases value? with
  | none => rfl
  | some a => exact h a

end Fold

/-! ## Fields, enumerations and services -/

theorem takeField_fieldItems (f : Descriptor.Field) : takeField (fieldItems f) = f := by
  obtain ⟨name?, number?, label?, type?, typeName?, oneofIndex?, jsonName?, proto3Optional?⟩ := f
  simp only [takeField, fieldItems, List.foldl_append]
  rw [foldl_textItem putField (fun v => { name? := v }) (fun _ => rfl),
    foldl_intItem putField (fun v => { name?, number? := v }) (fun _ => rfl),
    foldl_intItem putField (fun v => { name?, number?, label? := v }) (fun _ => rfl),
    foldl_intItem putField (fun v => { name?, number?, label?, type? := v }) (fun _ => rfl),
    foldl_textItem putField (fun v => { name?, number?, label?, type?, typeName? := v })
      (fun _ => rfl),
    foldl_intItem putField (fun v => { name?, number?, label?, type?, typeName?, oneofIndex? := v })
      (fun _ => rfl),
    foldl_textItem putField
      (fun v => { name?, number?, label?, type?, typeName?, oneofIndex?, jsonName? := v })
      (fun _ => rfl),
    foldl_boolItem putField
      (Descriptor.Field.mk name? number? label? type? typeName? oneofIndex? jsonName?)
      (fun _ => rfl)]

theorem takeEnumValue_enumValueItems (v : EnumValue) : takeEnumValue (enumValueItems v) = v := by
  obtain ⟨name?, number?⟩ := v
  simp only [takeEnumValue, enumValueItems, List.foldl_append]
  rw [foldl_textItem putEnumValue (fun v => { name? := v }) (fun _ => rfl),
    foldl_intItem putEnumValue (EnumValue.mk name?) (fun _ => rfl)]

theorem takeEnum_enumItems (e : Enum) : takeEnum (enumItems e) = e := by
  obtain ⟨name?, values⟩ := e
  simp only [takeEnum, enumItems, List.foldl_append]
  rw [foldl_textItem putEnum (fun v => { name? := v }) (fun _ => rfl),
    foldl_recordItems putEnum (Enum.mk name?) (fun _ _ => rfl) takeEnumValue_enumValueItems]

theorem takeMethod_methodItems (m : Method) : takeMethod (methodItems m) = m := by
  obtain ⟨name?, inputType?, outputType?, clientStreaming?, serverStreaming?⟩ := m
  simp only [takeMethod, methodItems, List.foldl_append]
  rw [foldl_textItem putMethod (fun v => { name? := v }) (fun _ => rfl),
    foldl_textItem putMethod (fun v => { name?, inputType? := v }) (fun _ => rfl),
    foldl_textItem putMethod (fun v => { name?, inputType?, outputType? := v }) (fun _ => rfl),
    foldl_boolItem putMethod (fun v => { name?, inputType?, outputType?, clientStreaming? := v })
      (fun _ => rfl),
    foldl_boolItem putMethod (Method.mk name? inputType? outputType? clientStreaming?)
      (fun _ => rfl)]

theorem takeService_serviceItems (s : Service) : takeService (serviceItems s) = s := by
  obtain ⟨name?, methods⟩ := s
  simp only [takeService, serviceItems, List.foldl_append]
  rw [foldl_textItem putService (fun v => { name? := v }) (fun _ => rfl),
    foldl_recordItems putService (Service.mk name?) (fun _ _ => rfl) takeMethod_methodItems]

/-! ## Messages -/

theorem foldl_putMessageOptions (o : MessageOptions) :
    (messageOptionsItems o).foldl putMessageOptions {} = o := by
  obtain ⟨mapFlag?⟩ := o
  exact foldl_boolItem putMessageOptions MessageOptions.mk (fun _ => rfl) mapFlag?

theorem putMessageAll_eq_foldl (m : Message) (l : List Item) :
    putMessageAll m l = l.foldl putMessage m := by
  induction l generalizing m with
  | nil => rfl
  | cons item rest ih => rw [putMessageAll, List.foldl_cons, ih]

mutual

theorem takeMessage_messageItems : ∀ m : Message, takeMessage (messageItems m) = m
  | ⟨name?, fields, nested, enums, options?⟩ => by
    simp only [takeMessage, messageItems, putMessageAll_eq_foldl, List.foldl_append]
    rw [foldl_textItem putMessage (fun v => { name? := v }) (fun _ => rfl),
      foldl_recordItems putMessage (fun v => { name?, fields := v }) (fun _ _ => rfl)
        takeField_fieldItems,
      foldl_nestedItems name? fields [] nested, List.nil_append,
      foldl_recordItems putMessage (fun v => { name?, fields, nested, enums := v })
        (fun _ _ => rfl) takeEnum_enumItems,
      foldl_optionalRecord putMessage (Message.mk name? fields nested enums)]
    intro o
    show Message.mk _ _ _ _ (some ((messageOptionsItems o).foldl putMessageOptions {})) = _
    rw [foldl_putMessageOptions]

/-- Nested messages come after the fields and before everything else. -/
theorem foldl_nestedItems (name? : Option String) (fields : List Descriptor.Field)
    (before : List Message) :
    ∀ nested : List Message,
      (nestedItems nested).foldl putMessage { name?, fields, nested := before } =
        { name?, fields, nested := before ++ nested }
  | [] => by rw [nestedItems, List.append_nil]; rfl
  | m :: rest => by
    rw [nestedItems, List.foldl_cons, putMessage, ← takeMessage, takeMessage_messageItems m,
      foldl_nestedItems name? fields (before ++ [m]) rest, List.append_assoc,
      List.singleton_append]

end

/-! ## Files and requests -/

theorem foldl_putVersion (v : Version) : (versionItems v).foldl putVersion {} = v := by
  obtain ⟨major?, minor?, patch?, suffix?⟩ := v
  simp only [versionItems, List.foldl_append]
  rw [foldl_intItem putVersion (fun v => { major? := v }) (fun _ => rfl),
    foldl_intItem putVersion (fun v => { major?, minor? := v }) (fun _ => rfl),
    foldl_intItem putVersion (fun v => { major?, minor?, patch? := v }) (fun _ => rfl),
    foldl_textItem putVersion (Version.mk major? minor? patch?) (fun _ => rfl)]

theorem takeFile_fileItems (f : File) : takeFile (fileItems f) = f := by
  obtain ⟨name?, package?, dependencies, messages, enums, services, publicDependencies,
    weakDependencies, dialect?⟩ := f
  simp only [takeFile, fileItems, List.foldl_append]
  rw [foldl_textItem putFile (fun v => { name? := v }) (fun _ => rfl),
    foldl_textItem putFile (fun v => { name?, package? := v }) (fun _ => rfl),
    foldl_list putFile (fun v => { name?, package?, dependencies := v }) dependencies
      (fun _ _ _ => rfl) [],
    List.nil_append,
    foldl_recordItems putFile (fun v => { name?, package?, dependencies, messages := v })
      (fun _ _ => rfl) takeMessage_messageItems,
    foldl_recordItems putFile (fun v => { name?, package?, dependencies, messages, enums := v })
      (fun _ _ => rfl) takeEnum_enumItems,
    foldl_recordItems putFile
      (fun v => { name?, package?, dependencies, messages, enums, services := v })
      (fun _ _ => rfl) takeService_serviceItems,
    foldl_list putFile
      (fun v => { name?, package?, dependencies, messages, enums, services,
                  publicDependencies := v })
      publicDependencies (fun n _ _ => by rw [putFile, toInt32_ofInt32]) [],
    List.nil_append,
    foldl_list putFile
      (fun v => { name?, package?, dependencies, messages, enums, services, publicDependencies,
                  weakDependencies := v })
      weakDependencies (fun n _ _ => by rw [putFile, toInt32_ofInt32]) [],
    List.nil_append,
    foldl_textItem putFile
      (File.mk name? package? dependencies messages enums services publicDependencies
        weakDependencies)
      (fun _ => rfl)]

theorem takeRequest_requestItems (r : Request) : takeRequest (requestItems r) = r := by
  obtain ⟨filesToGenerate, parameter?, compilerVersion?, files⟩ := r
  simp only [takeRequest, requestItems, List.foldl_append]
  rw [foldl_list putRequest (fun v => { filesToGenerate := v }) filesToGenerate
      (fun _ _ _ => rfl) [],
    List.nil_append,
    foldl_textItem putRequest (fun v => { filesToGenerate, parameter? := v }) (fun _ => rfl),
    foldl_optionalRecord putRequest
      (fun v => { filesToGenerate, parameter?, compilerVersion? := v }),
    foldl_recordItems putRequest (Request.mk filesToGenerate parameter? compilerVersion?)
      (fun _ _ => rfl) takeFile_fileItems]
  intro v
  show Request.mk _ _ (some ((versionItems v).foldl putVersion {})) _ = _
  rw [foldl_putVersion]

/-! ## Responses -/

theorem takeOutputFile_outputFileItems (f : OutputFile) :
    takeOutputFile (outputFileItems f) = f := by
  obtain ⟨name?, insertionPoint?, content?⟩ := f
  simp only [takeOutputFile, outputFileItems, List.foldl_append]
  rw [foldl_textItem putOutputFile (fun v => { name? := v }) (fun _ => rfl),
    foldl_textItem putOutputFile (fun v => { name?, insertionPoint? := v }) (fun _ => rfl),
    foldl_textItem putOutputFile (OutputFile.mk name? insertionPoint?) (fun _ => rfl)]

theorem takeResponse_responseItems (r : Response) : takeResponse (responseItems r) = r := by
  obtain ⟨error?, supportedFeatures?, files⟩ := r
  simp only [takeResponse, responseItems, List.foldl_append]
  rw [foldl_textItem putResponse (fun v => { error? := v }) (fun _ => rfl),
    foldl_optional putResponse (fun v => { error?, supportedFeatures? := v }) (fun _ => rfl),
    foldl_recordItems putResponse (Response.mk error? supportedFeatures?) (fun _ _ => rfl)
      takeOutputFile_outputFileItems]

/-! ## The items of a descriptor are those of its kind -/

section Conform

variable {k : Kind} {tag : Nat} {α : Type}

theorem AllConform.append {l l' : List Item} (h : AllConform k l) (h' : AllConform k l') :
    AllConform k (l ++ l') :=
  List.forall_mem_append.2 ⟨h, h'⟩

theorem allConform_map {item : α → Item} (h : ∀ a, (item a).Conforms k) (l : List α) :
    AllConform k (l.map item) := by
  intro i hi
  obtain ⟨a, -, rfl⟩ := List.mem_map.1 hi
  exact h a

theorem allConform_optional {item : α → Item} (h : ∀ a, (item a).Conforms k)
    (value? : Option α) : AllConform k (value?.map item).toList := by
  rw [Option.toList_map]
  exact allConform_map h value?.toList

theorem allConform_textItem (h : k.field? tag = some .text) (value? : Option String) :
    AllConform k (textItem tag value?) :=
  allConform_optional (fun _ => .text h) value?

theorem allConform_intItem (h : k.field? tag = some .number) (value? : Option Int32) :
    AllConform k (intItem tag value?) :=
  allConform_optional (fun _ => .number (Or.inl h)) value?

theorem allConform_boolItem (h : k.field? tag = some .number) (value? : Option Bool) :
    AllConform k (boolItem tag value?) :=
  allConform_optional (fun _ => .number (Or.inl h)) value?

theorem allConform_recordItems {k' : Kind} {items : α → List Item}
    (h : k.field? tag = some (.record k')) (hitems : ∀ a, AllConform k' (items a))
    (l : List α) : AllConform k (recordItems tag items l) :=
  allConform_map (fun a => .record h (hitems a)) l

end Conform

theorem allConform_fieldItems (f : Descriptor.Field) : AllConform .field (fieldItems f) :=
  (allConform_textItem rfl _).append (allConform_intItem rfl _)
    |>.append (allConform_intItem rfl _) |>.append (allConform_intItem rfl _)
    |>.append (allConform_textItem rfl _) |>.append (allConform_intItem rfl _)
    |>.append (allConform_textItem rfl _) |>.append (allConform_boolItem rfl _)

theorem allConform_enumValueItems (v : EnumValue) : AllConform .enumValue (enumValueItems v) :=
  (allConform_textItem rfl _).append (allConform_intItem rfl _)

theorem allConform_enumItems (e : Enum) : AllConform .enum (enumItems e) :=
  (allConform_textItem rfl _).append (allConform_recordItems rfl allConform_enumValueItems _)

theorem allConform_methodItems (m : Method) : AllConform .method (methodItems m) :=
  (allConform_textItem rfl _).append (allConform_textItem rfl _)
    |>.append (allConform_textItem rfl _) |>.append (allConform_boolItem rfl _)
    |>.append (allConform_boolItem rfl _)

theorem allConform_serviceItems (s : Service) : AllConform .service (serviceItems s) :=
  (allConform_textItem rfl _).append (allConform_recordItems rfl allConform_methodItems _)

theorem allConform_messageOptionsItems (o : MessageOptions) :
    AllConform .messageOptions (messageOptionsItems o) :=
  allConform_boolItem rfl _

mutual

theorem allConform_messageItems : ∀ m : Message, AllConform .message (messageItems m)
  | ⟨_, _, nested, _, _⟩ =>
    (allConform_textItem rfl _).append (allConform_recordItems rfl allConform_fieldItems _)
      |>.append (allConform_nestedItems nested)
      |>.append (allConform_recordItems rfl allConform_enumItems _)
      |>.append (allConform_recordItems rfl allConform_messageOptionsItems _)

theorem allConform_nestedItems : ∀ l : List Message, AllConform .message (nestedItems l)
  | [] => List.forall_mem_nil _
  | m :: rest =>
    List.forall_mem_cons.2 ⟨.record rfl (allConform_messageItems m), allConform_nestedItems rest⟩

end

theorem allConform_fileItems (f : File) : AllConform .file (fileItems f) :=
  (allConform_textItem rfl _).append (allConform_textItem rfl _)
    |>.append (allConform_map (fun _ => .text rfl) _)
    |>.append (allConform_recordItems rfl allConform_messageItems _)
    |>.append (allConform_recordItems rfl allConform_enumItems _)
    |>.append (allConform_recordItems rfl allConform_serviceItems _)
    |>.append (allConform_map (fun _ => .number (Or.inr rfl)) _)
    |>.append (allConform_map (fun _ => .number (Or.inr rfl)) _)
    |>.append (allConform_textItem rfl _)

theorem allConform_versionItems (v : Version) : AllConform .version (versionItems v) :=
  (allConform_intItem rfl _).append (allConform_intItem rfl _)
    |>.append (allConform_intItem rfl _) |>.append (allConform_textItem rfl _)

theorem allConform_requestItems (r : Request) : AllConform .request (requestItems r) :=
  (allConform_map (fun _ => .text rfl) _).append (allConform_textItem rfl _)
    |>.append (allConform_recordItems rfl allConform_versionItems _)
    |>.append (allConform_recordItems rfl allConform_fileItems _)

theorem allConform_outputFileItems (f : OutputFile) :
    AllConform .outputFile (outputFileItems f) :=
  (allConform_textItem rfl _).append (allConform_textItem rfl _)
    |>.append (allConform_textItem rfl _)

theorem allConform_responseItems (r : Response) : AllConform .response (responseItems r) :=
  (allConform_textItem rfl _).append (allConform_optional (fun _ => .number (Or.inl rfl)) _)
    |>.append (allConform_recordItems rfl allConform_outputFileItems _)

/-! ## Bytes -/

/-- A request is read back from its bytes exactly if its records nest no deeper than the limit. -/
theorem decodeRequest_encodeRequest {r : Request} (h : Fits (encodeRequest r)) :
    decodeRequest (encodeRequest r) =
      if Item.depthAll (requestItems r) ≤ nestingLimit then some r else none := by
  rw [decodeRequest, encodeRequest, Item.readItems_writeAll (allConform_requestItems r) h]
  split
  · rw [Option.map_some, takeRequest_requestItems]
  · rfl

/-- A list of numbers is not packed, and a negative one takes all of its 64 bits. -/
example :
    encodeRequest { parameter? := some "", files := [{ publicDependencies := [3, -1] }] } =
      [0x12, 0, 0x7a, 13, 0x50, 3, 0x50, 255, 255, 255, 255, 255, 255, 255, 255, 255, 1] := by
  decide +kernel

theorem depthAll_textItem (tag : Nat) (value? : Option String) :
    Item.depthAll (textItem tag value?) = 0 := by
  cases value? <;> rfl

/-- The files of a response are the only records in it. -/
theorem depthAll_responseItems (r : Response) : Item.depthAll (responseItems r) ≤ 1 := by
  have hfile : ∀ f : OutputFile, Item.depthAll (outputFileItems f) = 0 := by
    intro f
    simp only [outputFileItems, Item.depthAll_append, depthAll_textItem, Nat.max_self]
  have hfeatures : Item.depthAll (r.supportedFeatures?.map (Item.number 2)).toList = 0 := by
    cases r.supportedFeatures? <;> rfl
  have hfiles : Item.depthAll (recordItems 15 outputFileItems r.files) ≤ 1 := by
    rw [Item.depthAll_le_iff]
    intro item hitem
    obtain ⟨f, -, rfl⟩ := List.mem_map.1 hitem
    simp [Item.depth, hfile]
  simp only [responseItems, Item.depthAll_append, depthAll_textItem, hfeatures]
  omega

theorem decodeResponse_encodeResponse {r : Response} (h : Fits (encodeResponse r)) :
    decodeResponse (encodeResponse r) = some r := by
  have hdepth : Item.depthAll (responseItems r) ≤ nestingLimit :=
    Nat.le_trans (depthAll_responseItems r) (by decide)
  rw [decodeResponse, encodeResponse, Item.readItems_writeAll (allConform_responseItems r) h,
    if_pos hdepth, Option.map_some, takeResponse_responseItems]

end SwiftRpc.Wire

namespace SwiftRpc.Plugin

open SwiftRpc.Descriptor
open SwiftRpc.Wire

theorem runBytes_of_decodeRequest {bytes : Bytes} {r : Request}
    (h : decodeRequest bytes = some r) : runBytes bytes = (run r).map encodeResponse := by
  rw [runBytes, h]

/-- **Bytes in, bytes out.** A request that does not nest too deep is read back from its bytes, so
the plugin answers its bytes as it answers the request: with the same error, or with bytes from
which the same response is read back. Lengths have to fit into the 64 bits that the format has for
them. -/
theorem runBytes_refines (r : Request) (hfits : Fits (encodeRequest r))
    (hdepth : Item.depthAll (requestItems r) ≤ nestingLimit) :
    decodeRequest (encodeRequest r) = some r ∧
    ((∃ bytes, runBytes (encodeRequest r) = .ok bytes) ↔ ∃ response, run r = .ok response) ∧
    (∀ e, runBytes (encodeRequest r) = .error e ↔ run r = .error e) ∧
    (∀ bytes, runBytes (encodeRequest r) = .ok bytes → Fits bytes →
      ∃ response, run r = .ok response ∧ decodeResponse bytes = some response) := by
  have hdecode : decodeRequest (encodeRequest r) = some r := by
    rw [decodeRequest_encodeRequest hfits, if_pos hdepth]
  rw [runBytes_of_decodeRequest hdecode]
  refine ⟨hdecode, Outcome.exists_map_eq_ok, fun e => Outcome.map_eq_error, ?_⟩
  intro bytes hbytes hsize
  obtain ⟨response, hrun, rfl⟩ := Outcome.map_eq_ok.1 hbytes
  exact ⟨response, hrun, decodeResponse_encodeResponse hsize⟩

/-- A request with a parameter that is set but empty, a nested message, a negative number and a
method that cannot be rendered: its error comes back out of the bytes. -/
theorem runBytes_refines_nested :
    let file : File :=
      { name? := some "a.proto"
        package? := some "a"
        messages :=
          [{ name? := some "Outer", nested := [{ name? := some "Inner" }], options? := some {} }]
        enums := [{ name? := some "Tone", values := [{ number? := some (-2) }] }]
        services :=
          [{ name? := some "Desk"
             methods := [{ name? := some "Talk", serverStreaming? := some true }] }] }
    let r : Request := { filesToGenerate := ["a.proto"], parameter? := some "", files := [file] }
    decodeRequest (encodeRequest r) = some r ∧
      ∃ bytes response, runBytes (encodeRequest r) = .ok bytes ∧ run r = .ok response ∧
        decodeResponse bytes = some response := by
  intro file r
  have hfits : Fits (encodeRequest r) := by decide +kernel
  have hdepth : Item.depthAll (requestItems r) ≤ nestingLimit := by decide +kernel
  obtain ⟨hdecode, -, -, hresponse⟩ := runBytes_refines r hfits hdepth
  have hok : (runBytes (encodeRequest r)).toOption.isSome = true := by decide +kernel
  have hsize : (runBytes (encodeRequest r)).toOption.all (Fits ·) = true := by
    decide +kernel
  obtain ⟨bytes, hbytes⟩ := Outcome.exists_eq_ok_iff.2 hok
  rw [hbytes] at hsize
  obtain ⟨response, hrun, hback⟩ := hresponse bytes hbytes (of_decide_eq_true hsize)
  exact ⟨hdecode, bytes, response, hbytes, hrun, hback⟩

end SwiftRpc.Plugin
