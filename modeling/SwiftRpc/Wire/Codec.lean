import SwiftRpc.Descriptor
import SwiftRpc.Wire.Item

/-!
# Requests and responses as bytes

Each descriptor takes up items one by one: a value that comes again replaces the earlier one, a
record that comes again is taken up into the earlier one, and lists grow. The other way round a
descriptor gives one item per value that is set, in the order of tags.
-/

namespace SwiftRpc.Wire

open SwiftRpc.Descriptor

/-- The low 32 bits, as a signed number. -/
def toInt32 (n : UInt64) : Int32 := Int32.ofInt n.toNat

/-- Negative numbers are written with all 64 bits. -/
def ofInt32 (n : Int32) : UInt64 := n.toInt64.toUInt64

def toBool (n : UInt64) : Bool := n ≠ 0

def ofBool (b : Bool) : UInt64 := if b then 1 else 0

def textItem (tag : Nat) (value? : Option String) : List Item := (value?.map (Item.text tag)).toList

def intItem (tag : Nat) (value? : Option Int32) : List Item :=
  (value?.map fun n => Item.number tag (ofInt32 n)).toList

def boolItem (tag : Nat) (value? : Option Bool) : List Item :=
  (value?.map fun b => Item.number tag (ofBool b)).toList

def recordItems {α : Type} (tag : Nat) (items : α → List Item) (records : List α) : List Item :=
  records.map fun r => Item.record tag (items r)

/-! ## Fields, enumerations and services -/

def putField (f : Field) : Item → Field
  | .text 1 s => { f with name? := some s }
  | .number 3 n => { f with number? := some (toInt32 n) }
  | .number 4 n => { f with label? := some (toInt32 n) }
  | .number 5 n => { f with type? := some (toInt32 n) }
  | .text 6 s => { f with typeName? := some s }
  | .number 9 n => { f with oneofIndex? := some (toInt32 n) }
  | .text 10 s => { f with jsonName? := some s }
  | .number 17 n => { f with proto3Optional? := some (toBool n) }
  | _ => f

def takeField (items : List Item) : Field := items.foldl putField {}

def fieldItems (f : Field) : List Item :=
  textItem 1 f.name? ++ intItem 3 f.number? ++ intItem 4 f.label? ++ intItem 5 f.type? ++
    textItem 6 f.typeName? ++ intItem 9 f.oneofIndex? ++ textItem 10 f.jsonName? ++
    boolItem 17 f.proto3Optional?

def putEnumValue (v : EnumValue) : Item → EnumValue
  | .text 1 s => { v with name? := some s }
  | .number 2 n => { v with number? := some (toInt32 n) }
  | _ => v

def takeEnumValue (items : List Item) : EnumValue := items.foldl putEnumValue {}

def enumValueItems (v : EnumValue) : List Item := textItem 1 v.name? ++ intItem 2 v.number?

def putEnum (e : Enum) : Item → Enum
  | .text 1 s => { e with name? := some s }
  | .record 2 items => { e with values := e.values ++ [takeEnumValue items] }
  | _ => e

def takeEnum (items : List Item) : Enum := items.foldl putEnum {}

def enumItems (e : Enum) : List Item :=
  textItem 1 e.name? ++ recordItems 2 enumValueItems e.values

def putMethod (m : Method) : Item → Method
  | .text 1 s => { m with name? := some s }
  | .text 2 s => { m with inputType? := some s }
  | .text 3 s => { m with outputType? := some s }
  | .number 5 n => { m with clientStreaming? := some (toBool n) }
  | .number 6 n => { m with serverStreaming? := some (toBool n) }
  | _ => m

def takeMethod (items : List Item) : Method := items.foldl putMethod {}

def methodItems (m : Method) : List Item :=
  textItem 1 m.name? ++ textItem 2 m.inputType? ++ textItem 3 m.outputType? ++
    boolItem 5 m.clientStreaming? ++ boolItem 6 m.serverStreaming?

def putService (s : Service) : Item → Service
  | .text 1 name => { s with name? := some name }
  | .record 2 items => { s with methods := s.methods ++ [takeMethod items] }
  | _ => s

def takeService (items : List Item) : Service := items.foldl putService {}

def serviceItems (s : Service) : List Item :=
  textItem 1 s.name? ++ recordItems 2 methodItems s.methods

/-! ## Messages -/

def putMessageOptions (o : MessageOptions) : Item → MessageOptions
  | .number 7 n => { o with mapFlag? := some (toBool n) }
  | _ => o

def messageOptionsItems (o : MessageOptions) : List Item := boolItem 7 o.mapFlag?

mutual

def putMessage (m : Message) : Item → Message
  | .text 1 s => { m with name? := some s }
  | .record 2 items => { m with fields := m.fields ++ [takeField items] }
  | .record 3 items => { m with nested := m.nested ++ [putMessageAll {} items] }
  | .record 4 items => { m with enums := m.enums ++ [takeEnum items] }
  | .record 7 items =>
    { m with options? := some (items.foldl putMessageOptions (m.options?.getD {})) }
  | _ => m

def putMessageAll (m : Message) : List Item → Message
  | [] => m
  | item :: rest => putMessageAll (putMessage m item) rest

end

def takeMessage (items : List Item) : Message := putMessageAll {} items

mutual

def messageItems : Message → List Item
  | ⟨name?, fields, nested, enums, options?⟩ =>
    textItem 1 name? ++ recordItems 2 fieldItems fields ++ nestedItems nested ++
      recordItems 4 enumItems enums ++ recordItems 7 messageOptionsItems options?.toList

def nestedItems : List Message → List Item
  | [] => []
  | m :: rest => .record 3 (messageItems m) :: nestedItems rest

end

/-! ## Files and requests -/

def putFile (f : File) : Item → File
  | .text 1 s => { f with name? := some s }
  | .text 2 s => { f with package? := some s }
  | .text 3 s => { f with dependencies := f.dependencies ++ [s] }
  | .record 4 items => { f with messages := f.messages ++ [takeMessage items] }
  | .record 5 items => { f with enums := f.enums ++ [takeEnum items] }
  | .record 6 items => { f with services := f.services ++ [takeService items] }
  | .number 10 n => { f with publicDependencies := f.publicDependencies ++ [toInt32 n] }
  | .number 11 n => { f with weakDependencies := f.weakDependencies ++ [toInt32 n] }
  | .text 12 s => { f with dialect? := some s }
  | _ => f

def takeFile (items : List Item) : File := items.foldl putFile {}

def fileItems (f : File) : List Item :=
  textItem 1 f.name? ++ textItem 2 f.package? ++ f.dependencies.map (Item.text 3) ++
    recordItems 4 messageItems f.messages ++ recordItems 5 enumItems f.enums ++
    recordItems 6 serviceItems f.services ++
    f.publicDependencies.map (fun n => Item.number 10 (ofInt32 n)) ++
    f.weakDependencies.map (fun n => Item.number 11 (ofInt32 n)) ++ textItem 12 f.dialect?

def putVersion (v : Version) : Item → Version
  | .number 1 n => { v with major? := some (toInt32 n) }
  | .number 2 n => { v with minor? := some (toInt32 n) }
  | .number 3 n => { v with patch? := some (toInt32 n) }
  | .text 4 s => { v with suffix? := some s }
  | _ => v

def versionItems (v : Version) : List Item :=
  intItem 1 v.major? ++ intItem 2 v.minor? ++ intItem 3 v.patch? ++ textItem 4 v.suffix?

def putRequest (r : Request) : Item → Request
  | .text 1 s => { r with filesToGenerate := r.filesToGenerate ++ [s] }
  | .text 2 s => { r with parameter? := some s }
  | .record 3 items =>
    { r with compilerVersion? := some (items.foldl putVersion (r.compilerVersion?.getD {})) }
  | .record 15 items => { r with files := r.files ++ [takeFile items] }
  | _ => r

def takeRequest (items : List Item) : Request := items.foldl putRequest {}

def requestItems (r : Request) : List Item :=
  r.filesToGenerate.map (Item.text 1) ++ textItem 2 r.parameter? ++
    recordItems 3 versionItems r.compilerVersion?.toList ++ recordItems 15 fileItems r.files

/-! ## Responses -/

def putOutputFile (f : OutputFile) : Item → OutputFile
  | .text 1 s => { f with name? := some s }
  | .text 2 s => { f with insertionPoint? := some s }
  | .text 15 s => { f with content? := some s }
  | _ => f

def takeOutputFile (items : List Item) : OutputFile := items.foldl putOutputFile {}

def outputFileItems (f : OutputFile) : List Item :=
  textItem 1 f.name? ++ textItem 2 f.insertionPoint? ++ textItem 15 f.content?

def putResponse (r : Response) : Item → Response
  | .text 1 s => { r with error? := some s }
  | .number 2 n => { r with supportedFeatures? := some n }
  | .record 15 items => { r with files := r.files ++ [takeOutputFile items] }
  | _ => r

def takeResponse (items : List Item) : Response := items.foldl putResponse {}

def responseItems (r : Response) : List Item :=
  textItem 1 r.error? ++ (r.supportedFeatures?.map (Item.number 2)).toList ++
    recordItems 15 outputFileItems r.files

/-! ## Bytes -/

/-- How deep records may nest. -/
def nestingLimit : Nat := 100

def decodeRequest (bytes : Bytes) : Option Request :=
  (readItems nestingLimit .request bytes).map takeRequest

def encodeRequest (r : Request) : Bytes := Item.writeAll (requestItems r)

def decodeResponse (bytes : Bytes) : Option Response :=
  (readItems nestingLimit .response bytes).map takeResponse

def encodeResponse (r : Response) : Bytes := Item.writeAll (responseItems r)

end SwiftRpc.Wire
