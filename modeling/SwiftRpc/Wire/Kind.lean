/-!
# Kinds of records

Which fields the records of a request and of a response have, by tag. Everything listed here is
checked when bytes are read, also the fields that are of no further use; any other tag is passed
over.
-/

namespace SwiftRpc.Wire

inductive Kind where
  | request | version | file | message | extensionRange | range | field | oneof | enum | enumValue
  | service | method | fileOptions | messageOptions | fieldOptions | enumOptions
  | enumValueOptions | serviceOptions | methodOptions | plainOptions | uninterpreted | namePart
  | sourceInfo | location | response | outputFile
deriving DecidableEq

/-- The type `numbers` is a list of numbers, which may also be written packed into one value. -/
inductive FieldType where
  | number
  | numbers
  | double
  | text
  | bytes
  | record (k : Kind)
deriving DecidableEq

namespace Kind

open FieldType

def fields : Kind → List (Nat × FieldType)
  | .request => [(1, text), (2, text), (3, record .version), (15, record .file)]
  | .version => [(1, number), (2, number), (3, number), (4, text)]
  | .file =>
    [(1, text), (2, text), (3, text), (4, record .message), (5, record .enum),
      (6, record .service), (7, record .field), (8, record .fileOptions),
      (9, record .sourceInfo), (10, numbers), (11, numbers), (12, text)]
  | .message =>
    [(1, text), (2, record .field), (3, record .message), (4, record .enum),
      (5, record .extensionRange), (6, record .field), (7, record .messageOptions),
      (8, record .oneof), (9, record .range), (10, text)]
  | .extensionRange => [(1, number), (2, number), (3, record .plainOptions)]
  | .range => [(1, number), (2, number)]
  | .field =>
    [(1, text), (2, text), (3, number), (4, number), (5, number), (6, text), (7, text),
      (8, record .fieldOptions), (9, number), (10, text), (17, number)]
  | .oneof => [(1, text), (2, record .plainOptions)]
  | .enum =>
    [(1, text), (2, record .enumValue), (3, record .enumOptions), (4, record .range), (5, text)]
  | .enumValue => [(1, text), (2, number), (3, record .enumValueOptions)]
  | .service => [(1, text), (2, record .method), (3, record .serviceOptions)]
  | .method =>
    [(1, text), (2, text), (3, text), (4, record .methodOptions), (5, number), (6, number)]
  | .fileOptions =>
    [(1, text), (8, text), (9, number), (10, number), (11, text), (16, number), (17, number),
      (18, number), (20, number), (23, number), (27, number), (31, number), (36, text), (37, text),
      (39, text), (40, text), (41, text), (42, number), (44, text), (45, text),
      (999, record .uninterpreted)]
  | .messageOptions =>
    [(1, number), (2, number), (3, number), (7, number), (999, record .uninterpreted)]
  | .fieldOptions =>
    [(1, number), (2, number), (3, number), (5, number), (6, number), (10, number),
      (999, record .uninterpreted)]
  | .enumOptions => [(2, number), (3, number), (999, record .uninterpreted)]
  | .enumValueOptions => [(1, number), (999, record .uninterpreted)]
  | .serviceOptions => [(33, number), (999, record .uninterpreted)]
  | .methodOptions => [(33, number), (34, number), (999, record .uninterpreted)]
  | .plainOptions => [(999, record .uninterpreted)]
  | .uninterpreted =>
    [(2, record .namePart), (3, text), (4, number), (5, number), (6, double), (7, bytes),
      (8, text)]
  | .namePart => [(1, text), (2, number)]
  | .sourceInfo => [(1, record .location)]
  | .location => [(1, numbers), (2, numbers), (3, text), (4, text), (6, text)]
  | .response => [(1, text), (2, number), (15, record .outputFile)]
  | .outputFile => [(1, text), (2, text), (15, text)]

def field? (k : Kind) (tag : Nat) : Option FieldType := k.fields.lookup tag

end Kind

end SwiftRpc.Wire
