import SwiftRpc.Api.Basic

/-!
# Swift identifiers and literals

How names of the schema are spelled in Swift. A name that is a reserved word is put between
backticks. Package names lead type names, in words with capitals and with underscores for dots.

Texts stand between quotes. The scalars have Swift types and zero values of their own.
-/

namespace SwiftRpc.Swift

open SwiftRpc.Text

/-! ## Identifiers -/

def reservedWords : List String :=
  ["Any", "Protocol", "Self", "Type", "as", "associatedtype", "break", "case", "catch", "class",
    "continue", "default", "defer", "deinit", "do", "else", "enum", "extension", "fallthrough",
    "false", "fileprivate", "for", "func", "guard", "if", "import", "in", "init", "inout",
    "internal", "is", "let", "nil", "open", "operator", "private", "protocol", "public", "repeat",
    "rethrows", "return", "self", "static", "struct", "subscript", "super", "switch", "throw",
    "throws", "true", "try", "typealias", "var", "where", "while"]

def escape (name : String) : String :=
  if name ∈ reservedWords then "`" ++ name ++ "`" else name

/-- What stands in front of the type names of a package. -/
def packageLead (package : String) : String :=
  if package = "" then ""
  else
    String.ofList
      (List.intercalate ['_'] ((package.toList.splitOn '.').map Name.pascalChars) ++ ['_'])

/-- The Swift type for the type `relativeName` of a package. -/
def typeName (package relativeName : String) : String :=
  packageLead package ++ String.ofList (relativeName.toList.map fun c => if c = '.' then '_' else c)

def propertyName (field : String) : String := escape (Name.lowerCamel field)

/-- The value's name without the enumeration's name in front, if a letter follows there. -/
def bareValueName (enumeration value : String) : String :=
  let lead := Name.upperSnakeChars enumeration.toList ++ ['_']
  if lead.isPrefixOf value.toList then
    match value.toList.drop lead.length with
    | c :: rest => if c.isAlpha then String.ofList (c :: rest) else value
    | [] => value
  else value

/-- The case for a value: `HAT_SIZE_SMALL` of `HatSize` becomes `small`. -/
def caseName (enumeration value : String) : String :=
  escape (Name.lowerCamel (String.ofList (lowerAscii (bareValueName enumeration value).toList)))

/-! ## Literals and scalars -/

/-- A backslash goes in front of backslashes and quotes. -/
def quoteChars : List Char → List Char
  | [] => []
  | c :: rest => if c = '\\' ∨ c = '"' then '\\' :: c :: quoteChars rest else c :: quoteChars rest

def textLiteral (s : String) : String := "\"" ++ String.ofList (quoteChars s.toList) ++ "\""

def scalarType : Api.Scalar → String
  | .double => "Double"
  | .float => "Float"
  | .int64 | .sint64 | .sfixed64 => "Int64"
  | .uint64 | .fixed64 => "UInt64"
  | .int32 | .sint32 | .sfixed32 => "Int32"
  | .uint32 | .fixed32 => "UInt32"
  | .bool => "Bool"
  | .string => "String"
  | .bytes => "Data"

def scalarZero : Api.Scalar → String
  | .bool => "false"
  | .string => "\"\""
  | .bytes => "Data()"
  | _ => "0"

end SwiftRpc.Swift
