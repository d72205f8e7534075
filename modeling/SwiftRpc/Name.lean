import SwiftRpc.Text.Basic
import SwiftRpc.Text.Case

/-!
# Names

Names come as `snake_case` words or as `PascalCase` words. Only the character that starts a word
changes, through its full case mapping, so one character may become several.

A type is named by its package, the messages around it and its own name, with dots between them.
References may carry dots in front, which say nothing.
-/

namespace SwiftRpc.Name

open SwiftRpc.Text

/-! ## Case styles -/

def capitalizeChars : List Char → List Char
  | [] => []
  | c :: rest => upper c ++ rest

def decapitalizeChars : List Char → List Char
  | [] => []
  | c :: rest => lower c ++ rest

/-- Drops underscores; `raise` says that one was dropped right before. -/
def camelFrom : Bool → List Char → List Char
  | _, [] => []
  | raise, c :: rest =>
    if c = '_' then camelFrom true rest
    else (if raise then upper c else [c]) ++ camelFrom false rest

/-- Underscores before the first word raise nothing. -/
def lowerCamelChars (s : List Char) : List Char :=
  camelFrom false (s.dropWhile (· = '_'))

def pascalChars (s : List Char) : List Char :=
  (s.splitOn '_').flatMap capitalizeChars

/-- A capital starts a word, except at the very beginning. -/
def upperSnakeChars : List Char → List Char
  | [] => []
  | c :: rest =>
    upper c ++ rest.flatMap fun d => if isUppercase d then '_' :: upper d else upper d

def capitalize (s : String) : String := String.ofList (capitalizeChars s.toList)

def decapitalize (s : String) : String := String.ofList (decapitalizeChars s.toList)

/-- From `created_at` to `createdAt`. -/
def lowerCamel (s : String) : String := String.ofList (lowerCamelChars s.toList)

/-- From `created_at` to `CreatedAt`; capitals that are there stay. -/
def pascal (s : String) : String := String.ofList (pascalChars s.toList)

/-- From `HatSize` to `HAT_SIZE`. -/
def upperSnake (s : String) : String := String.ofList (upperSnakeChars s.toList)

/-! ## Dotted names -/

/-- The name of `name` inside `scope`; the empty scope adds nothing. -/
def join (scope name : String) : String :=
  if scope = "" then name else scope ++ "." ++ name

/-- As `join`, but the empty name adds nothing either. -/
def extend (scope name : String) : String :=
  if scope = "" then name else if name = "" then scope else scope ++ "." ++ name

/-- A reference without the dots in front of it. -/
def absolute (s : String) : String := String.ofList (s.toList.dropWhile (· = '.'))

/-- The part behind the last dot. -/
def short (s : String) : String := String.ofList (afterLast '.' s.toList)

/-- What follows `head` and a dot, or the whole name if it does not start so. -/
def relativeTo (head name : String) : String :=
  if head = "" then name
  else
    let start := head.toList ++ ['.']
    if start.isPrefixOf name.toList then String.ofList (name.toList.drop start.length) else name

/-- The argument label for a parameter of this type. -/
def argument (typeName : String) : String := decapitalize (short typeName)

end SwiftRpc.Name
