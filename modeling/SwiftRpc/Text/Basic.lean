/-!
# Cutting, trimming and tidying text

`cutAt?` cuts at the first separator, and `throughLast` and `afterLast` are the two sides of the
last one. `replaceAll` reads from the left and goes on behind each replacement, so inserted text is
not looked at again.

Blank is the property `White_Space`. The zero width space and the byte order mark are not blank.

Tidy text has no blanks at the end of a line and no blank lines at its end, and a text that is not
empty ends in exactly one line feed.
-/

namespace SwiftRpc.Text

/-! ## Cutting and replacing -/

/-- The text before and after the first separator. -/
def cutAt? (sep : Char) : List Char → Option (List Char × List Char)
  | [] => none
  | c :: rest =>
    if c = sep then some ([], rest)
    else (cutAt? sep rest).map fun cut => (c :: cut.1, cut.2)

/-- The part behind the last separator. -/
def afterLast (sep : Char) (s : List Char) : List Char :=
  (s.reverse.takeWhile (· ≠ sep)).reverse

/-- The part up to and including the last separator, empty if there is none. -/
def throughLast (sep : Char) (s : List Char) : List Char :=
  (s.reverse.dropWhile (· ≠ sep)).reverse

theorem throughLast_append_afterLast (sep : Char) (s : List Char) :
    throughLast sep s ++ afterLast sep s = s := by
  rw [throughLast, afterLast, ← List.reverse_append, List.takeWhile_append_dropWhile,
    List.reverse_reverse]

/-- Leaves out `skip` characters, then replaces every occurrence of `old`. -/
def replaceFrom (old new : List Char) : Nat → List Char → List Char
  | _, [] => []
  | skip + 1, _ :: rest => replaceFrom old new skip rest
  | 0, c :: rest =>
    if old.isPrefixOf (c :: rest) then new ++ replaceFrom old new (old.length - 1) rest
    else c :: replaceFrom old new 0 rest

def replaceAll (old new : String) (s : String) : String :=
  String.ofList (replaceFrom old.toList new.toList 0 s.toList)

/-! ## Trimming -/

def isBlank (c : Char) : Bool :=
  let n := c.toNat
  (decide (0x9 ≤ n) && decide (n ≤ 0xD)) || n == 0x20 || n == 0x85 || n == 0xA0 || n == 0x1680 ||
    (decide (0x2000 ≤ n) && decide (n ≤ 0x200A)) || n == 0x2028 || n == 0x2029 || n == 0x202F ||
    n == 0x205F || n == 0x3000

/-- Removes the longest tail whose characters all satisfy `p`. -/
def dropEndWhile (p : Char → Bool) (s : List Char) : List Char :=
  (s.reverse.dropWhile p).reverse

def trimEnd (s : List Char) : List Char := dropEndWhile isBlank s

def trim (s : List Char) : List Char := trimEnd (s.dropWhile isBlank)

/-! ## Tidying -/

def dropReturn (line : List Char) : List Char :=
  if line.getLast? = some '\r' then line.dropLast else line

/-- A line ends at a line feed, or at a carriage return and a line feed. What follows the last line
feed is a line only if it is not empty. -/
def lines (s : List Char) : List (List Char) :=
  let cut := s.splitOn '\n'
  let rest := cut.getLast?.getD []
  cut.dropLast.map dropReturn ++ if rest = [] then [] else [rest]

/-- The trimmed lines without the empty ones at the end. -/
def tidyLines (s : List Char) : List (List Char) :=
  (((lines s).map trimEnd).reverse.dropWhile (· = [])).reverse

def tidy (s : String) : String :=
  String.ofList ((tidyLines s.toList).flatMap (· ++ ['\n']))

end SwiftRpc.Text
