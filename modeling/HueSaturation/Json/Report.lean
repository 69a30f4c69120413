import HueSaturation.Number.Text
import HueSaturation.Text.Letters

/-!
# Writing JSON

* `Report`            what the program writes: floats, flags, texts, lists and records;
* `Report.compact`    its text without blanks;
* `Report.pretty`     its text over several lines, with an indent of two;
* `Report.numberStyle`   how a float is written.
-/

namespace HueSaturation

/-- A value to be written. -/
inductive Report where
  | flag (b : Bool)
  | float (x : Float32)
  | text (s : String)
  | list (elements : List Report)
  | record (fields : List (String × Report))

namespace Report

/-- A character of a string: quotes, backslashes and control characters are escaped. -/
def escape (c : Char) : List Char :=
  if c = '"' then ['\\', '"']
  else if c = '\\' then ['\\', '\\']
  else if c = '\n' then ['\\', 'n']
  else if c = '\r' then ['\\', 'r']
  else if c = '\t' then ['\\', 't']
  else if c = Char.ofNat 8 then ['\\', 'b']
  else if c = Char.ofNat 12 then ['\\', 'f']
  else if c.toNat < 0x20 then
    ['\\', 'u', '0', '0', Nat.digitChar (c.toNat / 16), Nat.digitChar (c.toNat % 16)]
  else [c]

def quoted (s : String) : String :=
  "\"" ++ String.ofList (s.toList.flatMap escape) ++ "\""

/-- How a float is written: whole numbers with `.0`, exponents from `10 ^ 13` on, with a plus, and
below `10 ^ -6`. Of two equally near decimals the even one is taken. What is not finite has no
number. -/
def numberStyle : NumberStyle where
  positional point := -6 < point && point ≤ 13
  exponentMark := "+"
  tie := .toEven
  wholeMark := ".0"
  notANumber := "null"
  infinite := "null"

def floatText (x : Float32) : String :=
  if x.isFinite then numberStyle.render x else "null"

def flagText (b : Bool) : String :=
  if b then "true" else "false"

mutual

def compact : Report → String
  | flag b => flagText b
  | float x => floatText x
  | text s => quoted s
  | list es => "[" ++ joined "," (compactElements es) ++ "]"
  | record fs => "\x7b" ++ joined "," (compactFields fs) ++ "\x7d"

def compactElements : List Report → List String
  | [] => []
  | e :: es => e.compact :: compactElements es

def compactFields : List (String × Report) → List String
  | [] => []
  | (name, e) :: fs => (quoted name ++ ":" ++ e.compact) :: compactFields fs

end

/-- Lines between brackets, each `depth` steps of two blanks in. -/
def bracketed (opening closing : String) (depth : Nat) : List String → String
  | [] => opening ++ closing
  | lines =>
    let blanks n := String.ofList (List.replicate (2 * n) ' ')
    opening ++ "\n" ++ joined ",\n" (lines.map fun l => blanks (depth + 1) ++ l) ++ "\n"
      ++ blanks depth ++ closing

mutual

/-- The text of a value over several lines, `depth` steps in. -/
def prettyAt (depth : Nat) : Report → String
  | flag b => flagText b
  | float x => floatText x
  | text s => quoted s
  | list es => bracketed "[" "]" depth (prettyElements depth es)
  | record fs => bracketed "\x7b" "\x7d" depth (prettyFields depth fs)

def prettyElements (depth : Nat) : List Report → List String
  | [] => []
  | e :: es => e.prettyAt (depth + 1) :: prettyElements depth es

def prettyFields (depth : Nat) : List (String × Report) → List String
  | [] => []
  | (name, e) :: fs => (quoted name ++ ": " ++ e.prettyAt (depth + 1)) :: prettyFields depth fs

end

def pretty (r : Report) : String :=
  r.prettyAt 0

end Report
end HueSaturation
