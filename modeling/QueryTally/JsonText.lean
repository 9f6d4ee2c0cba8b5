/-! # JSON text on several lines

A value is a block of lines. A list or an object that is not empty opens on the first
line and closes on the last, with its items between them, each two blanks further in
and all but the last followed by a comma. -/

namespace QueryTally.JsonText

/-- The lines of a value. -/
abbrev Block := List String

def hex4 (c : Char) : String :=
  let digits := Nat.toDigits 16 c.toNat
  String.ofList (List.replicate (4 - digits.length) '0' ++ digits)

def escape (c : Char) : String :=
  match c with
  | '"' => "\\\""
  | '\\' => "\\\\"
  | '\x08' => "\\b"
  | '\x0c' => "\\f"
  | '\n' => "\\n"
  | '\r' => "\\r"
  | '\t' => "\\t"
  | c => if c.toNat < 32 then "\\u" ++ hex4 c else c.toString

def quote (s : String) : String := "\"" ++ String.join (s.toList.map escape) ++ "\""

def indent (b : Block) : Block := b.map ("  " ++ ·)

def comma : Block → Block
  | [] => []
  | [line] => [line ++ ","]
  | line :: rest => line :: comma rest

/-- Blocks one after the other, with commas between them. -/
def separated : List Block → Block
  | [] => []
  | [b] => b
  | b :: rest => comma b ++ separated rest

def list (items : List Block) : Block :=
  if items.isEmpty then ["[]"] else "[" :: indent (separated items) ++ ["]"]

def entry (name : String) : Block → Block
  | [] => []
  | line :: rest => (quote name ++ ": " ++ line) :: rest

def object (entries : List (String × Block)) : Block :=
  if entries.isEmpty then ["\x7b\x7d"]
  else "\x7b" :: indent (separated (entries.map fun (name, b) => entry name b)) ++ ["\x7d"]

end QueryTally.JsonText
