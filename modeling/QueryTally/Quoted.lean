import QueryTally.Quoted.Unshown

/-! # Quoted text

A text between double quotes, as a description for fault finding shows it: a quote, a
backslash and a character that cannot be shown are written as escapes. -/

namespace QueryTally.Quoted

def hex (n : Nat) : String := String.ofList (Nat.toDigits 16 n)

def escape (c : Char) : String :=
  match c with
  | '"' => "\\\""
  | '\\' => "\\\\"
  | '\n' => "\\n"
  | '\r' => "\\r"
  | '\t' => "\\t"
  | '\x00' => "\\0"
  | c => if isUnshown c then "\\u\x7b" ++ hex c.toNat ++ "\x7d" else c.toString

def encode (s : String) : String := "\"" ++ String.join (s.toList.map escape) ++ "\""

end QueryTally.Quoted
