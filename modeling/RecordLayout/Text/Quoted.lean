import RecordLayout.Text.Unprintable

/-!
# Quoted text

How a message shows a piece of input: between double quotes, with everything that would not be
seen, or would be mistaken for the closing quote, written as an escape.
-/

namespace RecordLayout.Text

def hexDigits (n : Nat) : String := String.ofList (Nat.toDigits 16 n)

/-- The written form of one character inside quotes. -/
def quoteChar (c : Char) : String :=
  if c = '\x00' then "\\0"
  else if c = '\t' then "\\t"
  else if c = '\r' then "\\r"
  else if c = '\n' then "\\n"
  else if c = '"' then "\\\""
  else if c = '\\' then "\\\\"
  else if isUnprintable c then "\\u\x7b" ++ hexDigits c.toNat ++ "\x7d"
  else String.singleton c

def quote (s : String) : String :=
  "\"" ++ String.join (s.toList.map quoteChar) ++ "\""

end RecordLayout.Text
