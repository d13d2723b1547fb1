/-!
# Field names in record code

A name that is a keyword of the generated language is written raw; one that cannot be raw gets an
underscore.
-/

namespace RecordLayout.Code

/-- Keywords that can be written raw. -/
def keywords : List String :=
  ["abstract", "as", "async", "await", "become", "box", "break", "const", "continue", "do", "dyn",
   "else", "enum", "extern", "false", "final", "fn", "for", "if", "impl", "in", "let", "loop",
   "macro", "match", "mod", "move", "mut", "override", "priv", "pub", "ref", "return", "static",
   "struct", "trait", "true", "try", "type", "typeof", "unsafe", "unsized", "use", "virtual",
   "where", "while", "yield"]

/-- Keywords that cannot. -/
def pathKeywords : List String := ["self", "Self", "super", "crate", "_"]

def fieldName (identifier : String) : String :=
  if pathKeywords.contains identifier then identifier ++ "_"
  else if keywords.contains identifier then "r#" ++ identifier
  else identifier

end RecordLayout.Code
