import XhrKeywords.Text.Quoted
import XhrKeywords.Token.Basic

/-!
# Display of tokens
-/

namespace XhrKeywords.Token

/-- A token is shown by its kind, its quoted text and the position of its first character; the end
of the source has no text. -/
def display (t : Token) : String :=
  let text := if t.kind = .eof then "None" else Text.quoted t.text
  "Tok(" ++ t.kind.name ++ ", " ++ text ++ s!", {t.line}:{t.column})"

end XhrKeywords.Token
