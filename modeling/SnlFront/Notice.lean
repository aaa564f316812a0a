import SnlFront.Token

/-!
# Notices about a source text

What is wrong with a source text below the level of meaning: characters that belong to no token,
and tokens that continue no program. A notice never stops the reading.
-/

namespace SnlFront

/-- Something wrong with a source text. -/
inductive Notice
  /-- A character that belongs to no token. -/
  | illegal (c : Located Char)
  /-- A token that continues no program. -/
  | unexpected (t : Located Token)
  /-- The text ends inside a program, or holds none. -/
  | unexpectedEnd
deriving DecidableEq, Repr

/-- The wording of a notice. -/
def Notice.message : Notice → String
  | .illegal c =>
    "lexer: illegal character '" ++ c.value.toString ++ "' at " ++ c.pos.describe ++ " -- skipping"
  | .unexpected t =>
    "syntax error at " ++ t.pos.describe ++ ": unexpected '" ++ t.value.text ++ "'"
  | .unexpectedEnd => "syntax error at end of file"

end SnlFront
