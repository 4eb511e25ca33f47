import Covenant.Source.Span
import Covenant.Text.Quoted

/-!
# Tokens

The symbols of a type list, and the ways in which its text can fail to be a sequence of them.
-/

namespace Covenant

/-- A symbol of a type list. The end of the text is a token of its own. -/
inductive Token where
  | ident (name : String)
  | openBracket
  | closeBracket
  | arrow
  | unit
  | eof
deriving DecidableEq, Repr

/-- How messages name a token: its spelling between backquotes. -/
def Token.wording : Token → String
  | .ident name => "`" ++ name ++ "`"
  | .openBracket => "`[`"
  | .closeBracket => "`]`"
  | .arrow => "`->`"
  | .unit => "`()`"
  | .eof => "end of signature"

/-- Why a text is not a sequence of tokens. -/
inductive TokenFault where
  /-- No token starts with the character. -/
  | unexpectedChar (ch : Char)
  /-- One half of an arrow without the other. -/
  | malformedArrow
  /-- One parenthesis of the unit without the other. -/
  | malformedUnit
deriving DecidableEq, Repr

def TokenFault.message : TokenFault → String
  | .unexpectedChar ch => "unexpected character: " ++ Text.quoteChar ch
  | .malformedArrow => "malformed arrow"
  | .malformedUnit => "malformed unit `()`"

/-- A fault with the characters at which reading stopped. -/
abbrev TokenError := Located TokenFault

end Covenant
