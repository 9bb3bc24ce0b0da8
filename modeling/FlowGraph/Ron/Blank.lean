/-!
# Blanks and comments

Between any two tokens there may be blanks, comments to the end of the line and comments in
brackets, which nest.
-/

namespace FlowGraph.Ron

/-- The characters that count as blanks: the ASCII ones, next line, the two marks of direction and
    the two separators of lines and paragraphs. -/
def isBlank (c : Char) : Bool :=
  c = ' ' || c = '\t' || c = '\n' || c = '\r' || c = '\x0b' || c = '\x0c' || c = '\u0085' ||
    c = '\u200e' || c = '\u200f' || c = '\u2028' || c = '\u2029'

/-- Where skipping stands. -/
inductive Skip where
  | blanks
  /-- In a comment that ends with the line. -/
  | line
  /-- In a bracketed comment, so many levels below its outermost one. -/
  | block (level : Nat)

/-- What is left after blanks and comments; nothing if a comment is not closed. -/
def skipFrom : Skip → List Char → Option (List Char)
  | .blanks, [] | .line, [] => some []
  | .block _, [] => none
  | .blanks, '/' :: '/' :: rest => skipFrom .line rest
  | .blanks, '/' :: '*' :: rest => skipFrom (.block 0) rest
  | .blanks, c :: rest => if isBlank c then skipFrom .blanks rest else some (c :: rest)
  | .line, c :: rest => skipFrom (if c = '\n' then .blanks else .line) rest
  | .block 0, '*' :: '/' :: rest => skipFrom .blanks rest
  | .block (level + 1), '*' :: '/' :: rest => skipFrom (.block level) rest
  | .block level, '/' :: '*' :: rest => skipFrom (.block (level + 1)) rest
  | .block level, _ :: rest => skipFrom (.block level) rest

/-- Skips blanks and comments. -/
def skip : List Char → Option (List Char) := skipFrom .blanks

end FlowGraph.Ron
