import FlowGraph.Text.Unprintable

/-!
# Quoted text

Two spellings of a text between double quotes.  `escape` is the one of saved documents and of
messages: a backslash before the quote and the backslash itself, letters for the common controls,
and the code point in braces for everything without a glyph.  Documents also put a backslash
before an apostrophe, messages do not.  `plain` is the spelling of printed values, which knows only
ASCII controls.
-/

namespace FlowGraph.Text

/-- The digits of `n` in base sixteen, lower case. -/
def hex (n : Nat) : List Char :=
  Nat.toDigits 16 n

/-- One character between quotes. -/
def escapeChar (apostrophe : Bool) (c : Char) : List Char :=
  if c = '"' then ['\\', '"']
  else if c = '\\' then ['\\', '\\']
  else if c = '\n' then ['\\', 'n']
  else if c = '\r' then ['\\', 'r']
  else if c = '\t' then ['\\', 't']
  else if c = '\x00' then ['\\', '0']
  else if c = '\x27' then if apostrophe then ['\\', c] else [c]
  else if isUnprintable c then ['\\', 'u', '\x7b'] ++ hex c.toNat ++ ['\x7d']
  else [c]

/-- A text between quotes; `apostrophe` says whether an apostrophe is escaped too. -/
def escape (apostrophe : Bool) (s : String) : String :=
  String.ofList ('"' :: s.toList.flatMap (escapeChar apostrophe) ++ ['"'])

/-- One character of a printed value. -/
def plainChar (c : Char) : List Char :=
  if c = '"' then ['\\', '"']
  else if c = '\\' then ['\\', '\\']
  else if c = '\n' then ['\\', 'n']
  else if c = '\r' then ['\\', 'r']
  else if c = '\t' then ['\\', 't']
  else if c = '\x08' then ['\\', 'b']
  else if c = '\x0c' then ['\\', 'f']
  else if c.toNat < 16 then ['\\', 'u', '0', '0', '0'] ++ hex c.toNat
  else if c.toNat < 32 then ['\\', 'u', '0', '0'] ++ hex c.toNat
  else [c]

/-- A text between quotes as printed values show it. -/
def plain (s : String) : String :=
  String.ofList ('"' :: s.toList.flatMap plainChar ++ ['"'])

end FlowGraph.Text
