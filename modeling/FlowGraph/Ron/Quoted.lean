import FlowGraph.Ron.Number

/-!
# Texts and characters of RON

A text stands between double quotes.  A backslash introduces one of eight letters, two digits of a
byte, or the code point of a character in braces.  Bytes above 127 have to make up whole characters
with their neighbours.  A raw text has no escapes and ends at a quote with as many hashes as stand
before it.  A text of bytes is read for its form only, since nothing here is made of bytes.
-/

namespace FlowGraph.Ron

/-- What a single letter after a backslash means. -/
def escapedLetter? : Char → Option Char
  | '\x27' => some '\x27'
  | '"' => some '"'
  | '\\' => some '\\'
  | 'n' => some '\n'
  | 'r' => some '\r'
  | 't' => some '\t'
  | '0' => some '\x00'
  | _ => none

/-- Where the reading of a quoted text stands. -/
inductive Quote where
  | text
  /-- After a backslash. -/
  | escape
  /-- In the digits of a byte, with so many still to come. -/
  | byte (value missing : Nat)
  /-- Before the brace of a code point. -/
  | brace
  /-- In the digits of a code point, with so many read. -/
  | code (value read : Nat)

/-- The characters that a run of bytes makes up. -/
def decodeBytes (bytes : List UInt8) : Option (List Char) :=
  if bytes.isEmpty then some [] else (String.fromUTF8? ⟨bytes.toArray⟩).map String.toList

/-- The character of a code point. -/
def character? (n : Nat) : Option Char := if n.isValidChar then some (Char.ofNat n) else none

/-- Reads a quoted text up to the closing quote; gives its characters and what follows.  The bytes
    that no character has come of yet are in `run`. -/
def quoted? (close : Char) : Quote → List UInt8 → List Char → Option (List Char × List Char)
  | _, _, [] => none
  | .text, run, c :: rest =>
    if c = close then do
      let before ← decodeBytes run
      return (before, rest)
    else if c = '\\' then quoted? close .escape run rest
    else do
      let before ← decodeBytes run
      let (after, rest) ← quoted? close .text [] rest
      return (before ++ c :: after, rest)
  | .escape, run, c :: rest =>
    if c = 'x' then quoted? close (.byte 0 2) run rest
    else if c = 'u' then quoted? close .brace run rest
    else do
      let before ← decodeBytes run
      let letter ← escapedLetter? c
      let (after, rest) ← quoted? close .text [] rest
      return (before ++ letter :: after, rest)
  | .byte value missing, run, c :: rest => do
    let value := value * 16 + (← digit? c)
    if missing > 1 then quoted? close (.byte value (missing - 1)) run rest
    else if value ≥ 128 then quoted? close .text (run ++ [UInt8.ofNat value]) rest
    else
      let before ← decodeBytes run
      let (after, rest) ← quoted? close .text [] rest
      return (before ++ Char.ofNat value :: after, rest)
  | .brace, run, c :: rest =>
    if c = '\x7b' then quoted? close (.code 0 0) run rest else none
  | .code value read, run, c :: rest =>
    if c = '\x7d' then do
      if read = 0 then none
      let before ← decodeBytes run
      let letter ← character? value
      let (after, rest) ← quoted? close .text [] rest
      return (before ++ letter :: after, rest)
    else if read < 6 then do
      quoted? close (.code (value * 16 + (← digit? c)) (read + 1)) run rest
    else none

/-- Reads a raw text up to a quote with so many hashes. -/
def raw? (hashes : Nat) : List Char → Option (List Char × List Char)
  | [] => none
  | c :: rest =>
    if c = '"' && (List.replicate hashes '#').isPrefixOf rest then some ([], rest.drop hashes)
    else (raw? hashes rest).map fun (cs, rest) => (c :: cs, rest)

/-- A raw text after its `r`. -/
def rawText? (cs : List Char) : Option (List Char × List Char) :=
  match cs.dropWhile (· = '#') with
  | '"' :: rest => raw? (cs.takeWhile (· = '#')).length rest
  | _ => none

/-- A text in either form. -/
def text? : List Char → Option (String × List Char)
  | '"' :: rest => (quoted? '"' .text [] rest).map fun (cs, rest) => (String.ofList cs, rest)
  | 'r' :: rest => (rawText? rest).map fun (cs, rest) => (String.ofList cs, rest)
  | _ => none

/-- A character between apostrophes.  It cannot be made up of several bytes. -/
def character : List Char → Option (Char × List Char)
  | '\x27' :: '\\' :: rest =>
    match quoted? '\x27' .escape [] rest with
    | some ([c], after) => if rest.head? = some 'x' && c.toNat ≥ 128 then none else some (c, after)
    | _ => none
  | '\x27' :: c :: '\x27' :: rest => some (c, rest)
  | _ => none

/-- Skips a text of bytes up to the closing quote.  Its escapes are those of a text, but its bytes
    need not make up characters. -/
def skipBytes : Quote → List Char → Option (List Char)
  | _, [] => none
  | .text, c :: rest =>
    if c = '"' then some rest else skipBytes (if c = '\\' then .escape else .text) rest
  | .escape, c :: rest =>
    if c = 'x' then skipBytes (.byte 0 2) rest
    else if c = 'u' then skipBytes .brace rest
    else do
      let _ ← escapedLetter? c
      skipBytes .text rest
  | .byte value missing, c :: rest => do
    let value := value * 16 + (← digit? c)
    skipBytes (if missing > 1 then .byte value (missing - 1) else .text) rest
  | .brace, c :: rest => if c = '\x7b' then skipBytes (.code 0 0) rest else none
  | .code value read, c :: rest =>
    if c = '\x7d' then do
      if read = 0 then none
      let _ ← character? value
      skipBytes .text rest
    else if read < 6 then do
      skipBytes (.code (value * 16 + (← digit? c)) (read + 1)) rest
    else none

/-- A text of bytes in either form. -/
def bytes? : List Char → Option (List Char)
  | 'b' :: '"' :: rest => skipBytes .text rest
  | 'b' :: 'r' :: rest => (rawText? rest).map (·.2)
  | _ => none

/-- A byte written as an ASCII character or by its two digits. -/
def byte? : List Char → Option (Nat × List Char)
  | 'b' :: '\x27' :: '\\' :: 'x' :: high :: low :: '\x27' :: rest => do
    return ((← digit? high) * 16 + (← digit? low), rest)
  | 'b' :: '\x27' :: '\\' :: c :: '\x27' :: rest => do
    return ((← escapedLetter? c).toNat, rest)
  | 'b' :: '\x27' :: c :: '\x27' :: rest =>
    if c ≠ '\\' && c.toNat < 128 then some (c.toNat, rest) else none
  | _ => none

/-- An identifier, or a raw one, which may hold points and signs. -/
def identifier? (cs : List Char) : Option (String × List Char) :=
  let texts := ["b\"", "b'", "br\"", "br#", "r\"", "r#\"", "r##"]
  if texts.any fun s => s.toList.isPrefixOf cs then none
  else
    match cs with
    | 'r' :: '#' :: rest =>
      let isRest := fun c => Text.isIdentifierRest c || c = '.' || c = '+' || c = '-'
      let word := rest.takeWhile isRest
      if word.isEmpty then none else some (String.ofList word, rest.dropWhile isRest)
    | c :: rest =>
      if Text.isIdentifierStart c then
        some (String.ofList (c :: rest.takeWhile Text.isIdentifierRest),
          rest.dropWhile Text.isIdentifierRest)
      else none
    | [] => none

end FlowGraph.Ron
