import NetworkHealth.Daemon.Json
import NetworkHealth.Library.CNumber
import NetworkHealth.Library.Loop

/-! The JSON texts of the daemon: how a value is written and how a text is read. A parser
stands at what is left of its text, and a failure tells how much that was. -/
namespace NetworkHealth.Daemon.Json
open CNumber (byte hexText intText generalText stod)

def quote : UInt8 := 0x22
def backslash : UInt8 := 0x5c
def openBrace : UInt8 := 0x7b
def closeBrace : UInt8 := 0x7d

section Write

/-- A code point as one or two `\u` escapes. -/
def writeEscapedCodePoint (codePoint : ℕ) : Bytes :=
  if codePoint < 0x10000 then backslash :: byte 'u' :: hexText codePoint
  else
    let value := codePoint - 0x10000
    backslash :: byte 'u' :: hexText (0xD800 + value >>> 10) ++
      backslash :: byte 'u' :: hexText (0xDC00 + (value &&& 0x3FF))

/-- A byte that is no part of a sequence. -/
def writeByte (c : UInt8) : Bytes :=
  if c = quote then [backslash, quote]
  else if c = backslash then [backslash, backslash]
  else if c = 0x08 then [backslash, byte 'b']
  else if c = 0x0c then [backslash, byte 'f']
  else if c = 0x0a then [backslash, byte 'n']
  else if c = 0x0d then [backslash, byte 'r']
  else if c = 0x09 then [backslash, byte 't']
  else if c < 0x20 then writeEscapedCodePoint c.toNat
  else [c]

/-- The bits that a lead byte carries and the number of bytes that are to follow it. -/
def leadByte (c : UInt8) : Option (ℕ × ℕ) :=
  if c &&& 0xE0 = 0xC0 then some ((c &&& 0x1F).toNat, 1)
  else if c &&& 0xF0 = 0xE0 then some ((c &&& 0x0F).toNat, 2)
  else if c &&& 0xF8 = 0xF0 then some ((c &&& 0x07).toNat, 3)
  else none

/-- The code point after the bytes that follow, none if one of them is no continuation byte. -/
def continued (codePoint : ℕ) : Bytes → Option ℕ
  | [] => some codePoint
  | c :: rest =>
    if c &&& 0xC0 = 0x80 then continued (codePoint <<< 6 ||| (c &&& 0x3F).toNat) rest else none

/-- What one turn of the writing loop puts out. -/
inductive Piece
  | byte (c : UInt8)
  | escaped (codePoint : ℕ)
  deriving DecidableEq, Repr

def Piece.text : Piece → Bytes
  | .byte c => writeByte c
  | .escaped codePoint => writeEscapedCodePoint codePoint

/-- U+FFFD, for what cannot be decoded. -/
def replacement : Piece := .escaped 0xFFFD

/-- The loop over a string: the number of bytes it has already dealt with, and the string
from there. A sequence that the end of the string cuts short ends the loop. -/
def pieces (asciiOnly : Bool) : ℕ → Bytes → List Piece
  | _, [] => []
  | skip + 1, _ :: rest => pieces asciiOnly skip rest
  | 0, c :: rest =>
    if asciiOnly = true ∧ 0x80 ≤ c then
      match leadByte c with
      | none => replacement :: pieces asciiOnly 0 rest
      | some (bits, extra) =>
        if rest.length < extra then [replacement]
        else
          match continued bits (rest.take extra) with
          | none => replacement :: pieces asciiOnly 0 rest
          | some codePoint => .escaped codePoint :: pieces asciiOnly extra rest
    else .byte c :: pieces asciiOnly 0 rest

def writeString (asciiOnly : Bool) (value : Bytes) : Bytes :=
  quote :: (pieces asciiOnly 0 value).flatMap Piece.text ++ [quote]

def writeNumber (value : ℚ) : Bytes :=
  if value = value.floor ∧ |value| < 9000000000000000 then intText value.floor else generalText value

/-- The start of a line, where the text has lines. -/
def lineStart (indent : ℤ) (depth : ℕ) : Bytes :=
  if 0 ≤ indent then byte '\n' :: List.replicate (indent.toNat * depth) (byte ' ') else []

/-- An array or an object from the texts of what is in it. -/
def writeList (indent : ℤ) (depth : ℕ) (opening closing : UInt8) (items : List Bytes) : Bytes :=
  if items = [] then [opening, closing]
  else opening :: [byte ','].intercalate (items.map (lineStart indent (depth + 1) ++ ·)) ++
    lineStart indent depth ++ [closing]

mutual

def write (indent : ℤ) (asciiOnly : Bool) (depth : ℕ) : Json → Bytes
  | null => ascii "null"
  | bool value => if value then ascii "true" else ascii "false"
  | number value => writeNumber value
  | infinite => ascii "null"
  | string value => writeString asciiOnly value
  | array items => writeList indent depth (byte '[') (byte ']') (writeItems indent asciiOnly (depth + 1) items)
  | object members => writeList indent depth openBrace closeBrace (writeMembers indent asciiOnly (depth + 1) members)

def writeItems (indent : ℤ) (asciiOnly : Bool) (depth : ℕ) : List Json → List Bytes
  | [] => []
  | item :: rest => write indent asciiOnly depth item :: writeItems indent asciiOnly depth rest

def writeMembers (indent : ℤ) (asciiOnly : Bool) (depth : ℕ) : List (Bytes × Json) → List Bytes
  | [] => []
  | (key, value) :: rest =>
    (writeString asciiOnly key ++ byte ':' :: (if 0 ≤ indent then [byte ' '] else []) ++
      write indent asciiOnly depth value) :: writeMembers indent asciiOnly depth rest

end

def dump (document : Json) (indent : ℤ) (asciiOnly : Bool) : Bytes := document.write indent asciiOnly 0

end Write

/-- Why a text is not read, and the number of bytes left where that is noticed. -/
structure Failure where
  message : Bytes
  left : ℕ
  deriving DecidableEq, Repr

namespace Parser

/-- What is read, and the text after it. -/
abbrev Reading (α : Type) := Except Failure (α × Bytes)

def fail {α : Type} (message : String) (rest : Bytes) : Except Failure α :=
  .error ⟨ascii message, rest.length⟩

/-- Not a failure of the parser: its loops end before. -/
def exhausted : Failure := ⟨[], 0⟩

def isWhitespace (c : UInt8) : Bool := c = byte ' ' || c = byte '\t' || c = byte '\n' || c = byte '\r'

def skipWhitespace (text : Bytes) : Bytes := text.dropWhile isWhitespace

def literal (word : String) (value : Json) (text : Bytes) : Reading Json :=
  if text.take (ascii word).length ≠ ascii word then fail "invalid literal" text
  else .ok (value, text.drop (ascii word).length)

section Number

def isNumberByte (c : UInt8) : Bool :=
  byte '0' ≤ c && c ≤ byte '9' || c = byte '.' || c = byte 'e' || c = byte 'E' || c = byte '+' || c = byte '-'

/-- What is left after a sign, if there is one, and all the bytes that a number may have. -/
def afterNumber (text : Bytes) : Bytes :=
  (if text.head? = some (byte '-') ∨ text.head? = some (byte '+') then text.tail else text).dropWhile isNumberByte

def parseNumber (text : Bytes) : Reading Json :=
  let rest := afterNumber text
  let token := text.take (text.length - rest.length)
  if token = [] then fail "unexpected character" rest
  else
    match stod token with
    | none => fail "malformed number" rest
    | some (value, consumed) =>
      if consumed ≠ token.length then fail "malformed number" rest else .ok (.number value, rest)

end Number

section String

def appendUtf8 (cp : ℕ) : Bytes :=
  if cp < 0x80 then [UInt8.ofNat cp]
  else if cp < 0x800 then [UInt8.ofNat (0xC0 ||| cp >>> 6), UInt8.ofNat (0x80 ||| cp &&& 0x3F)]
  else if cp < 0x10000 then
    [UInt8.ofNat (0xE0 ||| cp >>> 12), UInt8.ofNat (0x80 ||| (cp >>> 6) &&& 0x3F), UInt8.ofNat (0x80 ||| cp &&& 0x3F)]
  else
    [UInt8.ofNat (0xF0 ||| cp >>> 18), UInt8.ofNat (0x80 ||| (cp >>> 12) &&& 0x3F),
      UInt8.ofNat (0x80 ||| (cp >>> 6) &&& 0x3F), UInt8.ofNat (0x80 ||| cp &&& 0x3F)]

def hexValue (c : UInt8) : Option ℕ :=
  if byte '0' ≤ c ∧ c ≤ byte '9' then some (c.toNat - (byte '0').toNat)
  else if byte 'a' ≤ c ∧ c ≤ byte 'f' then some (c.toNat - (byte 'a').toNat + 10)
  else if byte 'A' ≤ c ∧ c ≤ byte 'F' then some (c.toNat - (byte 'A').toNat + 10)
  else none

/-- So many hex digits, after those that made up the number so far. -/
def hexDigits : ℕ → ℕ → Bytes → Reading ℕ
  | 0, out, text => .ok (out, text)
  | _ + 1, _, [] => .error exhausted
  | n + 1, out, c :: rest =>
    match hexValue c with
    | none => fail "invalid hex digit" rest
    | some d => hexDigits n (out <<< 4 ||| d) rest

def parseHex4 (text : Bytes) : Reading ℕ :=
  if text.length < 4 then fail "truncated \\u escape" text else hexDigits 4 0 text

def isHighSurrogate (cp : ℕ) : Bool := 0xD800 ≤ cp && cp ≤ 0xDBFF
def isLowSurrogate (cp : ℕ) : Bool := 0xDC00 ≤ cp && cp ≤ 0xDFFF

/-- What a high surrogate and the code unit after it stand for. -/
def afterHigh (cp low : ℕ) : Bytes :=
  if isLowSurrogate low = true then appendUtf8 (0x10000 + (cp - 0xD800) <<< 10 + (low - 0xDC00))
  else appendUtf8 cp ++ appendUtf8 low

/-- What follows `\u`: a code unit, and if it may start a surrogate pair, the next one too. -/
def unicodeEscape (text : Bytes) : Reading Bytes :=
  (parseHex4 text).bind fun read =>
    if isHighSurrogate read.1 = true ∧ read.2.take 2 = [backslash, byte 'u'] then
      (parseHex4 (read.2.drop 2)).map fun next => (afterHigh read.1 next.1, next.2)
    else .ok (appendUtf8 read.1, read.2)

def simpleEscape (esc : UInt8) : Option UInt8 :=
  if esc = quote then some quote
  else if esc = backslash then some backslash
  else if esc = byte '/' then some (byte '/')
  else if esc = byte 'b' then some 0x08
  else if esc = byte 'f' then some 0x0c
  else if esc = byte 'n' then some 0x0a
  else if esc = byte 'r' then some 0x0d
  else if esc = byte 't' then some 0x09
  else none

/-- One character or one escape of a string, or its end. -/
def stringRound : Bytes × Bytes → Except Failure (Round (Bytes × Bytes))
  | (_, []) => fail "unterminated string" []
  | (out, c :: rest) =>
    if c = quote then .ok (.done (out, rest))
    else if c ≠ backslash then .ok (.next (out ++ [c], rest))
    else
      match rest with
      | [] => fail "unterminated escape" []
      | esc :: rest =>
        if esc = byte 'u' then (unicodeEscape rest).map fun read => .next (out ++ read.1, read.2)
        else
          match simpleEscape esc with
          | none => fail "invalid escape" rest
          | some b => .ok (.next (out ++ [b], rest))

/-- The size of what is left to read. -/
def left {α : Type} (state : α × Bytes) : ℕ := state.2.length

def parseCharacters (state : Bytes × Bytes) : Reading Bytes := loop stringRound exhausted left state

def parseString (text : Bytes) : Reading Bytes :=
  if text.head? ≠ some quote then fail "expected string" text else parseCharacters ([], text.tail)

end String

section Containers

/-- What stands after an item: a comma, or the end. -/
def separator (closing : UInt8) (unterminated expected : String) (out : Json) (text : Bytes) :
    Except Failure (Round (Json × Bytes)) :=
  match skipWhitespace text with
  | [] => fail unterminated []
  | c :: rest =>
    if c = byte ',' then .ok (.next (out, rest))
    else if c = closing then .ok (.done (out, rest))
    else fail expected (c :: rest)

variable (parseValue : Bytes → Reading Json)

def arrayRound (state : Json × Bytes) : Except Failure (Round (Json × Bytes)) :=
  (parseValue state.2).bind fun item =>
    separator (byte ']') "unterminated array" "expected ',' or ']'" (state.1.push item.1) item.2

/-- The text after the opening bracket. -/
def parseArray (text : Bytes) : Reading Json :=
  let rest := skipWhitespace text
  if rest.head? = some (byte ']') then .ok (.array [], rest.tail)
  else loop (arrayRound parseValue) exhausted left (.array [], rest)

def objectRound (state : Json × Bytes) : Except Failure (Round (Json × Bytes)) :=
  (parseString (skipWhitespace state.2)).bind fun key =>
    let rest := skipWhitespace key.2
    if rest.head? ≠ some (byte ':') then fail "expected ':'" rest
    else
      (parseValue rest.tail).bind fun value =>
        separator closeBrace "unterminated object" "expected ',' or '\x7d'" (state.1.set key.1 value.1) value.2

/-- The text after the opening brace. -/
def parseObject (text : Bytes) : Reading Json :=
  let rest := skipWhitespace text
  if rest.head? = some closeBrace then .ok (.object [], rest.tail)
  else loop (objectRound parseValue) exhausted left (.object [], rest)

end Containers

/-- The value that starts with this byte. -/
def parseStarting (parseValue : Bytes → Reading Json) (c : UInt8) (rest : Bytes) : Reading Json :=
  if c = byte 'n' then literal "null" .null (c :: rest)
  else if c = byte 't' then literal "true" (.bool true) (c :: rest)
  else if c = byte 'f' then literal "false" (.bool false) (c :: rest)
  else if c = quote then (parseString (c :: rest)).map fun read => (.string read.1, read.2)
  else if c = byte '[' then parseArray parseValue rest
  else if c = openBrace then parseObject parseValue rest
  else parseNumber (c :: rest)

def parseValueInner (parseValue : Bytes → Reading Json) (text : Bytes) : Reading Json :=
  match skipWhitespace text with
  | [] => fail "unexpected end of input" []
  | c :: rest => parseStarting parseValue c rest

/-- A value, with so many levels of nesting left for it. -/
def parseValue : ℕ → Bytes → Reading Json
  | 0, text => fail "nesting too deep" text
  | levels + 1, text => parseValueInner (parseValue levels) text

end Parser

/-- The text of an error in a text of that size. -/
def Failure.text (failure : Failure) (size : ℕ) : Bytes :=
  failure.message ++ ascii " at offset " ++ decimal (size - failure.left)

/-- The value of a text and the text of the error, which is empty if there is none. -/
def parse (text : Bytes) : Json × Bytes :=
  match Parser.parseValue 64 text with
  | .error failure => (null, failure.text text.length)
  | .ok (value, rest) =>
    if Parser.skipWhitespace rest ≠ [] then (null, ascii "trailing data after JSON document")
    else (value, [])

end NetworkHealth.Daemon.Json
