/-
This file reads and writes tokens as bytes, with the least significant byte of a number first.
-/

import TemplateLexer.Value

namespace TemplateLexer.Binary

/-- The last `width` base-256 digits of a number, least significant first. -/
def littleEndian : Nat → Nat → List UInt8
  | 0, _ => []
  | width + 1, value => UInt8.ofNat value :: littleEndian width (value / 256)

def ofLittleEndian : List UInt8 → Nat
  | [] => 0
  | byte :: rest => byte.toNat + 256 * ofLittleEndian rest

/-- The bytes of an index. -/
def indexWidth : Nat := 4

/-- The bytes of a length or of an offset. -/
def wordWidth : Nat := 8

/-- Bytes are no code because they end too early, name no choice, or hold no text. -/
inductive DecodeError where
  | truncated
  | unknownIndex (index count : Nat)
  | malformedText (fault : Utf8.Fault)
  deriving DecidableEq, Repr

def DecodeError.message : DecodeError → String
  | truncated => "io error"
  | unknownIndex index count =>
      "invalid value: integer `" ++ toString index ++ "`, expected variant index 0 <= i < " ++
        toString count
  | malformedText fault => "string is not valid utf8: " ++ fault.message

/-- A decoder takes a value off the front of the bytes. -/
abbrev Decoder := StateT (List UInt8) (Except DecodeError)

namespace Decoder

def take (count : Nat) : Decoder (List UInt8) := fun bytes =>
  if bytes.length < count then .error .truncated
  else .ok (bytes.take count, bytes.drop count)

def number (width : Nat) : Decoder Nat := do
  let digits ← take width
  return ofLittleEndian digits

def choice {α : Type} (table : List α) : Decoder α := do
  let index ← number indexWidth
  match table[index]? with
  | some chosen => return chosen
  | none => throw (.unknownIndex index table.length)

/-- All bytes of the text must be there before they are read as text. -/
def text : Decoder String := do
  let length ← number wordWidth
  let bytes ← take length
  match Utf8.decode bytes with
  | .ok text => return text
  | .error fault => throw (.malformedText fault)

def times {α : Type} (element : Decoder α) : Nat → Decoder (List α)
  | 0 => return []
  | count + 1 => do
      let first ← element
      let rest ← times element count
      return first :: rest

def construct : Decoder Construct := choice Construct.all

def kind : Decoder Kind := choice Kind.all

def span : Decoder Span := do
  let start ← number wordWidth
  let stop ← number wordWidth
  return ⟨start, stop⟩

def token : Decoder Token := do
  let kind ← kind
  let contents ← text
  let span ← span
  return ⟨kind, contents, span⟩

def tokens : Decoder (List Token) := do
  let count ← number wordWidth
  times token count

/-- The value at the front of the bytes; what follows it is ignored. -/
def decode {α : Type} (decoder : Decoder α) (bytes : List UInt8) : Except DecodeError α :=
  (decoder.run bytes).map Prod.fst

end Decoder

def encodeConstruct (construct : Construct) : List UInt8 :=
  littleEndian indexWidth (Construct.all.idxOf construct)

def encodeKind (kind : Kind) : List UInt8 := littleEndian indexWidth (Kind.all.idxOf kind)

def encodeText (text : String) : List UInt8 :=
  littleEndian wordWidth text.utf8ByteSize ++ Utf8.encode text

def encodeSpan (span : Span) : List UInt8 :=
  littleEndian wordWidth span.start ++ littleEndian wordWidth span.stop

def encodeToken (token : Token) : List UInt8 :=
  encodeKind token.kind ++ encodeText token.contents ++ encodeSpan token.span

def encodeTokens (tokens : List Token) : List UInt8 :=
  littleEndian wordWidth tokens.length ++ tokens.flatMap encodeToken

end TemplateLexer.Binary
