import TemplateLexer.Construct
import TemplateLexer.Utf8

namespace TemplateLexer

/-- A span runs from its start up to, and without, its stop; both count bytes of the template. -/
structure Span where
  start : Nat
  stop : Nat
  deriving DecidableEq, Repr

namespace Span

/-- The empty span at an offset. -/
def point (offset : Nat) : Span := ⟨offset, offset⟩

/-- The number of bytes in the span. -/
def length (span : Span) : Nat := span.stop - span.start

def isEmpty (span : Span) : Bool := span.start == span.stop

/-- A span is shown by its two bounds. -/
def render (span : Span) : String := toString span.start ++ ".." ++ toString span.stop

@[simp] theorem length_point (offset : Nat) : (point offset).length = 0 := Nat.sub_self offset

theorem isEmpty_iff (span : Span) : span.isEmpty = true ↔ span = point span.start := by
  cases span with
  | mk start stop =>
      simp only [isEmpty, point, beq_iff_eq, mk.injEq, true_and]
      exact eq_comm

end Span

/-- A token is text, the marker of a delimiter, or the end of the input. -/
inductive Kind where
  | text
  | marker (delimiter : Delimiter)
  | endOfInput
  deriving DecidableEq, Repr

theorem Delimiter.encode_lexeme (delimiter : Delimiter) :
    Utf8.encode delimiter.lexeme = delimiter.bytes := by
  cases delimiter with
  | opening construct => cases construct <;> rfl
  | closing construct => cases construct <;> rfl

namespace Kind

/-- The kinds in table order: text, an opening and a closing marker for each construct, the end. -/
def all : List Kind :=
  [text] ++
    (Construct.all.flatMap fun construct =>
      [marker (.opening construct), marker (.closing construct)]) ++
    [endOfInput]

/-- The word for the kind in transcripts and in written forms. -/
def name : Kind → String
  | text => "Text"
  | marker delimiter => delimiter.name
  | endOfInput => "EndOfInput"

def ofName? (name : String) : Option Kind := all.find? fun kind => kind.name == name

def delimiter? : Kind → Option Delimiter
  | marker delimiter => some delimiter
  | _ => none

/-- A marker always has the same source text; the other kinds have none of their own. -/
def lexeme? (kind : Kind) : Option String := kind.delimiter?.map Delimiter.lexeme

/-- The construct that a marker belongs to. -/
def construct? (kind : Kind) : Option Construct := kind.delimiter?.map Delimiter.construct

def isOpening (kind : Kind) : Bool := kind.delimiter?.any Delimiter.isOpening

def isClosing (kind : Kind) : Bool := kind.delimiter?.any Delimiter.isClosing

def isMarker (kind : Kind) : Bool := kind.delimiter?.isSome

theorem mem_all (kind : Kind) : kind ∈ all := by
  cases kind with
  | text => decide
  | endOfInput => decide
  | marker delimiter =>
      cases delimiter with
      | opening construct => cases construct <;> decide
      | closing construct => cases construct <;> decide

theorem ofName?_name (kind : Kind) : ofName? kind.name = some kind := by
  cases kind with
  | text => rfl
  | endOfInput => rfl
  | marker delimiter =>
      cases delimiter with
      | opening construct => cases construct <;> rfl
      | closing construct => cases construct <;> rfl

theorem isMarker_eq (kind : Kind) : kind.isMarker = (kind.isOpening || kind.isClosing) := by
  cases kind with
  | text => rfl
  | endOfInput => rfl
  | marker delimiter => cases delimiter <;> rfl

end Kind

/-- A token classifies one region of a template. Only text has contents of its own. -/
structure Token where
  kind : Kind
  contents : String
  span : Span
  deriving DecidableEq, Repr

/-- Every newline is replaced by a backslash and the letter n; nothing else changes. -/
def escapeNewlines (text : String) : String :=
  String.ofList (text.toList.flatMap fun character =>
    if character = '\n' then ['\\', 'n'] else [character])

namespace Token

def text (contents : String) (span : Span) : Token := ⟨.text, contents, span⟩

/-- A token of any kind that carries no contents. -/
def bare (kind : Kind) (span : Span) : Token := ⟨kind, "", span⟩

/-- The marker of a delimiter that stands at a position. -/
def marker (delimiter : Delimiter) (position : Nat) : Token :=
  bare (.marker delimiter) ⟨position, position + delimiterLength⟩

/-- The last token of every template, at the template's length. -/
def endOfInput (offset : Nat) : Token := bare .endOfInput (.point offset)

def isEnd (token : Token) : Bool := token.kind == .endOfInput

/-- The part of the template that the token was read from. -/
def sourceText (token : Token) : String :=
  match token.kind with
  | .text => token.contents
  | .marker delimiter => delimiter.lexeme
  | .endOfInput => ""

/-- A token is shown by its kind, and text also by its contents in quotes, on one line. -/
def render (token : Token) : String :=
  match token.kind with
  | .text => token.kind.name ++ " \"" ++ escapeNewlines token.contents ++ "\""
  | kind => kind.name

@[simp] theorem sourceText_text (contents : String) (span : Span) :
    (text contents span).sourceText = contents := rfl

@[simp] theorem sourceText_marker (delimiter : Delimiter) (position : Nat) :
    (marker delimiter position).sourceText = delimiter.lexeme := rfl

@[simp] theorem sourceText_endOfInput (offset : Nat) : (endOfInput offset).sourceText = "" := rfl

end Token

end TemplateLexer
