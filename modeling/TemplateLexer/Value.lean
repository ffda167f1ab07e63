import TemplateLexer.Token

namespace TemplateLexer

/-- Numbers that are not natural are told apart from those that are, but not from one another. -/
inductive Value where
  | null
  | bool (value : Bool)
  | natural (value : Nat)
  | otherNumber
  | string (text : String)
  | array (elements : List Value)
  | object (fields : List (String × Value))
  deriving Inhabited, Repr

/-- The number of values that a word of 64 bits can have. -/
def wordCount : Nat := UInt64.size

namespace Value

/-- A natural number that fits into a word. -/
def word? : Value → Option Nat
  | natural value => if value < wordCount then some value else none
  | _ => none

def text? : Value → Option String
  | string text => some text
  | _ => none

/-- A name stands alone, or over nothing as the only field of an object. -/
def name? : Value → Option String
  | string name => some name
  | object [(name, null)] => some name
  | _ => none

/-- The values of the named fields. An array must hold exactly these; an object may hold more. -/
def fields? (names : List String) : Value → Option (List Value)
  | object fields => names.mapM fun name => fields.lookup name
  | array elements => if elements.length = names.length then some elements else none
  | _ => none

end Value

namespace Construct

def toValue (construct : Construct) : Value := .string construct.name

def ofValue? (value : Value) : Option Construct := value.name?.bind ofName?

theorem ofValue?_toValue (construct : Construct) :
    ofValue? construct.toValue = some construct := ofName?_name construct

end Construct

namespace Kind

def toValue (kind : Kind) : Value := .string kind.name

def ofValue? (value : Value) : Option Kind := value.name?.bind ofName?

theorem ofValue?_toValue (kind : Kind) : ofValue? kind.toValue = some kind := ofName?_name kind

end Kind

namespace Span

def toValue (span : Span) : Value :=
  .object [("start", .natural span.start), ("end", .natural span.stop)]

def ofValue? (value : Value) : Option Span :=
  match value.fields? ["start", "end"] with
  | some [start, stop] => do return ⟨← start.word?, ← stop.word?⟩
  | _ => none

/-- A span fits into words if both of its bounds do. -/
def FitsWords (span : Span) : Prop := span.start < wordCount ∧ span.stop < wordCount

theorem ofValue?_toValue {span : Span} (fits : span.FitsWords) :
    ofValue? span.toValue = some span := by
  obtain ⟨start, stop⟩ := fits
  simp [ofValue?, toValue, Value.fields?, List.lookup_cons, Value.word?, start, stop]

end Span

namespace Token

def toValue (token : Token) : Value :=
  .object [("kind", token.kind.toValue), ("contents", .string token.contents),
    ("span", token.span.toValue)]

def ofValue? (value : Value) : Option Token :=
  match value.fields? ["kind", "contents", "span"] with
  | some [kind, contents, span] =>
      do return ⟨← Kind.ofValue? kind, ← contents.text?, ← Span.ofValue? span⟩
  | _ => none

theorem ofValue?_toValue {token : Token} (fits : token.span.FitsWords) :
    ofValue? token.toValue = some token := by
  simp [ofValue?, toValue, Value.fields?, List.lookup_cons, Kind.ofValue?_toValue, Value.text?,
    Span.ofValue?_toValue fits]

/-- The form of a list of tokens. -/
def listToValue (tokens : List Token) : Value := .array (tokens.map toValue)

def listOfValue? : Value → Option (List Token)
  | .array elements => elements.mapM ofValue?
  | _ => none

theorem listOfValue?_listToValue {tokens : List Token}
    (fit : ∀ token ∈ tokens, token.span.FitsWords) :
    listOfValue? (listToValue tokens) = some tokens := by
  simp only [listOfValue?, listToValue]
  induction tokens with
  | nil => rfl
  | cons token rest ih =>
      rw [List.map_cons, List.mapM_cons, ofValue?_toValue (fit token List.mem_cons_self),
        ih fun other inside => fit other (List.mem_cons_of_mem token inside)]
      rfl

end Token

end TemplateLexer
