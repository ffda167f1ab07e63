namespace TemplateLexer

/-- A construct encloses opaque text in a pair of delimiters, whose bytes are all ASCII. -/
inductive Construct where
  | comment
  | interpolation
  | tag
  deriving DecidableEq, Repr

/-- The first byte of every opening delimiter. -/
def openBrace : UInt8 := 0x7B

/-- The last byte of every closing delimiter. -/
def closeBrace : UInt8 := 0x7D

/-- The number of bytes in every delimiter. -/
def delimiterLength : Nat := 2

namespace Construct

/-- The constructs in table order. -/
def all : List Construct := [comment, interpolation, tag]

/-- The word for the construct in messages and in written forms. -/
def name : Construct → String
  | comment => "Comment"
  | interpolation => "Variable"
  | tag => "Tag"

/-- The byte that follows the brace of the opening delimiter. -/
def openMark : Construct → UInt8
  | comment => 0x23
  | interpolation => openBrace
  | tag => 0x25

/-- The byte that stands before the brace of the closing delimiter. -/
def closeMark : Construct → UInt8
  | comment => 0x23
  | interpolation => closeBrace
  | tag => 0x25

/-- The construct whose opening delimiter the byte completes after an open brace. -/
def ofOpenMark? (byte : UInt8) : Option Construct :=
  all.find? fun construct => construct.openMark == byte

def ofName? (name : String) : Option Construct :=
  all.find? fun construct => construct.name == name

theorem ofOpenMark?_openMark (construct : Construct) :
    ofOpenMark? construct.openMark = some construct := by
  cases construct <;> rfl

theorem openMark_of_ofOpenMark? {byte : UInt8} {construct : Construct}
    (found : ofOpenMark? byte = some construct) : construct.openMark = byte := by
  simpa using List.find?_some found

theorem ofName?_name (construct : Construct) : ofName? construct.name = some construct := by
  cases construct <;> rfl

theorem mem_all (construct : Construct) : construct ∈ all := by
  cases construct <;> decide

end Construct

/-- A delimiter opens or closes one construct. -/
inductive Delimiter where
  | opening (construct : Construct)
  | closing (construct : Construct)
  deriving DecidableEq, Repr

namespace Delimiter

def construct : Delimiter → Construct
  | opening construct => construct
  | closing construct => construct

def isOpening : Delimiter → Bool
  | opening _ => true
  | closing _ => false

def isClosing : Delimiter → Bool
  | opening _ => false
  | closing _ => true

def firstByte : Delimiter → UInt8
  | opening _ => openBrace
  | closing construct => construct.closeMark

def secondByte : Delimiter → UInt8
  | opening construct => construct.openMark
  | closing _ => closeBrace

/-- The two bytes of the delimiter as they stand in a template. -/
def bytes (delimiter : Delimiter) : List UInt8 :=
  [delimiter.firstByte, delimiter.secondByte]

/-- The delimiter as text. -/
def lexeme : Delimiter → String
  | opening .comment => "\x7b#"
  | opening .interpolation => "\x7b\x7b"
  | opening .tag => "\x7b%"
  | closing .comment => "#\x7d"
  | closing .interpolation => "\x7d\x7d"
  | closing .tag => "%\x7d"

/-- The word for the delimiter's marker. -/
def name : Delimiter → String
  | opening construct => "Open" ++ construct.name
  | closing construct => "Close" ++ construct.name

@[simp] theorem length_bytes (delimiter : Delimiter) :
    delimiter.bytes.length = delimiterLength := rfl

end Delimiter

end TemplateLexer
