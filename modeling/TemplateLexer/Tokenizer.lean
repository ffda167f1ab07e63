import TemplateLexer.Event
import TemplateLexer.Mode

namespace TemplateLexer

/-- A region is text that has been read but not yet returned. -/
structure Region where
  start : Nat
  bytes : Array UInt8
  deriving DecidableEq, Repr

namespace Region

def emptyAt (start : Nat) : Region := ⟨start, #[]⟩

def append (region : Region) (bytes : List UInt8) : Region :=
  { region with bytes := region.bytes ++ bytes }

def size (region : Region) : Nat := region.bytes.size

/-- The bytes of the region in the template. -/
def span (region : Region) : Span := ⟨region.start, region.start + region.size⟩

def isEmpty (region : Region) : Bool := region.bytes.isEmpty

@[simp] theorem size_append (region : Region) (bytes : List UInt8) :
    (region.append bytes).size = region.size + bytes.length := by
  simp [append, size, ← Array.length_toList]

theorem size_pos {region : Region} (filled : region.isEmpty = false) : 0 < region.size := by
  simpa [isEmpty, size, Array.size_pos_iff] using filled

end Region

/-- What follows a region: a delimiter at a position, or the end of the input. -/
inductive Due where
  | marker (delimiter : Delimiter) (position : Nat)
  | endOfInput
  deriving DecidableEq, Repr

namespace Due

/-- The number of bytes that were read of what is due. -/
def length : Due → Nat
  | marker _ _ => delimiterLength
  | endOfInput => 0

/-- An end that is due inside a construct is reported. -/
def diagnosis (due : Due) (mode : Mode) (offset : Nat) : List Event :=
  match mode, due with
  | .inside construct, endOfInput => [.unterminated construct offset]
  | _, _ => []

end Due

/-- Between two calls a tokenizer is within a region, owes what is due, or has finished. -/
inductive Phase where
  | scanning (mode : Mode) (region : Region)
  | owing (due : Due)
  | finished
  deriving DecidableEq, Repr

/-- A tokenizer reads its source forward only. -/
structure Tokenizer where
  source : Source
  phase : Phase

/-- One call returns a token or an error, and reports events on the way. -/
structure Step where
  result : Except TokenizeError Token
  events : List Event
  after : Tokenizer

/-- A scan stops at what is due, or at a failed read. -/
structure Scan where
  result : Except Failure Due
  region : Region
  reads : Array ReadRecord
  after : Source

/-- The region grows until a delimiter of the mode stands in the unread bytes or the source ends.
A read is made only if neither is the case, and only settled bytes leave the buffer before it. -/
def scanFrom (mode : Mode) (region : Region) (source : Source) (reads : Array ReadRecord) : Scan :=
  match mode.find? source.unread with
  | some (position, delimiter) =>
      ⟨.ok (.marker delimiter (source.offset + position)),
        region.append (source.unread.take position), reads,
        source.advance (position + delimiterLength)⟩
  | none =>
      if _ended : source.exhausted = true then
        ⟨.ok .endOfInput, region.append source.unread, reads,
          source.advance source.unread.length⟩
      else
        let settled := mode.settledLength source.unread
        let grown := region.append (source.unread.take settled)
        let read := (source.advance settled).refill
        match read.1.delivery with
        | .failure failure => ⟨.error failure, grown, reads.push read.1, read.2⟩
        | _ => scanFrom mode grown read.2 (reads.push read.1)
  termination_by source.readsLeft
  decreasing_by
    exact Source.readsLeft_refill (Bool.eq_false_iff.mpr _ended)

/-- What a scan has taken besides the text of its region. -/
def Scan.taken (scan : Scan) : Nat :=
  match scan.result with
  | .ok due => due.length
  | .error _ => 1

/-- A scan moves text to its region, and takes a delimiter or a failure besides. -/
theorem ahead_scanFrom_le (mode : Mode) (region : Region) (source : Source)
    (reads : Array ReadRecord) :
    (scanFrom mode region source reads).after.ahead +
        (scanFrom mode region source reads).region.size +
        (scanFrom mode region source reads).taken ≤ source.ahead + region.size := by
  fun_induction scanFrom mode region source reads with
  | case1 region source reads position delimiter found =>
      have within := Mode.find?_within found
      have counted := Source.ahead_advance within
      simp only [Scan.taken, Due.length, Region.size_append, List.length_take]
      omega
  | case2 region source reads missing ended =>
      have counted := Source.ahead_advance (Nat.le_refl source.unread.length)
      simp only [Scan.taken, Due.length, Region.size_append]
      omega
  | case3 region source reads missing unfinished settled grown read failure failed =>
      have within : settled ≤ source.unread.length := mode.settledLength_le source.unread
      have counted := Source.ahead_advance within
      have taken : read.2.ahead + 1 = (source.advance settled).ahead :=
        Source.ahead_refill_of_failure (by simpa using unfinished) failed
      simp only [Scan.taken, grown, Region.size_append, List.length_take]
      omega
  | case4 region source reads missing unfinished settled grown read going ih =>
      have within : settled ≤ source.unread.length := mode.settledLength_le source.unread
      have counted := Source.ahead_advance within
      have taken : read.2.ahead ≤ (source.advance settled).ahead :=
        Source.ahead_refill_le (by simpa using unfinished)
      have size : grown.size = region.size + settled := by
        simp only [grown, Region.size_append, List.length_take, Nat.min_eq_left within]
      omega

namespace Tokenizer

def ofSource (source : Source) : Tokenizer :=
  ⟨source, .scanning .literal (.emptyAt source.offset)⟩

def ofReader (reader : Reader) (capacity : Capacity) : Tokenizer :=
  ofSource (.ofReader reader capacity)

/-- The reader is given back; bytes that were read but not returned are lost. -/
def intoReader (tokenizer : Tokenizer) : Reader := tokenizer.source.reader

def isFinished (tokenizer : Tokenizer) : Bool := tokenizer.phase == .finished

/-- The token for what is due, and the tokenizer after it. -/
def pay (source : Source) : Due → Token × Tokenizer
  | .marker delimiter position =>
      (.marker delimiter position,
        ⟨source, .scanning delimiter.nextMode (.emptyAt source.offset)⟩)
  | .endOfInput => (.endOfInput source.offset, ⟨source, .finished⟩)

/-- A token is returned after the events that led to it. -/
def returning (token : Token) (events : List Event) (after : Tokenizer) : Step :=
  ⟨.ok token, events ++ [.token token.kind token.span], after⟩

/-- The region is returned if it holds text, and otherwise what is due. -/
def flush (region : Region) (due : Due) (events : List Event) (source : Source) : Step :=
  if region.isEmpty then
    let paid := pay source due
    returning paid.1 events paid.2
  else
    match Utf8.decode region.bytes.toList with
    | .ok contents => returning (.text contents region.span) events ⟨source, .owing due⟩
    | .error fault =>
        ⟨.error (.malformedText region.start region.bytes.toList fault), events,
          ⟨source, .finished⟩⟩

/-- The next token. A failed read leaves the tokenizer within its region, so that the next call
reads on; after the end every call returns the end again. -/
def next (tokenizer : Tokenizer) : Step :=
  match tokenizer.phase with
  | .scanning mode region =>
      let scan := scanFrom mode region tokenizer.source #[]
      let reads := scan.reads.toList.map .read
      match scan.result with
      | .ok due =>
          flush scan.region due (reads ++ due.diagnosis mode scan.after.offset) scan.after
      | .error failure =>
          ⟨.error (.readFailed scan.after.offset failure), reads,
            ⟨scan.after, .scanning mode scan.region⟩⟩
  | .owing due =>
      let paid := pay tokenizer.source due
      returning paid.1 [] paid.2
  | .finished => returning (.endOfInput tokenizer.source.offset) [] tokenizer

/-- The next step, unless the tokenizer has finished. -/
def next? (tokenizer : Tokenizer) : Option Step :=
  if tokenizer.isFinished then none else some tokenizer.next

end Tokenizer

end TemplateLexer
