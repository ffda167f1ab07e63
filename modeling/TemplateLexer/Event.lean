import TemplateLexer.Source
import TemplateLexer.Value

namespace TemplateLexer

/-- A tokenizer reads, notices that a construct is not closed at the end, and returns tokens. -/
inductive Event where
  | read (record : ReadRecord)
  | unterminated (construct : Construct) (offset : Nat)
  | token (kind : Kind) (span : Span)
  deriving DecidableEq, Repr

/-- A report has a level, a message, and the fields that belong to the message. -/
structure Report where
  level : String
  message : String
  fields : List (String × Value)

/-- Interrupted and failed reads are not reported. -/
def Event.report? : Event → Option Report
  | read ⟨offset, _, .bytes []⟩ =>
      some ⟨"TRACE", "source exhausted", [("offset", .natural offset)]⟩
  | read ⟨offset, _, .bytes (byte :: data)⟩ =>
      some ⟨"TRACE", "source refilled",
        [("offset", .natural offset), ("bytes", .natural (byte :: data).length)]⟩
  | read _ => none
  | unterminated construct offset =>
      some ⟨"DEBUG", "unterminated construct",
        [("construct", construct.toValue), ("offset", .natural offset)]⟩
  | token kind span =>
      some ⟨"TRACE", "token", [("kind", kind.toValue), ("span", .string span.render)]⟩

/-- A read that delivers bytes is reported with its offset and with their number. -/
theorem Event.report?_of_bytes {record : ReadRecord} {data : List UInt8}
    (delivered : record.delivery = .bytes data) (filled : data ≠ []) :
    (read record).report? =
      some ⟨"TRACE", "source refilled",
        [("offset", .natural record.offset), ("bytes", .natural data.length)]⟩ := by
  obtain ⟨offset, room, delivery⟩ := record
  cases delivered
  cases data with
  | nil => contradiction
  | cons byte data => rfl

/-- A read that meets the end is reported with its offset. -/
theorem Event.report?_of_end {record : ReadRecord} (met : record.delivery = .bytes []) :
    (read record).report? =
      some ⟨"TRACE", "source exhausted", [("offset", .natural record.offset)]⟩ := by
  obtain ⟨offset, room, delivery⟩ := record
  cases met
  rfl

/-- The message for a read that meets the end. -/
theorem Event.message_of_end {record : ReadRecord} (met : record.delivery = .bytes []) :
    (read record).report?.map Report.message = some "source exhausted" :=
  congrArg (Option.map Report.message) (report?_of_end met)

end TemplateLexer
