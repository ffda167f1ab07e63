import TemplateLexer.Tokenizer

namespace TemplateLexer

namespace Tokenizer

/-- The most results that the tokenizer can still return before it finishes. -/
def resultsLeft (tokenizer : Tokenizer) : Nat :=
  match tokenizer.phase with
  | .scanning _ region => 1 + region.size + tokenizer.source.ahead
  | .owing due => 1 + due.length + tokenizer.source.ahead
  | .finished => 0

theorem resultsLeft_pay (source : Source) (due : Due) :
    (pay source due).2.resultsLeft < 1 + due.length + source.ahead := by
  cases due with
  | marker delimiter position =>
      simp only [pay, resultsLeft, Region.emptyAt, Region.size, Array.size_empty, Due.length,
        delimiterLength]
      omega
  | endOfInput =>
      simp only [pay, resultsLeft]
      omega

theorem resultsLeft_flush (region : Region) (due : Due) (events : List Event) (source : Source) :
    (flush region due events source).after.resultsLeft <
      1 + region.size + due.length + source.ahead := by
  simp only [flush]
  split
  · have paid := resultsLeft_pay source due
    simp only [returning]
    omega
  · next filled =>
      have positive := Region.size_pos (Bool.eq_false_iff.mpr filled)
      split
      · simp only [returning, resultsLeft]
        omega
      · simp only [resultsLeft]
        omega

theorem resultsLeft_next {tokenizer : Tokenizer} (running : tokenizer.isFinished = false) :
    tokenizer.next.after.resultsLeft < tokenizer.resultsLeft := by
  match phase : tokenizer.phase with
  | .finished => simp [isFinished, phase] at running
  | .owing due =>
      simp only [next, phase, returning, resultsLeft]
      exact resultsLeft_pay tokenizer.source due
  | .scanning mode region =>
      have account := ahead_scanFrom_le mode region tokenizer.source #[]
      simp only [next, phase]
      split
      · next due found =>
          have flushed := resultsLeft_flush
            (scanFrom mode region tokenizer.source #[]).region due
            ((scanFrom mode region tokenizer.source #[]).reads.toList.map .read ++
              due.diagnosis mode (scanFrom mode region tokenizer.source #[]).after.offset)
            (scanFrom mode region tokenizer.source #[]).after
          simp only [Scan.taken, found] at account
          simp only [resultsLeft, phase] at flushed ⊢
          omega
      · next failure failed =>
          simp only [Scan.taken, failed] at account
          simp only [resultsLeft, phase]
          omega

theorem resultsLeft_next? {tokenizer : Tokenizer} {step : Step}
    (stepped : tokenizer.next? = some step) :
    step.after.resultsLeft < tokenizer.resultsLeft := by
  simp only [next?] at stepped
  split at stepped
  · contradiction
  · next running =>
      cases stepped
      exact resultsLeft_next (Bool.eq_false_iff.mpr running)

/-- All steps up to the end; a failed read does not end the run. -/
def run (tokenizer : Tokenizer) : List Step :=
  match _stepped : tokenizer.next? with
  | none => []
  | some step => step :: step.after.run
  termination_by tokenizer.resultsLeft
  decreasing_by exact resultsLeft_next? _stepped

end Tokenizer

/-- The rest of the tokens of a tokenizer, or its first error, and the tokenizer after it. -/
structure Collection where
  result : Except TokenizeError (List Token)
  events : List Event
  after : Tokenizer

namespace Tokenizer

def collectFrom (tokenizer : Tokenizer) (tokens : Array Token) (events : Array Event) :
    Collection :=
  match _stepped : tokenizer.next? with
  | none => ⟨.ok tokens.toList, events.toList, tokenizer⟩
  | some step =>
      match step.result with
      | .ok token => collectFrom step.after (tokens.push token) (events ++ step.events)
      | .error error => ⟨.error error, (events ++ step.events).toList, step.after⟩
  termination_by tokenizer.resultsLeft
  decreasing_by exact resultsLeft_next? _stepped

/-- The tokens up to the end or to the first error. -/
def collect (tokenizer : Tokenizer) : Collection := tokenizer.collectFrom #[] #[]

end Tokenizer

/-- The tokens of all that a reader hands out. -/
def tokenize (reader : Reader) : Except TokenizeError (List Token) :=
  (Tokenizer.ofReader reader .standard).collect.result

/-- The tokens of a text. -/
def tokenizeString (text : String) : Except TokenizeError (List Token) :=
  tokenize (.ofString text)

end TemplateLexer
