import TemplateLexer.Run

namespace TemplateLexer

namespace Transcript

/-- A line shows one token and ends with a newline. -/
def line (token : Token) : String := token.render ++ "\n"

def ofTokens (tokens : List Token) : String :=
  tokens.foldl (fun lines token => lines ++ line token) ""

/-- The transcript of the rest of a tokenizer's tokens, or its first error. -/
structure Outcome where
  result : Except TokenizeError String
  events : List Event
  after : Tokenizer

/-- Each token is shown as soon as it is returned. -/
def ofTokenizerFrom (tokenizer : Tokenizer) (lines : String) (events : Array Event) : Outcome :=
  match _stepped : tokenizer.next? with
  | none => ⟨.ok lines, events.toList, tokenizer⟩
  | some step =>
      match step.result with
      | .ok token => ofTokenizerFrom step.after (lines ++ line token) (events ++ step.events)
      | .error error => ⟨.error error, (events ++ step.events).toList, step.after⟩
  termination_by tokenizer.resultsLeft
  decreasing_by exact Tokenizer.resultsLeft_next? _stepped

def ofTokenizer (tokenizer : Tokenizer) : Outcome := ofTokenizerFrom tokenizer "" #[]

/-- The transcript of all that a reader hands out. -/
def ofReader (reader : Reader) : Except TokenizeError String :=
  (ofTokenizer (.ofReader reader .standard)).result

end Transcript

/-- The source text of all tokens, one behind the other. -/
def reconstruct (tokens : List Token) : String :=
  tokens.foldl (fun source token => source ++ token.sourceText) ""

end TemplateLexer
