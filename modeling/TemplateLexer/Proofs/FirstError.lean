import TemplateLexer.Proofs.Failures
import TemplateLexer.Proofs.Session
import TemplateLexer.Proofs.TranscriptLines

namespace TemplateLexer

/-- The error that the step returns. -/
def Step.error? (step : Step) : Option TokenizeError :=
  match step.result with
  | .error error => some error
  | .ok _ => none

/-- The steps up to the first that returns an error, and this one. -/
def throughError : List Step → List Step
  | [] => []
  | step :: steps => step :: if step.error?.isSome then [] else throughError steps

theorem throughError_cons_of_ok {step : Step} {token : Token} (returned : step.result = .ok token)
    (steps : List Step) : throughError (step :: steps) = step :: throughError steps := by
  rw [throughError, Step.error?, returned, Option.isSome_none, if_neg Bool.false_ne_true]

theorem throughError_cons_of_error {step : Step} {error : TokenizeError}
    (failed : step.result = .error error) (steps : List Step) :
    throughError (step :: steps) = [step] := by
  rw [throughError, Step.error?, failed, Option.isSome_some, if_pos rfl]

namespace Tokenizer

variable {tokenizer : Tokenizer}

theorem collectFrom_eq_error_iff {front : Array Token} {events : Array Event}
    {error : TokenizeError} :
    (tokenizer.collectFrom front events).result = .error error ↔
      tokenizer.run.findSome? Step.error? = some error := by
  fun_induction collectFrom tokenizer front events with
  | case1 tokenizer front events stopped =>
      rw [run_of_isFinished (next?_eq_none_iff.mp stopped)]
      simp
  | case2 tokenizer front events step stepped token returned ih =>
      obtain ⟨running, rfl⟩ := next?_eq_some_iff.mp stepped
      have fine : tokenizer.next.error? = none := by rw [Step.error?, returned]
      rw [ih, run_of_running running, List.findSome?_cons_of_isNone (by rw [fine]; rfl)]
  | case3 tokenizer front events step stepped error' failed =>
      obtain ⟨running, rfl⟩ := next?_eq_some_iff.mp stepped
      have first : tokenizer.next.error? = some error' := by rw [Step.error?, failed]
      rw [run_of_running running, List.findSome?_cons_of_isSome (by rw [first]; rfl), first,
        Option.some.injEq, Except.error.injEq]

theorem events_collectFrom (tokenizer : Tokenizer) (front : Array Token) (events : Array Event) :
    (tokenizer.collectFrom front events).events =
      events.toList ++ (throughError tokenizer.run).flatMap Step.events := by
  fun_induction collectFrom tokenizer front events with
  | case1 tokenizer front events stopped =>
      rw [run_of_isFinished (next?_eq_none_iff.mp stopped), throughError, List.flatMap_nil,
        List.append_nil]
  | case2 tokenizer front events step stepped token returned ih =>
      obtain ⟨running, rfl⟩ := next?_eq_some_iff.mp stepped
      rw [ih, run_of_running running, throughError_cons_of_ok returned, List.flatMap_cons,
        Array.toList_appendList, List.append_assoc]
  | case3 tokenizer front events step stepped error failed =>
      obtain ⟨running, rfl⟩ := next?_eq_some_iff.mp stepped
      rw [run_of_running running, throughError_cons_of_error failed, List.flatMap_singleton,
        Array.toList_appendList]

/-- Collecting fails if and only if the run returns an error, with the first one. -/
theorem collect_eq_error_iff {error : TokenizeError} :
    tokenizer.collect.result = .error error ↔
      tokenizer.run.findSome? Step.error? = some error := collectFrom_eq_error_iff

/-- Collecting makes the steps of the run up to its first error. -/
theorem events_collect (tokenizer : Tokenizer) :
    tokenizer.collect.events = (throughError tokenizer.run).flatMap Step.events :=
  events_collectFrom tokenizer #[] #[]

end Tokenizer

namespace Transcript

/-- Tokens are shown as they are collected, with the same events and up to the same place. -/
theorem ofTokenizer_eq (tokenizer : Tokenizer) :
    ofTokenizer tokenizer =
      ⟨tokenizer.collect.result.map ofTokens, tokenizer.collect.events, tokenizer.collect.after⟩ :=
  ofTokenizerFrom_eq tokenizer #[] #[]

/-- Whatever the reader is, its transcript is the one of its tokens, or the error that its tokens
are given up for: the first error of the run, if there is one. Both make the steps of the run up to
this error, and so the same reads, and leave the tokenizer in the same place. -/
theorem ofReader_agrees (reader : Reader) :
    let tokenizer := Tokenizer.ofReader reader .standard
    let shown := ofTokenizer tokenizer
    let collected := tokenizer.collect
    (∀ lines, ofReader reader = .ok lines ↔
        ∃ tokens, tokenize reader = .ok tokens ∧ lines = ofTokens tokens) ∧
      (∀ error, ofReader reader = .error error ↔ tokenize reader = .error error) ∧
      (∀ tokens, tokenize reader = .ok tokens ↔
        tokenizer.run.map Step.result = tokens.map .ok) ∧
      (∀ error, tokenize reader = .error error ↔
        tokenizer.run.findSome? Step.error? = some error) ∧
      shown.events = collected.events ∧
      shown.events.filterMap Event.read? = (throughError tokenizer.run).flatMap Step.reads ∧
      shown.after = collected.after := by
  intro tokenizer shown collected
  have same : shown = ⟨collected.result.map ofTokens, collected.events, collected.after⟩ :=
    ofTokenizer_eq tokenizer
  refine ⟨?_, ?_, fun _ => Tokenizer.collect_eq_ok_iff,
    fun _ => Tokenizer.collect_eq_error_iff, ?_, ?_, ?_⟩
  · intro lines
    rw [ofReader_eq]
    cases tokenize reader with
    | ok tokens =>
        constructor
        · rintro ⟨⟩
          exact ⟨tokens, rfl, rfl⟩
        · rintro ⟨_, ⟨⟩, rfl⟩
          rfl
    | error error =>
        simp [Except.map]
  · intro error
    rw [ofReader_eq]
    cases tokenize reader with
    | ok tokens => simp [Except.map]
    | error error' => rw [Except.map, Except.error.injEq, Except.error.injEq]
  · rw [same]
  · rw [same, Tokenizer.events_collect]
    exact List.filterMap_flatMap
  · rw [same]

end Transcript

end TemplateLexer
