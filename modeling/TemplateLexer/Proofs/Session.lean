import TemplateLexer.Proofs.Outlook

namespace TemplateLexer

/-- A caller asks for the next token in any case, or only if the tokenizer has not finished. -/
inductive Call where
  | nextToken
  | next
  deriving DecidableEq, Repr

/-- The token that the step returns. -/
def Step.token? (step : Step) : Option Token := step.result.toOption

/-- The tokens that the steps return, as long as they meet no malformed text. -/
def tokensOf (steps : List Step) : List Token :=
  (steps.takeWhile fun step => !step.isMalformed).filterMap Step.token?

theorem tokensOf_cons {step : Step} (fine : step.isMalformed = false) (steps : List Step) :
    tokensOf (step :: steps) = step.token?.toList ++ tokensOf steps := by
  rw [tokensOf, List.takeWhile_cons_of_pos (by rw [fine]; rfl), List.filterMap_cons]
  cases step.token? <;> rfl

theorem tokensOf_cons_of_malformed {step : Step} (malformed : step.isMalformed = true)
    (steps : List Step) : tokensOf (step :: steps) = [] := by
  rw [tokensOf, List.takeWhile_cons_of_neg (by rw [malformed]; decide), List.filterMap_nil]

namespace Tokenizer

/-- The step that answers a call, if it makes one. -/
def answer? (tokenizer : Tokenizer) : Call → Option Step
  | .nextToken => some tokenizer.next
  | .next => tokenizer.next?

/-- The steps that a sequence of calls makes. -/
def session (tokenizer : Tokenizer) : List Call → List Step
  | [] => []
  | call :: calls =>
      match tokenizer.answer? call with
      | some step => step :: step.after.session calls
      | none => tokenizer.session calls

/-- Whatever the call is, it is answered by the next step. -/
theorem eq_next_of_answer? {tokenizer : Tokenizer} {call : Call} {step : Step}
    (answered : tokenizer.answer? call = some step) : step = tokenizer.next := by
  cases call with
  | nextToken => exact (Option.some.inj answered).symm
  | next =>
      simp only [answer?, next?] at answered
      split at answered
      · contradiction
      · exact (Option.some.inj answered).symm

/-- The tokenizer behind a sequence of calls. -/
def afterCalls (tokenizer : Tokenizer) : List Call → Tokenizer
  | [] => tokenizer
  | call :: calls =>
      match tokenizer.answer? call with
      | some step => step.after.afterCalls calls
      | none => tokenizer.afterCalls calls

/-- What holds of the steps made so far and of the tokenizer behind them holds behind any calls, if
it still holds behind one more step. -/
theorem session_induction {motive : List Step → Tokenizer → Prop}
    (step : ∀ past tokenizer, motive past tokenizer →
      motive (past ++ [tokenizer.next]) tokenizer.next.after)
    {past : List Step} {tokenizer : Tokenizer} (start : motive past tokenizer)
    (calls : List Call) :
    motive (past ++ tokenizer.session calls) (tokenizer.afterCalls calls) := by
  induction calls generalizing past tokenizer with
  | nil =>
      rw [session, List.append_nil]
      exact start
  | cons call calls ih =>
      rw [session, afterCalls]
      split
      · next made answered =>
          obtain rfl := eq_next_of_answer? answered
          simpa using ih (step past tokenizer start)
      · exact ih start

theorem collectFrom_eq_ok_iff {tokenizer : Tokenizer} {front : Array Token} {events : Array Event}
    {tokens : List Token} :
    (tokenizer.collectFrom front events).result = .ok tokens ↔
      ∃ others, tokens = front.toList ++ others ∧
        tokenizer.run.map Step.result = others.map .ok := by
  fun_induction collectFrom tokenizer front events with
  | case1 tokenizer front events stopped =>
      rw [run_of_isFinished (next?_eq_none_iff.mp stopped)]
      constructor
      · intro same
        exact ⟨[], by simpa using (Except.ok.inj same).symm, rfl⟩
      · rintro ⟨others, rfl, nothing⟩
        rw [List.map_eq_nil_iff.mp nothing.symm, List.append_nil]
  | case2 tokenizer front events step stepped token returned ih =>
      obtain ⟨running, rfl⟩ := next?_eq_some_iff.mp stepped
      rw [ih, run_of_running running, List.map_cons, returned]
      constructor
      · rintro ⟨others, rfl, same⟩
        exact ⟨token :: others, by simp, by rw [same, List.map_cons]⟩
      · rintro ⟨others, rfl, same⟩
        cases others with
        | nil => contradiction
        | cons first others =>
            rw [List.map_cons, List.cons.injEq, Except.ok.injEq] at same
            obtain ⟨rfl, same⟩ := same
            exact ⟨others, by simp, same⟩
  | case3 tokenizer front events step stepped error failed =>
      obtain ⟨running, rfl⟩ := next?_eq_some_iff.mp stepped
      rw [run_of_running running, List.map_cons, failed]
      constructor
      · intro same
        contradiction
      · rintro ⟨others, -, same⟩
        cases others <;> simp at same

/-- Tokens are collected if and only if the run returns nothing else. -/
theorem collect_eq_ok_iff {tokenizer : Tokenizer} {tokens : List Token} :
    tokenizer.collect.result = .ok tokens ↔ tokenizer.run.map Step.result = tokens.map .ok := by
  rw [collect, collectFrom_eq_ok_iff]
  constructor
  · rintro ⟨others, rfl, same⟩
    simpa using same
  · intro same
    exact ⟨tokens, by simp, same⟩

end Tokenizer

end TemplateLexer
