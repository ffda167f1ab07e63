import TemplateLexer.Proofs.Grammar
import TemplateLexer.Proofs.Session

namespace TemplateLexer

/-- The tokens that the steps return, whatever errors are between them. -/
def returned (steps : List Step) : List Token := steps.filterMap Step.token?

theorem returned_cons (step : Step) (steps : List Step) :
    returned (step :: steps) = step.token?.toList ++ returned steps := by
  rw [returned, List.filterMap_cons]
  cases step.token? <;> rfl

/-- The tokens up to the first end, and this end. -/
def throughEnd : List Token → List Token
  | [] => []
  | token :: tokens => token :: if token.isEnd then [] else throughEnd tokens

theorem throughEnd_cons_of_isEnd {token : Token} (isEnd : token.isEnd = true)
    (tokens : List Token) : throughEnd (token :: tokens) = [token] := by
  rw [throughEnd, if_pos isEnd]

theorem throughEnd_cons {token : Token} (more : token.isEnd = false) (tokens : List Token) :
    throughEnd (token :: tokens) = token :: throughEnd tokens := by
  rw [throughEnd, more, if_neg Bool.false_ne_true]

/-- The kinds up to the first end begin a word that is expected, only ends come behind this end, and
each token has the contents that belong to its kind. -/
structure InOrder (expected : List Kind → Prop) (tokens : List Token) : Prop where
  begins : ∃ kinds, expected kinds ∧ (throughEnd tokens).map Token.kind <+: kinds
  filled : ∀ token ∈ tokens, token.FilledIfText
  ends : ∀ token ∈ tokens.drop (throughEnd tokens).length, token.isEnd = true

namespace Due

/-- What is due behind a text of the mode. -/
def Ends : Due → Mode → Prop
  | marker delimiter _, mode => mode.EndedBy delimiter
  | endOfInput, _ => True

/-- The kinds that may follow when something is due. -/
def Expects : Due → List Kind → Prop
  | marker delimiter _, kinds =>
      ∃ rest, kinds = .marker delimiter :: rest ∧ Sentence delimiter.nextMode true rest
  | endOfInput, kinds => kinds = [.endOfInput]

theorem Expects.sentence {due : Due} {mode : Mode} {kinds : List Kind} (ends : due.Ends mode)
    (expected : due.Expects kinds) : Sentence mode false kinds := by
  cases due with
  | marker delimiter position =>
      obtain ⟨rest, rfl, follows⟩ := expected
      exact .marker ends follows
  | endOfInput =>
      obtain rfl : kinds = [.endOfInput] := expected
      exact .ended

end Due

/-- A scan stops at what ends a text of its mode. -/
theorem scanFrom_ends {mode : Mode} {region : Region} {source : Source}
    {reads : Array ReadRecord} {due : Due}
    (stopped : (scanFrom mode region source reads).result = .ok due) : due.Ends mode := by
  fun_induction scanFrom mode region source reads with
  | case1 region source reads position delimiter found =>
      cases stopped
      have standing := ((Mode.find?_eq_some_iff _ _ _ _).mp found).1
      exact (Mode.standing?_eq_some_iff.mp standing).1
  | case2 =>
      cases stopped
      trivial
  | case3 => contradiction
  | case4 region source reads missing unfinished settled grown read going ih => exact ih stopped

namespace Tokenizer

/-- The kinds that may follow what a tokenizer has returned. -/
def Expects (tokenizer : Tokenizer) (kinds : List Kind) : Prop :=
  match tokenizer.phase with
  | .scanning mode _ => Sentence mode true kinds
  | .owing due => due.Expects kinds
  | .finished => kinds = [.endOfInput]

theorem exists_expects (tokenizer : Tokenizer) : ∃ kinds, tokenizer.Expects kinds := by
  match phase : tokenizer.phase with
  | .scanning mode region => exact ⟨[.endOfInput], by rw [Expects, phase]; exact .ended⟩
  | .owing .endOfInput => exact ⟨[.endOfInput], by rw [Expects, phase]; rfl⟩
  | .owing (.marker delimiter position) =>
      exact ⟨[.marker delimiter, .endOfInput], by rw [Expects, phase]; exact ⟨_, rfl, .ended⟩⟩
  | .finished => exact ⟨[.endOfInput], by rw [Expects, phase]⟩

end Tokenizer

/-- The step returns a kind that was expected, and what is expected after it may follow that kind.
A step that returns no token expects nothing that was not expected before. -/
def Step.Continues (step : Step) (expected : List Kind → Prop) : Prop :=
  match step.token? with
  | some token =>
      token.FilledIfText ∧
        (token.isEnd = true → step.after.isFinished = true ∧ expected [.endOfInput]) ∧
        (token.isEnd = false → ∀ kinds, step.after.Expects kinds → expected (token.kind :: kinds))
  | none => ∀ kinds, step.after.Expects kinds → expected kinds

theorem Step.Continues.mono {step : Step} {expected wider : List Kind → Prop}
    (continues : step.Continues expected) (included : ∀ kinds, expected kinds → wider kinds) :
    step.Continues wider := by
  unfold Step.Continues at continues ⊢
  split at continues
  · obtain ⟨filled, last, others⟩ := continues
    refine ⟨filled, ?_, ?_⟩
    · intro isEnd
      exact ⟨(last isEnd).1, included _ (last isEnd).2⟩
    · intro more kinds follows
      exact included _ (others more kinds follows)
  · intro kinds follows
    exact included kinds (continues kinds follows)

namespace Tokenizer

theorem continues_pay (source : Source) (due : Due) (events : List Event) :
    (returning (pay source due).1 events (pay source due).2).Continues due.Expects := by
  cases due with
  | marker delimiter position =>
      refine ⟨filledIfText_bare Kind.noConfusion _, Bool.noConfusion, ?_⟩
      intro _ kinds follows
      exact ⟨kinds, rfl, follows⟩
  | endOfInput =>
      exact ⟨filledIfText_bare Kind.noConfusion _, fun _ => ⟨rfl, rfl⟩, Bool.noConfusion⟩

/-- A flush returns the text or what is due behind it, and nothing but the end follows malformed
text. -/
theorem continues_flush {due : Due} {mode : Mode} (ends : due.Ends mode) (region : Region)
    (events : List Event) (source : Source) :
    (flush region due events source).Continues (Sentence mode true) := by
  have behind (kinds : List Kind) (expected : due.Expects kinds) : Sentence mode false kinds :=
    expected.sentence ends
  simp only [flush]
  split
  · exact (continues_pay source due events).mono fun kinds expected =>
      (behind kinds expected).of_behindText
  · next filled =>
      split
      · next contents read =>
          refine ⟨iff_of_true rfl ?_, Bool.noConfusion, ?_⟩
          · rintro rfl
            have nothing : region.bytes.toList = [] := (Utf8.decode_eq_ok_iff.mp read).symm
            exact filled (by simpa [Region.isEmpty] using nothing)
          · intro _ kinds expected
            exact .text (behind kinds expected)
      · rintro kinds rfl
        exact .ended

/-- Each call returns what is expected. -/
theorem continues_next (tokenizer : Tokenizer) :
    tokenizer.next.Continues tokenizer.Expects := by
  match phase : tokenizer.phase with
  | .finished =>
      have expected : tokenizer.Expects [.endOfInput] := by rw [Expects, phase]
      have finished : tokenizer.isFinished = true := by rw [isFinished, phase]; rfl
      simp only [next, phase]
      exact ⟨filledIfText_bare Kind.noConfusion _, fun _ => ⟨finished, expected⟩,
        Bool.noConfusion⟩
  | .owing due =>
      simp only [next, phase]
      refine (continues_pay tokenizer.source due []).mono ?_
      intro kinds expected
      rw [Expects, phase]
      exact expected
  | .scanning mode region =>
      have wider (kinds : List Kind) (follows : Sentence mode true kinds) :
          tokenizer.Expects kinds := by
        rw [Expects, phase]
        exact follows
      simp only [next, phase]
      split
      · next due stopped => exact (continues_flush (scanFrom_ends stopped) _ _ _).mono wider
      · exact wider

/-- Once a tokenizer has finished, every call returns the end or nothing. -/
theorem returned_of_isFinished {tokenizer : Tokenizer} (finished : tokenizer.isFinished = true)
    (calls : List Call) :
    ∀ token ∈ returned (tokenizer.session calls), token.isEnd = true ∧ token.FilledIfText := by
  have phase : tokenizer.phase = .finished := eq_of_beq finished
  induction calls with
  | nil => nofun
  | cons call calls ih =>
      rw [session]
      split
      · next step answered =>
          obtain rfl := eq_next_of_answer? answered
          have same : tokenizer.next =
              returning (.endOfInput tokenizer.source.offset) [] tokenizer := by
            simp only [next, phase]
          rw [same]
          intro token member
          rcases List.mem_cons.mp member with rfl | later
          · exact ⟨rfl, filledIfText_bare Kind.noConfusion _⟩
          · exact ih token later
      · exact ih

/-- A step goes before tokens that are in the order that is expected after it. -/
theorem inOrder_cons {step : Step} {expected : List Kind → Prop} {calls : List Call}
    (continues : step.Continues expected)
    (rest : InOrder step.after.Expects (returned (step.after.session calls))) :
    InOrder expected (step.token?.toList ++ returned (step.after.session calls)) := by
  obtain ⟨⟨kinds, follows, begins⟩, filled, ends⟩ := rest
  unfold Step.Continues at continues
  split at continues
  · next token answer =>
      obtain ⟨fits, last, others⟩ := continues
      have allFilled := List.forall_mem_cons.mpr ⟨fits, filled⟩
      rw [answer, Option.toList_some, List.singleton_append]
      cases isEnd : token.isEnd with
      | true =>
          obtain ⟨finished, expects⟩ := last isEnd
          have ended := returned_of_isFinished finished calls
          refine ⟨⟨_, expects, ?_⟩, allFilled, ?_⟩
          · rw [throughEnd_cons_of_isEnd isEnd, List.map_singleton, eq_of_beq isEnd]
          · rw [throughEnd_cons_of_isEnd isEnd]
            exact fun token later => (ended token later).1
      | false =>
          refine ⟨⟨_, others isEnd kinds follows, ?_⟩, allFilled, ?_⟩
          · rw [throughEnd_cons isEnd]
            exact List.cons_prefix_cons.mpr ⟨rfl, begins⟩
          · rw [throughEnd_cons isEnd]
            exact ends
  · next silent =>
      rw [silent]
      exact ⟨⟨kinds, continues kinds follows, begins⟩, filled, ends⟩

/-- Whatever calls are made, tokens are returned in the expected order. -/
theorem session_inOrder (tokenizer : Tokenizer) (calls : List Call) :
    InOrder tokenizer.Expects (returned (tokenizer.session calls)) := by
  induction calls generalizing tokenizer with
  | nil =>
      obtain ⟨kinds, expected⟩ := tokenizer.exists_expects
      exact ⟨⟨kinds, expected, List.nil_prefix⟩, nofun, nofun⟩
  | cons call calls ih =>
      rw [session]
      split
      · next step answered =>
          obtain rfl := eq_next_of_answer? answered
          rw [returned_cons]
          exact inOrder_cons tokenizer.continues_next (ih tokenizer.next.after)
      · exact ih tokenizer

/-- Whatever the reader, the capacity and the calls are, the kinds of the tokens up to the first end
begin a sentence, and only ends come behind it. Text has contents, and nothing else has. So each
marker ends the text of the mode in which it stands, and no text stands next to another. -/
theorem session_sentence (reader : Reader) (capacity : Capacity) (calls : List Call) :
    let tokens := returned ((ofReader reader capacity).session calls)
    let kinds := (throughEnd tokens).map Token.kind
    (∃ word ∈ sentence.matches', kinds <+: word) ∧
      (∀ token ∈ tokens, token.kind = .text ↔ token.contents ≠ "") ∧
      (∀ token ∈ tokens.drop (throughEnd tokens).length, token.isEnd = true) ∧
      (∀ front delimiter behind, kinds = front ++ .marker delimiter :: behind →
        (Mode.literal.after front).EndedBy delimiter) ∧
      ∀ front behind, kinds ≠ front ++ .text :: .text :: behind := by
  intro tokens kinds
  obtain ⟨⟨word, expected, begins⟩, filled, ends⟩ :=
    session_inOrder (ofReader reader capacity) calls
  have order : Sentence .literal true word := expected
  have front : kinds <+: word := begins
  obtain ⟨rest, whole⟩ := front
  refine ⟨⟨word, mem_sentence_iff.mpr order, begins⟩, filled, ends, ?_, ?_⟩
  · intro front delimiter behind split
    refine order.endedBy_of_marker front delimiter (behind ++ rest) ?_
    rw [← whole, split, List.append_assoc, List.cons_append]
  · intro front behind split
    refine order.ne_text_text front (behind ++ rest) ?_
    rw [← whole, split, List.append_assoc, List.cons_append, List.cons_append]

end Tokenizer

end TemplateLexer
