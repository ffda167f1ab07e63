import TemplateLexer.Proofs.Session
import TemplateLexer.Transcript

namespace TemplateLexer

/-- The tokens tile the template from one position to another. -/
inductive Tiles (template : List UInt8) : Nat → Nat → List Token → Prop where
  | nil {position : Nat} (inside : position ≤ template.length) :
      Tiles template position position []
  | cons {token : Token} {stop : Nat} {tokens : List Token}
      (ordered : token.span.start ≤ token.span.stop)
      (text : Utf8.encode token.sourceText = template.extract token.span.start token.span.stop)
      (rest : Tiles template token.span.stop stop tokens) :
      Tiles template token.span.start stop (token :: tokens)

namespace Tiles

variable {template : List UInt8} {start stop : Nat} {tokens : List Token}

theorem bounds (tiles : Tiles template start stop tokens) :
    start ≤ stop ∧ stop ≤ template.length := by
  induction tiles with
  | nil inside => exact ⟨Nat.le_refl _, inside⟩
  | cons ordered text rest ih => exact ⟨Nat.le_trans ordered ih.1, ih.2⟩

/-- Every token of a tiling lies between its bounds. -/
theorem span_bounds (tiles : Tiles template start stop tokens) {token : Token}
    (member : token ∈ tokens) : start ≤ token.span.start ∧ token.span.stop ≤ stop := by
  induction tiles with
  | nil => contradiction
  | cons ordered text rest ih =>
      rcases List.mem_cons.mp member with rfl | later
      · exact ⟨Nat.le_refl _, rest.bounds.1⟩
      · obtain ⟨above, below⟩ := ih later
        exact ⟨Nat.le_trans ordered above, below⟩

/-- The source texts of a tiling are what stands between its bounds. -/
theorem flatMap_encode (tiles : Tiles template start stop tokens) :
    tokens.flatMap (fun token => Utf8.encode token.sourceText) = template.extract start stop := by
  induction tiles with
  | nil => exact (extract_self template _).symm
  | @cons token stop tokens ordered text rest ih =>
      rw [List.flatMap_cons, text, ih, extract_append_extract ordered rest.bounds.1]

/-- A token goes before a tiling that begins where its span stops. -/
theorem cons_of_span {token : Token} {middle : Nat} (place : token.span = ⟨start, middle⟩)
    (ordered : start ≤ middle)
    (text : Utf8.encode token.sourceText = template.extract start middle)
    (rest : Tiles template middle stop tokens) : Tiles template start stop (token :: tokens) := by
  obtain ⟨kind, contents, span⟩ := token
  obtain rfl : span = ⟨start, middle⟩ := place
  exact .cons ordered text rest

end Tiles

theorem encode_foldl_sourceText (tokens : List Token) (source : String) :
    Utf8.encode (tokens.foldl (fun source token => source ++ token.sourceText) source) =
      Utf8.encode source ++ tokens.flatMap fun token => Utf8.encode token.sourceText := by
  induction tokens generalizing source with
  | nil => simp
  | cons token tokens ih =>
      rw [List.foldl_cons, ih, Utf8.encode_append, List.flatMap_cons, List.append_assoc]

/-- The source that is put together has the bytes of the source texts, one behind the other. -/
theorem encode_reconstruct (tokens : List Token) :
    Utf8.encode (reconstruct tokens) =
      tokens.flatMap fun token => Utf8.encode token.sourceText :=
  encode_foldl_sourceText tokens ""

/-- A tiling of the whole template is put together to the template again. -/
theorem Tiles.encode_reconstruct {template : List UInt8} {tokens : List Token}
    (tiles : Tiles template 0 template.length tokens) :
    Utf8.encode (reconstruct tokens) = template := by
  rw [TemplateLexer.encode_reconstruct, tiles.flatMap_encode, List.extract_eq_take_drop,
    List.drop_zero, Nat.sub_zero, List.take_length]

namespace Due

/-- The bytes of what is due. -/
def bytes : Due → List UInt8
  | marker delimiter _ => delimiter.bytes
  | endOfInput => []

/-- The place in the template of what is due. -/
def position (due : Due) (source : Source) : Nat :=
  match due with
  | marker _ position => position
  | endOfInput => source.offset

theorem position_add_length {due : Due} {source : Source} (sound : due.Sound source) :
    due.position source + due.bytes.length = source.offset := by
  cases due with
  | marker delimiter position => exact sound
  | endOfInput => rfl

end Due

namespace Tokenizer

/-- The place in the template up to which it was returned in tokens. -/
def position (tokenizer : Tokenizer) : Nat :=
  match tokenizer.phase with
  | .scanning _ region => region.start
  | .owing due => due.position tokenizer.source
  | .finished => tokenizer.source.offset

/-- The bytes that were read for the tokens to come and have left the buffer. -/
def held (tokenizer : Tokenizer) : List UInt8 :=
  match tokenizer.phase with
  | .scanning _ region => region.bytes.toList
  | .owing due => due.bytes
  | .finished => []

/-- What was not returned in tokens is held or still to come, and once the tokenizer has finished
there is nothing of it. -/
structure Lossless (template : List UInt8) (tokenizer : Tokenizer) : Prop where
  sound : tokenizer.Sound
  ended : tokenizer.isFinished = true →
    tokenizer.source.exhausted = true ∧ tokenizer.source.unread = []
  inside : tokenizer.position ≤ template.length
  rest : template.drop tokenizer.position = tokenizer.held ++ tokenizer.source.upcoming

theorem Lossless.of_running {template : List UInt8} {tokenizer : Tokenizer}
    (running : tokenizer.isFinished = false) (sound : tokenizer.Sound)
    (inside : tokenizer.position ≤ template.length)
    (rest : template.drop tokenizer.position = tokenizer.held ++ tokenizer.source.upcoming) :
    Lossless template tokenizer := by
  refine ⟨sound, fun finished => ?_, inside, rest⟩
  rw [running] at finished
  contradiction

theorem lossless_ofReader (reader : Reader) (capacity : Capacity) :
    Lossless reader.template (ofReader reader capacity) :=
  .of_running rfl (sound_ofReader reader capacity) (Nat.zero_le _) rfl

theorem eq_length_of_drop {template : List UInt8} {position : Nat}
    (inside : position ≤ template.length) (rest : template.drop position = []) :
    position = template.length :=
  Nat.le_antisymm inside (List.drop_eq_nil_iff.mp rest)

theorem upcoming_of_ended {source : Source} (ended : source.exhausted = true)
    (nothing : source.unread = []) : source.upcoming = [] := by
  rw [Source.upcoming_of_exhausted ended, nothing]

theorem Lossless.position_of_isFinished {template : List UInt8} {tokenizer : Tokenizer}
    (lossless : Lossless template tokenizer) (finished : tokenizer.isFinished = true) :
    tokenizer.position = template.length := by
  obtain ⟨-, ended, inside, rest⟩ := lossless
  obtain ⟨stopped, nothing⟩ := ended finished
  have phase : tokenizer.phase = .finished := eq_of_beq finished
  apply eq_length_of_drop inside
  rw [rest, held, phase, upcoming_of_ended stopped nothing]
  rfl

/-- A step returns the token of what stands in the template between the positions before and after
it, or it returns no token and stays. The end is returned at the end of the template. -/
def Takes (template : List UInt8) (position : Nat) (step : Step) : Prop :=
  Lossless template step.after ∧
    match step.token? with
    | some token =>
        token.span = ⟨position, step.after.position⟩ ∧ position ≤ step.after.position ∧
          Utf8.encode token.sourceText = template.extract position step.after.position ∧
          (token.isEnd = true → position = template.length)
    | none => step.after.position = position

/-- Bytes that stand at a position are taken by going behind them. -/
theorem extract_of_drop {template bytes more : List UInt8} {position : Nat}
    (inside : position ≤ template.length) (rest : template.drop position = bytes ++ more) :
    template.extract position (position + bytes.length) = bytes ∧
      template.drop (position + bytes.length) = more ∧
      position + bytes.length ≤ template.length := by
  refine ⟨?_, ?_, ?_⟩
  · rw [← take_drop_eq_extract, rest, List.take_left]
  · rw [← List.drop_drop, rest, List.drop_left]
  · have lengths := congrArg List.length rest
    rw [List.length_drop, List.length_append] at lengths
    omega

theorem takes_pay {template : List UInt8} {due : Due} {source : Source}
    (sound : due.Sound source) (inside : due.position source ≤ template.length)
    (rest : template.drop (due.position source) = due.bytes ++ source.upcoming)
    (events : List Event) :
    Takes template (due.position source)
      (returning (pay source due).1 events (pay source due).2) := by
  obtain ⟨text, behind, within⟩ := extract_of_drop inside rest
  rw [Due.position_add_length sound] at text behind within
  cases due with
  | marker delimiter position =>
      have place : position + delimiterLength = source.offset := sound
      refine ⟨.of_running rfl (scanning_emptyAt _ _) within behind, ?_, ?_, ?_, nofun⟩
      · exact congrArg (Span.mk position) place
      · exact Nat.le_of_add_right_le (Nat.le_of_eq place)
      · exact (Delimiter.encode_lexeme delimiter).trans text.symm
  | endOfInput =>
      obtain ⟨ended, nothing⟩ := sound
      refine ⟨⟨trivial, fun _ => ⟨ended, nothing⟩, within, behind⟩, rfl, Nat.le_refl _, ?_, ?_⟩
      · exact Utf8.encode_empty.trans text.symm
      · intro _
        apply eq_length_of_drop inside
        rw [rest, upcoming_of_ended ended nothing]
        rfl

theorem takes_flush {template : List UInt8} {due : Due} {source : Source} {region : Region}
    {events : List Event} (sound : due.Sound source)
    (place : due.position source = region.start + region.size)
    (inside : region.start ≤ template.length)
    (rest : template.drop region.start = region.bytes.toList ++ (due.bytes ++ source.upcoming))
    (fine : (flush region due events source).isMalformed = false) :
    Takes template region.start (flush region due events source) := by
  obtain ⟨text, behind, within⟩ := extract_of_drop inside rest
  rw [Region.length_toList, ← place] at text behind within
  simp only [flush] at fine ⊢
  split
  · next empty =>
      have nothing : region.size = 0 := Array.isEmpty_iff_size_eq_zero.mp empty
      rw [nothing, Nat.add_zero] at place
      rw [← place]
      exact takes_pay sound within behind events
  · next filled =>
      rw [if_neg filled] at fine
      split at fine
      · next contents read =>
          refine ⟨.of_running rfl sound within behind, ?_, ?_, ?_, ?_⟩
          · exact congrArg (Span.mk region.start) place.symm
          · exact Nat.le_of_add_right_le (Nat.le_of_eq place.symm)
          · exact (Utf8.decode_eq_ok_iff.mp read).trans text.symm
          · exact fun isEnd => absurd isEnd Bool.false_ne_true
      · simp [Step.isMalformed] at fine

/-- Unless a call meets malformed text, it returns the token of what comes next in the template, or
it reports a failed read and stays. -/
theorem takes_next {template : List UInt8} {tokenizer : Tokenizer}
    (lossless : Lossless template tokenizer) (fine : tokenizer.next.isMalformed = false) :
    Takes template tokenizer.position tokenizer.next := by
  have same := lossless
  obtain ⟨sound, -, inside, rest⟩ := lossless
  cases phase : tokenizer.phase with
  | finished =>
      have place := same.position_of_isFinished (by rw [isFinished, phase]; rfl)
      simp only [position, phase] at place
      simp only [next, phase, position]
      refine ⟨same, ?_⟩
      simp only [returning, Step.token?, Except.toOption, position, phase]
      refine ⟨rfl, Nat.le_refl _, ?_, fun _ => place⟩
      rw [Token.sourceText_endOfInput, Utf8.encode_empty, extract_self]
  | owing due =>
      simp only [Sound, position, held, phase] at sound inside rest
      simp only [next, phase, position]
      exact takes_pay sound inside rest []
  | scanning mode region =>
      simp only [Sound, position, held, phase] at sound inside rest
      have divides := scanFrom_divides sound #[]
      simp only [next, phase, position] at fine ⊢
      generalize scanFrom mode region tokenizer.source #[] = scan at divides fine ⊢
      obtain ⟨start, divides⟩ := divides
      rw [← start] at inside rest ⊢
      split at fine
      · next due found =>
          rw [found] at divides
          cases due with
          | marker delimiter place =>
              obtain ⟨-, here, offset, split⟩ := divides
              exact takes_flush offset (here.trans (by rw [start])) inside (rest.trans split) fine
          | endOfInput =>
              obtain ⟨-, here, ended, split⟩ := divides
              refine takes_flush ended (here.trans (by rw [start])) inside ?_ fine
              rw [Due.bytes, upcoming_of_ended ended.1 ended.2, List.append_nil, List.append_nil]
              exact rest.trans split
      · next failure failed =>
          rw [failed] at divides
          obtain ⟨going, split⟩ := divides
          exact ⟨.of_running rfl going inside (rest.trans split), rfl⟩

/-- The token of a step goes before the tokens of the steps behind it. -/
theorem Takes.tiles {template : List UInt8} {position stop : Nat} {step : Step}
    {tokens : List Token} (takes : Takes template position step)
    (rest : Tiles template step.after.position stop tokens) :
    Tiles template position stop (step.token?.toList ++ tokens) := by
  obtain ⟨-, moved⟩ := takes
  cases returned : step.token? with
  | none =>
      rw [returned] at moved
      rw [← moved]
      exact rest
  | some token =>
      rw [returned] at moved
      obtain ⟨place, ordered, text, -⟩ := moved
      exact .cons_of_span place ordered text rest

/-- The end has the point at the end of the template for its span. -/
theorem Takes.span_of_isEnd {template : List UInt8} {position : Nat} {step : Step} {token : Token}
    (takes : Takes template position step) (returned : step.token? = some token)
    (isEnd : token.isEnd = true) : token.span = .point template.length := by
  obtain ⟨lossless, moved⟩ := takes
  rw [returned] at moved
  obtain ⟨place, ordered, -, last⟩ := moved
  have here := last isEnd
  have inside := lossless.inside
  have still : step.after.position = template.length := by omega
  rw [place, here, still, Span.point]

/-- Whatever calls are made, the tokens that they return tile the template from the position of the
tokenizer on, up to some place. -/
theorem session_tiles {template : List UInt8} {tokenizer : Tokenizer}
    (lossless : Lossless template tokenizer) (calls : List Call) :
    (∃ stop, Tiles template tokenizer.position stop (tokensOf (tokenizer.session calls))) ∧
      ∀ token ∈ tokensOf (tokenizer.session calls), token.isEnd = true →
        token.span = .point template.length := by
  induction calls generalizing tokenizer with
  | nil => exact ⟨⟨_, .nil lossless.inside⟩, nofun⟩
  | cons call calls ih =>
      rw [session]
      split
      · next step answered =>
          rw [eq_next_of_answer? answered]
          cases malformed : tokenizer.next.isMalformed with
          | true =>
              rw [tokensOf_cons_of_malformed malformed]
              exact ⟨⟨_, .nil lossless.inside⟩, fun _ member => absurd member List.not_mem_nil⟩
          | false =>
              have takes := takes_next lossless malformed
              obtain ⟨⟨stop, tiles⟩, ends⟩ := ih takes.1
              rw [tokensOf_cons malformed]
              refine ⟨⟨stop, takes.tiles tiles⟩, ?_⟩
              intro token member isEnd
              rcases List.mem_append.mp member with first | later
              · exact takes.span_of_isEnd (Option.mem_toList.mp first) isEnd
              · exact ends token later isEnd
      · exact ih lossless

/-- A run that returns tokens only returns a tiling of all that is left of the template. -/
theorem run_tiles {template : List UInt8} {tokenizer : Tokenizer} {tokens : List Token}
    (lossless : Lossless template tokenizer)
    (same : tokenizer.run.map Step.result = tokens.map .ok) :
    Tiles template tokenizer.position template.length tokens := by
  induction tokenizer using run_induction generalizing tokens with
  | finished tokenizer finished =>
      rw [run_of_isFinished finished] at same
      obtain rfl := List.map_eq_nil_iff.mp same.symm
      rw [lossless.position_of_isFinished finished]
      exact .nil (Nat.le_refl _)
  | running tokenizer running ih =>
      rw [run_of_running running, List.map_cons] at same
      cases tokens with
      | nil => contradiction
      | cons token tokens =>
          rw [List.map_cons, List.cons.injEq] at same
          obtain ⟨returned, same⟩ := same
          have fine : tokenizer.next.isMalformed = false := by rw [Step.isMalformed, returned]
          have first : tokenizer.next.token? = some token := by rw [Step.token?, returned]; rfl
          have takes := takes_next lossless fine
          have tiles := takes.tiles (ih takes.1 same)
          rw [first] at tiles
          exact tiles

/-- Whatever the reader, the capacity and the calls are, the tokens that were returned tile the
beginning of the template, and each end among them is the point at its end. So the source of the
template is put together from tokens with an end among them, and from the tokens of a text. -/
theorem session_lossless (reader : Reader) (capacity : Capacity) (calls : List Call) :
    let tokens := tokensOf ((ofReader reader capacity).session calls)
    (∃ stop, Tiles reader.template 0 stop tokens) ∧
      (∀ token ∈ tokens, token.isEnd = true → token.span = .point reader.template.length) ∧
      ((∃ token ∈ tokens, token.isEnd = true) →
        Utf8.encode (reconstruct tokens) = reader.template) ∧
      ∀ text collected, tokenizeString text = .ok collected → reconstruct collected = text := by
  intro tokens
  obtain ⟨⟨stop, tiles⟩, ends⟩ := session_tiles (lossless_ofReader reader capacity) calls
  refine ⟨⟨stop, tiles⟩, ends, ?_, ?_⟩
  · rintro ⟨token, member, isEnd⟩
    have bounds := (tiles.span_bounds member).2
    rw [ends token member isEnd] at bounds
    have whole : stop = reader.template.length := Nat.le_antisymm tiles.bounds.2 bounds
    rw [whole] at tiles
    exact tiles.encode_reconstruct
  · intro text collected returned
    have tiles := run_tiles (lossless_ofReader (.ofString text) .standard)
      (collect_eq_ok_iff.mp returned)
    apply Utf8.encode_injective
    rw [Tiles.encode_reconstruct tiles, Reader.template_ofString]

end Tokenizer

end TemplateLexer
