import TemplateLexer.Proofs.Streaming

namespace TemplateLexer

theorem Delimiter.nextMode_eq_inside_iff {construct : Construct} (delimiter : Delimiter) :
    delimiter.nextMode = .inside construct ↔ delimiter = .opening construct := by
  cases delimiter <;> simp [nextMode]

/-- The construct whose body is text of the mode. -/
def Mode.construct? : Mode → Option Construct
  | .literal => none
  | .inside construct => some construct

theorem Mode.construct?_eq_some_iff {mode : Mode} {construct : Construct} :
    mode.construct? = some construct ↔ mode = .inside construct := by
  cases mode <;> simp [construct?]

/-- What is left open behind a text. Nothing is if the text is malformed, since the pass ends
there. -/
def unclosedBehind (text : List UInt8) (unclosed : Option (Construct × Nat)) :
    Option (Construct × Nat) :=
  match Utf8.decode text with
  | .ok _ => unclosed
  | .error _ => none

theorem unclosedBehind_none (text : List UInt8) : unclosedBehind text none = none := by
  rw [unclosedBehind]
  split <;> rfl

/-- The construct that a pass over the bytes behind a position leaves open, and the place of the end
within its body. -/
def unclosedFrom (mode : Mode) (position : Nat) (bytes : List UInt8) : Option (Construct × Nat) :=
  match _found : mode.find? bytes with
  | some (length, delimiter) =>
      unclosedBehind (bytes.take length)
        (unclosedFrom delimiter.nextMode (position + length + delimiterLength)
          (bytes.drop (length + delimiterLength)))
  | none => mode.construct?.map fun construct => (construct, position + bytes.length)
  termination_by bytes.length
  decreasing_by
    have within := Mode.find?_within _found
    have positive : 0 < delimiterLength := by decide
    rw [List.length_drop]
    omega

theorem unclosedFrom_of_some {mode : Mode} {bytes : List UInt8} {length : Nat}
    {delimiter : Delimiter} (found : mode.find? bytes = some (length, delimiter))
    (position : Nat) :
    unclosedFrom mode position bytes =
      unclosedBehind (bytes.take length)
        (unclosedFrom delimiter.nextMode (position + length + delimiterLength)
          (bytes.drop (length + delimiterLength))) := by
  rw [unclosedFrom]
  split
  · next found' =>
      rw [found] at found'
      cases found'
      rfl
  · next missing =>
      rw [found] at missing
      contradiction

theorem unclosedFrom_of_none {mode : Mode} {bytes : List UInt8}
    (missing : mode.find? bytes = none) (position : Nat) :
    unclosedFrom mode position bytes =
      mode.construct?.map fun construct => (construct, position + bytes.length) := by
  rw [unclosedFrom]
  split
  · next found =>
      rw [missing] at found
      contradiction
  · rfl

/-- A text that is not malformed is returned, unless it is empty. -/
theorem textThen_of_ok {bytes : List UInt8} {contents : String}
    (read : Utf8.decode bytes = .ok contents) (start : Nat) (others : List Result) :
    textThen start bytes others = others ∨
      ∃ text : Token, text.kind = .text ∧ textThen start bytes others = .ok text :: others := by
  rw [textThen, read]
  split
  · exact .inl rfl
  · exact .inr ⟨_, rfl, rfl⟩

/-- The results behind an opening marker in a template of some length, if the construct is left
open. -/
inductive LastText (length : Nat) : List Result → Prop where
  | empty {ended : Token} (isEnd : ended.kind = .endOfInput) : LastText length [.ok ended]
  | text {text ended : Token} (isText : text.kind = .text) (isEnd : ended.kind = .endOfInput) :
      LastText length [.ok text, .ok ended]
  | malformed {start : Nat} {bytes : List UInt8} {fault : Utf8.Fault}
      (runs : start + bytes.length = length) :
      LastText length [.error (.malformedText start bytes fault)]

/-- The results end in the opening marker of the construct and the last text behind it. -/
def EndsWithin (construct : Construct) (length : Nat) (results : List Result) : Prop :=
  ∃ front opening behind, results = front ++ .ok opening :: behind ∧
    opening.kind = .marker (.opening construct) ∧ LastText length behind

/-- The results of a pass that begins in text of a mode show that the construct is left open. -/
def LeavesOpen (construct : Construct) (length : Nat) (mode : Mode) (results : List Result) :
    Prop :=
  (mode = .inside construct ∧ LastText length results) ∨ EndsWithin construct length results

section LeavesOpen

variable {construct : Construct} {length : Nat} {mode : Mode} {results : List Result}

theorem leavesOpen_literal :
    LeavesOpen construct length .literal results ↔ EndsWithin construct length results := by
  constructor
  · rintro (⟨⟨⟩, -⟩ | within)
    exact within
  · exact .inr

theorem not_endsWithin_nil : ¬ EndsWithin construct length [] := by
  rintro ⟨front, opening, behind, split, -⟩
  exact List.append_ne_nil_of_right_ne_nil front (List.cons_ne_nil _ _) split.symm

theorem endsWithin_cons {first : Result} :
    EndsWithin construct length (first :: results) ↔
      (∃ opening, first = .ok opening ∧ opening.kind = .marker (.opening construct) ∧
        LastText length results) ∨ EndsWithin construct length results := by
  constructor
  · rintro ⟨front, opening, behind, split, opens, last⟩
    rcases List.cons_eq_append_iff.mp split with ⟨-, same⟩ | ⟨front, -, same⟩
    · cases same
      exact .inl ⟨opening, rfl, opens, last⟩
    · exact .inr ⟨front, opening, behind, same, opens, last⟩
  · rintro (⟨opening, rfl, opens, last⟩ | ⟨front, opening, behind, rfl, opens, last⟩)
    · exact ⟨[], opening, results, rfl, opens, last⟩
    · exact ⟨first :: front, opening, behind, rfl, opens, last⟩

/-- A token that opens nothing adds nothing to the end of the results. -/
theorem endsWithin_cons_of_ne {token : Token}
    (other : token.kind ≠ .marker (.opening construct)) :
    EndsWithin construct length (.ok token :: results) ↔
      EndsWithin construct length results := by
  rw [endsWithin_cons]
  constructor
  · rintro (⟨_, ⟨⟩, opens, -⟩ | within)
    · exact absurd opens other
    · exact within
  · exact .inr

theorem leavesOpen_of_lastText (last : LastText length results) :
    LeavesOpen construct length mode results ↔ mode = .inside construct := by
  have nothing : ¬ EndsWithin construct length results := by
    cases last with
    | empty isEnd =>
        rw [endsWithin_cons_of_ne (by rw [isEnd]; exact Kind.noConfusion)]
        exact not_endsWithin_nil
    | text isText isEnd =>
        rw [endsWithin_cons_of_ne (by rw [isText]; exact Kind.noConfusion),
          endsWithin_cons_of_ne (by rw [isEnd]; exact Kind.noConfusion)]
        exact not_endsWithin_nil
    | malformed runs =>
        rw [endsWithin_cons]
        rintro (⟨_, ⟨⟩, -⟩ | within)
        exact not_endsWithin_nil within
  rw [LeavesOpen, or_iff_left nothing, and_iff_left last]

theorem leavesOpen_marker (delimiter : Delimiter) (position : Nat) :
    LeavesOpen construct length mode (.ok (.marker delimiter position) :: results) ↔
      LeavesOpen construct length delimiter.nextMode results := by
  have further : ¬ LastText length (.ok (.marker delimiter position) :: results) := by
    rintro (⟨⟨⟩⟩ | ⟨⟨⟩, -⟩)
  rw [LeavesOpen, or_iff_right fun both => further both.2, endsWithin_cons, LeavesOpen]
  refine or_congr_left ?_
  constructor
  · rintro ⟨_, ⟨⟩, opens, last⟩
    exact ⟨delimiter.nextMode_eq_inside_iff.mpr (Kind.marker.inj opens), last⟩
  · rintro ⟨inside, last⟩
    exact ⟨_, rfl, congrArg Kind.marker (delimiter.nextMode_eq_inside_iff.mp inside), last⟩

theorem leavesOpen_text_marker {text : Token} (isText : text.kind = .text) (delimiter : Delimiter)
    (position : Nat) :
    LeavesOpen construct length mode (.ok text :: .ok (.marker delimiter position) :: results) ↔
      LeavesOpen construct length delimiter.nextMode results := by
  have further :
      ¬ LastText length (.ok text :: .ok (.marker delimiter position) :: results) := by
    rintro (_ | ⟨-, ⟨⟩⟩)
  rw [LeavesOpen, or_iff_right fun both => further both.2,
    endsWithin_cons_of_ne (by rw [isText]; exact Kind.noConfusion), ← leavesOpen_literal,
    leavesOpen_marker]

/-- A marker leads to the text of its mode, whatever text stands before it. -/
theorem leavesOpen_textThen_marker {bytes : List UInt8} {contents : String}
    (read : Utf8.decode bytes = .ok contents) (start : Nat) (delimiter : Delimiter)
    (position : Nat) :
    LeavesOpen construct length mode
        (textThen start bytes (.ok (.marker delimiter position) :: results)) ↔
      LeavesOpen construct length delimiter.nextMode results := by
  rcases textThen_of_ok read start (.ok (.marker delimiter position) :: results) with
    same | ⟨text, isText, same⟩
  · rw [same, leavesOpen_marker]
  · rw [same, leavesOpen_text_marker isText]

/-- Malformed text before the end is the last result, whatever is open. -/
theorem not_leavesOpen_malformed {start : Nat} {bytes : List UInt8} (fault : Utf8.Fault)
    (before : start + bytes.length < length) :
    ¬ LeavesOpen construct length mode [.error (.malformedText start bytes fault)] := by
  rintro (⟨-, last⟩ | within)
  · cases last with
    | malformed runs => exact Nat.ne_of_lt before runs
  · rcases endsWithin_cons.mp within with ⟨_, ⟨⟩, -⟩ | within
    exact not_endsWithin_nil within

end LeavesOpen

theorem lastText_textThen (start : Nat) (bytes : List UInt8) :
    LastText (start + bytes.length)
      (textThen start bytes [.ok (.endOfInput (start + bytes.length))]) := by
  cases read : Utf8.decode bytes with
  | ok contents =>
      rcases textThen_of_ok read start [.ok (.endOfInput (start + bytes.length))] with
        same | ⟨text, isText, same⟩
      · rw [same]
        exact .empty rfl
      · rw [same]
        exact .text isText rfl
  | error fault =>
      rw [textThen_of_firstFault (Utf8.decode_eq_error_iff_firstFault.mp read)]
      exact .malformed rfl

/-- A construct is left open if and only if the results of the pass show it. -/
theorem unclosedFrom_eq_some_iff (mode : Mode) (position : Nat) (bytes : List UInt8)
    (construct : Construct) (offset : Nat) :
    unclosedFrom mode position bytes = some (construct, offset) ↔
      offset = position + bytes.length ∧
        LeavesOpen construct offset mode (passFrom mode position bytes) := by
  fun_induction unclosedFrom mode position bytes with
  | case1 mode position bytes length delimiter found ih =>
      have within := Mode.find?_within found
      have positive : 0 < delimiterLength := by decide
      have stop : position + length + delimiterLength +
          (bytes.drop (length + delimiterLength)).length = position + bytes.length := by
        rw [List.length_drop]
        omega
      rw [passFrom_of_some found, unclosedBehind]
      cases read : Utf8.decode (bytes.take length) with
      | ok contents =>
          rw [leavesOpen_textThen_marker read, ← stop]
          exact ih
      | error fault =>
          rw [textThen_of_firstFault (Utf8.decode_eq_error_iff_firstFault.mp read)]
          refine iff_of_false (Option.some_ne_none _).symm ?_
          rintro ⟨rfl, leaves⟩
          refine not_leavesOpen_malformed fault ?_ leaves
          rw [List.length_take]
          omega
  | case2 mode position bytes missing =>
      rw [passFrom_of_none missing]
      have last := lastText_textThen position bytes
      cases mode with
      | literal =>
          refine iff_of_false (Option.some_ne_none _).symm ?_
          rintro ⟨rfl, leaves⟩
          rw [leavesOpen_of_lastText last] at leaves
          contradiction
      | inside other =>
          constructor
          · rintro ⟨⟩
            exact ⟨rfl, (leavesOpen_of_lastText last).mpr rfl⟩
          · rintro ⟨rfl, leaves⟩
            cases (leavesOpen_of_lastText last).mp leaves
            rfl

/-- The construct that is reported as not closed, and the place of the end. -/
def Event.unterminated? : Event → Option (Construct × Nat)
  | .unterminated construct offset => some (construct, offset)
  | _ => none

/-- The reports of the step that a construct is not closed. -/
def Step.unterminated (step : Step) : List (Construct × Nat) :=
  step.events.filterMap Event.unterminated?

theorem Event.unterminated?_eq_some_iff {event : Event} {construct : Construct} {offset : Nat} :
    event.unterminated? = some (construct, offset) ↔ event = .unterminated construct offset := by
  cases event <;> simp [unterminated?]

theorem Step.mem_unterminated_iff {step : Step} {construct : Construct} {offset : Nat} :
    (construct, offset) ∈ step.unterminated ↔ .unterminated construct offset ∈ step.events := by
  simp [unterminated, Event.unterminated?_eq_some_iff]

theorem unterminated?_map_read (reads : List ReadRecord) :
    (reads.map Event.read).filterMap Event.unterminated? = [] := by
  rw [List.filterMap_map, List.filterMap_eq_nil_iff]
  exact fun _ _ => rfl

namespace Due

/-- What is left open behind what is due. -/
def unclosed (due : Due) (source : Source) : Option (Construct × Nat) :=
  match due with
  | .marker delimiter _ => unclosedFrom delimiter.nextMode source.offset source.upcoming
  | .endOfInput => none

theorem unterminated?_diagnosis_marker (delimiter : Delimiter) (position : Nat) (mode : Mode)
    (offset : Nat) :
    ((Due.marker delimiter position).diagnosis mode offset).filterMap Event.unterminated? = [] := by
  cases mode <;> rfl

theorem unterminated?_diagnosis_endOfInput (mode : Mode) (offset : Nat) :
    (Due.endOfInput.diagnosis mode offset).filterMap Event.unterminated? =
      (mode.construct?.map fun construct => (construct, offset)).toList := by
  cases mode <;> rfl

end Due

/-- What a scan reports and what is left open behind it is what a single pass leaves open. -/
theorem unclosed_scanFrom {mode : Mode} {region : Region} {source : Source}
    (scanning : Scanning mode region source) (reads : Array ReadRecord) :
    let scan := scanFrom mode region source reads
    let unclosed := unclosedFrom mode region.start (region.ahead source)
    match scan.result with
    | .ok due =>
        (due.diagnosis mode scan.after.offset).filterMap Event.unterminated? ++
            (unclosedBehind scan.region.bytes.toList (due.unclosed scan.after)).toList =
          unclosed.toList
    | .error _ =>
        unclosedFrom mode scan.region.start (scan.region.ahead scan.after) = unclosed := by
  intro scan unclosed
  obtain ⟨start, divides⟩ : scan.Divides mode region.start (region.ahead source) :=
    scanFrom_divides scanning reads
  match result : scan.result with
  | .ok (.marker delimiter position) =>
      rw [result] at divides
      obtain ⟨found, place, offset, split⟩ := divides
      obtain ⟨text, rest⟩ := take_drop_of_divided split
      simp only [Due.unterminated?_diagnosis_marker, List.nil_append, Due.unclosed, unclosed]
      rw [unclosedFrom_of_some found, text, rest, ← place, offset]
  | .ok .endOfInput =>
      rw [result] at divides
      obtain ⟨missing, offset, -, split⟩ := divides
      simp only [Due.unterminated?_diagnosis_endOfInput, Due.unclosed, unclosedBehind_none,
        Option.toList_none, List.append_nil, unclosed]
      rw [unclosedFrom_of_none missing, split, Region.length_toList, ← offset]
  | .error failure =>
      rw [result] at divides
      simp only [unclosed]
      rw [start, divides.2]

namespace Tokenizer

/-- The construct that is left open by what is still to come, and the place of the end. -/
def unclosed (tokenizer : Tokenizer) : Option (Construct × Nat) :=
  match tokenizer.phase with
  | .scanning mode region => unclosedFrom mode region.start (region.ahead tokenizer.source)
  | .owing due => due.unclosed tokenizer.source
  | .finished => none

theorem unclosed_pay (due : Due) (source : Source) :
    (pay source due).2.unclosed = due.unclosed source := by
  cases due <;> rfl

theorem unterminated_returning (token : Token) (events : List Event) (after : Tokenizer) :
    (returning token events after).unterminated = events.filterMap Event.unterminated? := by
  simp [Step.unterminated, returning, Event.unterminated?]

/-- A flush reports nothing of its own. -/
theorem unterminated_flush (region : Region) (due : Due) (events : List Event) (source : Source) :
    (flush region due events source).unterminated = events.filterMap Event.unterminated? ∧
      (flush region due events source).after.unclosed =
        unclosedBehind region.bytes.toList (due.unclosed source) := by
  simp only [flush]
  split
  · next empty =>
      have nothing : region.bytes.toList = [] := by simpa [Region.isEmpty] using empty
      refine ⟨unterminated_returning _ _ _, ?_⟩
      rw [nothing]
      exact unclosed_pay due source
  · cases read : Utf8.decode region.bytes.toList with
    | ok contents =>
        rw [unclosedBehind, read]
        exact ⟨unterminated_returning _ _ _, rfl⟩
    | error fault =>
        rw [unclosedBehind, read]
        exact ⟨rfl, rfl⟩

/-- A call reports what is left open if it comes to the end, and otherwise leaves it to the calls
behind it. -/
theorem unterminated_next {tokenizer : Tokenizer} (sound : tokenizer.Sound) :
    tokenizer.next.unterminated ++ tokenizer.next.after.unclosed.toList =
      tokenizer.unclosed.toList := by
  match phase : tokenizer.phase with
  | .finished =>
      simp only [next, phase, returning, unclosed]
      rfl
  | .owing due =>
      have before : tokenizer.unclosed = due.unclosed tokenizer.source := by rw [unclosed, phase]
      simp only [next, phase, unterminated_returning]
      rw [before, ← unclosed_pay]
      rfl
  | .scanning mode region =>
      have before : tokenizer.unclosed =
          unclosedFrom mode region.start (region.ahead tokenizer.source) := by rw [unclosed, phase]
      simp only [Sound, phase] at sound
      have scanned := unclosed_scanFrom sound #[]
      simp only [← before] at scanned
      simp only [next, phase]
      split
      · next due found =>
          rw [found] at scanned
          obtain ⟨reported, left⟩ := unterminated_flush
            (scanFrom mode region tokenizer.source #[]).region due
            ((scanFrom mode region tokenizer.source #[]).reads.toList.map .read ++
              due.diagnosis mode (scanFrom mode region tokenizer.source #[]).after.offset)
            (scanFrom mode region tokenizer.source #[]).after
          rw [reported, left, List.filterMap_append, unterminated?_map_read, List.nil_append]
          exact scanned
      · next failure failed =>
          rw [failed] at scanned
          rw [Step.unterminated, unterminated?_map_read, List.nil_append, ← scanned]
          rfl

/-- A run reports what is left open, and nothing else: so it makes one report at most. -/
theorem unterminated_run {tokenizer : Tokenizer} (sound : tokenizer.Sound) :
    tokenizer.run.flatMap Step.unterminated = tokenizer.unclosed.toList := by
  induction tokenizer using run_induction with
  | finished tokenizer finished =>
      rw [run_of_isFinished finished, unclosed, eq_of_beq finished]
      rfl
  | running tokenizer running ih =>
      rw [run_of_running running, List.flatMap_cons, ih (outlook_next sound running).1,
        unterminated_next sound]

/-- A run reports the construct that one pass over the template leaves open. -/
theorem unterminated_ofReader (reader : Reader) (capacity : Capacity) :
    (ofReader reader capacity).run.flatMap Step.unterminated =
      (unclosedFrom .literal 0 reader.template).toList :=
  unterminated_run (sound_ofReader reader capacity)

end Tokenizer

end TemplateLexer
