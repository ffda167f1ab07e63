import TemplateLexer.Proofs.Failures
import TemplateLexer.Proofs.Lossless
import TemplateLexer.Proofs.MalformedText
import TemplateLexer.Proofs.TokenOrder

namespace TemplateLexer

/-- The step returns the end or meets malformed text. -/
def Step.isLast (step : Step) : Bool := step.isMalformed || step.token?.any Token.isEnd

/-- The delimiter that is due. -/
def Due.delimiter? : Due → Option Delimiter
  | marker delimiter _ => some delimiter
  | endOfInput => none

/-- The text regions from a position on are text regions of the template. -/
def RegionsFrom (template : List UInt8) (mode : Mode) (position : Nat) : Prop :=
  ∀ start stop next, TextRegion template mode position start stop next →
    TextRegion template .literal 0 start stop next

theorem RegionsFrom.behind {template : List UInt8} {mode : Mode} {position stop : Nat}
    {delimiter : Delimiter} (regions : RegionsFrom template mode position)
    (stops : TextStops template mode position stop (some delimiter)) :
    RegionsFrom template delimiter.nextMode (stop + delimiterLength) :=
  fun _ _ _ region => regions _ _ _ (.behind stops region)

/-- The bytes are those of a text region of the template. The offset is behind this region, and also
behind the delimiter that ends it if one does. -/
def BehindRegion (template : List UInt8) (start : Nat) (bytes : List UInt8) (offset : Nat) : Prop :=
  ∃ stop next, TextRegion template .literal 0 start stop next ∧
    bytes = template.extract start stop ∧ offset = stop + next.elim 0 fun _ => delimiterLength

/-- A tokenizer that has made the steps stops at the offset: at the end of the template, unless a
step has met malformed text, and then behind that text. -/
structure EndsAt (template : List UInt8) (past : List Step) (offset : Nat) : Prop where
  complete : (∀ step ∈ past, step.isMalformed = false) → offset = template.length
  malformed : ∀ step ∈ past, ∀ start bytes fault,
    step.result = .error (.malformedText start bytes fault) →
      BehindRegion template start bytes offset

namespace Step

theorem exists_of_isMalformed {step : Step} (malformed : step.isMalformed = true) :
    ∃ start bytes fault, step.result = .error (.malformedText start bytes fault) := by
  rw [isMalformed] at malformed
  split at malformed
  · next start bytes fault result => exact ⟨start, bytes, fault, result⟩
  · contradiction

theorem result_ne_of_fine {step : Step} (fine : step.isMalformed = false) (start : Nat)
    (bytes : List UInt8) (fault : Utf8.Fault) :
    step.result ≠ .error (.malformedText start bytes fault) := by
  intro result
  rw [isMalformed, result] at fine
  contradiction

end Step

namespace EndsAt

variable {template : List UInt8} {past : List Step} {step : Step} {offset : Nat}

theorem of_fine (fine : ∀ step ∈ past, step.isMalformed = false)
    (ended : offset = template.length) : EndsAt template past offset := by
  refine ⟨fun _ => ended, fun step member start bytes fault result => ?_⟩
  exact absurd result (Step.result_ne_of_fine (fine step member) start bytes fault)

/-- A step that meets malformed text stops behind this text. -/
theorem concat_of_malformed (fine : ∀ step ∈ past, step.isMalformed = false)
    (malformed : step.isMalformed = true)
    (behind : ∀ start bytes fault, step.result = .error (.malformedText start bytes fault) →
      BehindRegion template start bytes offset) : EndsAt template (past ++ [step]) offset := by
  constructor
  · intro allFine
    rw [allFine step List.mem_concat_self] at malformed
    contradiction
  · intro other member start bytes fault result
    rcases List.mem_append.mp member with before | here
    · exact absurd result (Step.result_ne_of_fine (fine other before) start bytes fault)
    · obtain rfl := List.mem_singleton.mp here
      exact behind start bytes fault result

theorem concat (ends : EndsAt template past offset) (fine : step.isMalformed = false) :
    EndsAt template (past ++ [step]) offset := by
  constructor
  · intro allFine
    exact ends.complete fun other member => allFine other (List.mem_append_left _ member)
  · intro other member start bytes fault result
    rcases List.mem_append.mp member with before | here
    · exact ends.malformed other before start bytes fault result
    · obtain rfl := List.mem_singleton.mp here
      exact absurd result (Step.result_ne_of_fine fine start bytes fault)

end EndsAt

/-- Malformed text that the step meets is a text region of the template, and the tokenizer has
finished behind it. -/
def Step.StopsBehind (step : Step) (template : List UInt8) : Prop :=
  ∀ start bytes fault, step.result = .error (.malformedText start bytes fault) →
    step.after.isFinished = true ∧ BehindRegion template start bytes step.after.source.offset

theorem Step.stopsBehind_of_fine {step : Step} (fine : step.isMalformed = false)
    (template : List UInt8) : step.StopsBehind template :=
  fun start bytes fault result => absurd result (result_ne_of_fine fine start bytes fault)

/-- A scan finds where the text of its region stops in the template, and stands behind what ends the
text. -/
theorem textStops_scanFrom {template : List UInt8} {mode : Mode} {region : Region} {source : Source}
    {reads : Array ReadRecord} {due : Due} (scanning : Scanning mode region source)
    (inside : region.start ≤ template.length)
    (rest : template.drop region.start = region.ahead source)
    (stopped : (scanFrom mode region source reads).result = .ok due) :
    let scan := scanFrom mode region source reads
    let stop := region.start + scan.region.size
    scan.region.start = region.start ∧ TextStops template mode region.start stop due.delimiter? ∧
      scan.region.bytes.toList = template.extract region.start stop ∧ due.Sound scan.after ∧
      scan.after.offset = stop + due.delimiter?.elim 0 fun _ => delimiterLength := by
  intro scan stop
  have divides : scan.Divides mode region.start (region.ahead source) :=
    scanFrom_divides scanning reads
  obtain ⟨start, divides⟩ := divides
  rw [stopped, ← rest] at divides
  cases due with
  | marker delimiter position =>
      obtain ⟨found, place, offset, split⟩ := divides
      have text := (Tokenizer.extract_of_drop inside split).1
      rw [Region.length_toList] at text
      refine ⟨start, ?_, text.symm, offset, ?_⟩
      · rw [textStops_iff inside, found]
        exact ⟨rfl, rfl⟩
      · rw [← offset, place]
        rfl
  | endOfInput =>
      obtain ⟨missing, offset, ended, split⟩ := divides
      have whole := split
      rw [← List.append_nil scan.region.bytes.toList] at split
      have text := (Tokenizer.extract_of_drop inside split).1
      have lengths := congrArg List.length whole
      rw [List.length_drop, Region.length_toList] at lengths
      rw [Region.length_toList] at text
      refine ⟨start, ?_, text.symm, ended, offset⟩
      rw [textStops_iff inside, missing]
      exact ⟨by omega, rfl⟩

namespace Tokenizer

/-- The text regions that a tokenizer will meet are text regions of the template. -/
def InRegions (template : List UInt8) (tokenizer : Tokenizer) : Prop :=
  match tokenizer.phase with
  | .scanning mode region => RegionsFrom template mode region.start
  | .owing (.marker delimiter position) =>
      RegionsFrom template delimiter.nextMode (position + delimiterLength)
  | _ => True

theorem inRegions_ofReader (reader : Reader) (capacity : Capacity) :
    InRegions reader.template (ofReader reader capacity) := fun _ _ _ region => region

theorem inRegions_pay {template : List UInt8} {due : Due} {source : Source}
    (sound : due.Sound source) (owing : InRegions template ⟨source, .owing due⟩) :
    InRegions template (pay source due).2 := by
  cases due with
  | marker delimiter position =>
      have place : position + delimiterLength = source.offset := sound
      have regions : RegionsFrom template delimiter.nextMode (position + delimiterLength) := owing
      rw [place] at regions
      exact regions
  | endOfInput => trivial

/-- Behind the text of a region either what is due is owed or the text is malformed. -/
theorem inRegions_flush {template : List UInt8} {region : Region} {due : Due} {source : Source}
    {stop : Nat} (sound : due.Sound source) (owing : InRegions template ⟨source, .owing due⟩)
    (text : TextRegion template .literal 0 region.start stop due.delimiter?)
    (bytes : region.bytes.toList = template.extract region.start stop)
    (offset : source.offset = stop + due.delimiter?.elim 0 fun _ => delimiterLength)
    (events : List Event) :
    let step := flush region due events source
    InRegions template step.after ∧ step.StopsBehind template := by
  simp only [flush]
  split
  · exact ⟨inRegions_pay sound owing, Step.stopsBehind_of_fine rfl template⟩
  · split
    · exact ⟨owing, Step.stopsBehind_of_fine rfl template⟩
    · refine ⟨trivial, ?_⟩
      rintro _ _ _ ⟨⟩
      exact ⟨rfl, stop, _, text, bytes, offset⟩

/-- A call meets the text regions of the template one by one. The text that it finds malformed is
one of them, and behind this text the tokenizer has finished. -/
theorem regions_next {template : List UInt8} {tokenizer : Tokenizer}
    (lossless : Lossless template tokenizer) (inRegions : InRegions template tokenizer) :
    let step := tokenizer.next
    InRegions template step.after ∧ step.StopsBehind template := by
  obtain ⟨sound, -, inside, rest⟩ := lossless
  cases phase : tokenizer.phase with
  | finished =>
      simp only [next, phase]
      exact ⟨inRegions, Step.stopsBehind_of_fine rfl template⟩
  | owing due =>
      simp only [Sound, phase] at sound
      have owing : InRegions template ⟨tokenizer.source, .owing due⟩ := by
        simpa only [InRegions, phase] using inRegions
      simp only [next, phase]
      exact ⟨inRegions_pay sound owing, Step.stopsBehind_of_fine rfl template⟩
  | scanning mode region =>
      simp only [Sound, InRegions, position, held, phase] at sound inRegions inside rest
      simp only [next, phase]
      split
      · next due stopped =>
          obtain ⟨start, stops, text, ended, offset⟩ :=
            textStops_scanFrom sound inside rest stopped
          generalize scanFrom mode region tokenizer.source #[] = scan at *
          have owing : InRegions template ⟨scan.after, .owing due⟩ := by
            cases due with
            | endOfInput => trivial
            | marker delimiter position =>
                have place : position + delimiterLength = scan.after.offset := ended
                change RegionsFrom template delimiter.nextMode (position + delimiterLength)
                rw [place.trans offset]
                exact inRegions.behind stops
          have found := inRegions _ _ _ (.here stops)
          rw [← start] at found text offset
          exact inRegions_flush ended owing found text offset _
      · next failure failed =>
          refine ⟨?_, Step.stopsBehind_of_fine rfl template⟩
          change RegionsFrom template mode _
          rw [(scanFrom_divides sound #[]).1]
          exact inRegions

/-- Behind some steps a tokenizer goes on through the template, or one of the steps was its last and
it stays where it has stopped. -/
inductive Stage (template : List UInt8) (past : List Step) (tokenizer : Tokenizer) : Prop where
  | going (running : tokenizer.isFinished = false) (lossless : Lossless template tokenizer)
      (inRegions : InRegions template tokenizer) (none : ∀ step ∈ past, step.isLast = false) :
      Stage template past tokenizer
  | stopped (finished : tokenizer.isFinished = true) (last : ∃ step ∈ past, step.isLast = true)
      (ends : EndsAt template past tokenizer.source.offset) : Stage template past tokenizer

theorem stage_ofReader (reader : Reader) (capacity : Capacity) :
    Stage reader.template [] (ofReader reader capacity) :=
  .going rfl (lossless_ofReader reader capacity) (inRegions_ofReader reader capacity) nofun

theorem next_of_isFinished {tokenizer : Tokenizer} (finished : tokenizer.isFinished = true) :
    tokenizer.next = returning (.endOfInput tokenizer.source.offset) [] tokenizer := by
  have phase : tokenizer.phase = .finished := eq_of_beq finished
  simp only [next, phase]

/-- A step that does not finish the tokenizer is not its last. -/
theorem isLast_next_of_running {tokenizer : Tokenizer} (fine : tokenizer.next.isMalformed = false)
    (running : tokenizer.next.after.isFinished = false) : tokenizer.next.isLast = false := by
  have continues := tokenizer.continues_next
  unfold Step.Continues at continues
  rw [Step.isLast, fine, Bool.false_or]
  split at continues
  · next token returned =>
      rw [returned, Option.any_some, Bool.eq_false_iff]
      intro isEnd
      rw [(continues.2.1 isEnd).1] at running
      contradiction
  · next silent => rw [silent, Option.any_none]

theorem Stage.next {template : List UInt8} {past : List Step} {tokenizer : Tokenizer}
    (stage : Stage template past tokenizer) :
    Stage template (past ++ [tokenizer.next]) tokenizer.next.after := by
  cases stage with
  | going running lossless inRegions none =>
      obtain ⟨regions, met⟩ := regions_next lossless inRegions
      have earlier (step : Step) (member : step ∈ past) : step.isMalformed = false :=
        (Bool.or_eq_false_iff.mp (none step member)).1
      -- `takes_next` says nothing of malformed text, which is why `regions_next` is needed for it.
      cases malformed : tokenizer.next.isMalformed with
      | true =>
          obtain ⟨start, bytes, fault, result⟩ := Step.exists_of_isMalformed malformed
          refine .stopped (met _ _ _ result).1 ⟨_, List.mem_concat_self, ?_⟩ ?_
          · rw [Step.isLast, malformed, Bool.true_or]
          · exact .concat_of_malformed earlier malformed fun _ _ _ result => (met _ _ _ result).2
      | false =>
          have after := (takes_next lossless malformed).1
          cases state : tokenizer.next.after.isFinished with
          | false =>
              refine .going state after regions ?_
              rw [List.forall_mem_append, List.forall_mem_singleton]
              exact ⟨none, isLast_next_of_running malformed state⟩
          | true =>
              have ended := (next_of_finishing lossless.sound running state).resolve_left
                (Bool.eq_false_iff.mp malformed)
              have place := after.position_of_isFinished state
              refine .stopped state ⟨_, List.mem_concat_self, ?_⟩ (.concat ?_ malformed)
              · rw [Step.isLast, Step.token?, ended.1]
                exact Bool.or_true _
              · rw [position, eq_of_beq state] at place
                exact .of_fine earlier place
  | stopped finished last ends =>
      rw [next_of_isFinished finished]
      obtain ⟨step, member, isLast⟩ := last
      exact .stopped finished ⟨step, List.mem_append_left _ member, isLast⟩ (ends.concat rfl)

/-- A tokenizer that has finished stays as it is. Every call that asks for a token in any case
returns the same end without a read, and every other call returns nothing. -/
theorem session_of_isFinished {tokenizer : Tokenizer} (finished : tokenizer.isFinished = true)
    (calls : List Call) :
    tokenizer.afterCalls calls = tokenizer ∧
      tokenizer.session calls = List.replicate (calls.count .nextToken)
        (returning (.endOfInput tokenizer.source.offset) [] tokenizer) := by
  induction calls with
  | nil => exact ⟨rfl, rfl⟩
  | cons call calls ih =>
      cases call with
      | nextToken =>
          rw [List.count_cons_self, List.replicate_succ]
          simp only [afterCalls, session, answer?, next_of_isFinished finished, returning]
          exact ⟨ih.1, congrArg _ ih.2⟩
      | next =>
          rw [List.count_cons_of_ne Call.noConfusion]
          simp only [afterCalls, session, answer?, next?, if_pos finished]
          exact ih

/-- Whatever the reader, the capacity and the calls are, the tokenizer has finished if and only if
one of the calls has returned the end or met malformed text. It has stopped at the end of the
template then, or behind the malformed text; and it stays there: further calls return the same end,
or nothing, and read nothing. A tokenizer that has not finished answers every call in one way. -/
theorem session_finishes (reader : Reader) (capacity : Capacity) (calls : List Call) :
    let past := (ofReader reader capacity).session calls
    let tokenizer := (ofReader reader capacity).afterCalls calls
    (tokenizer.isFinished = true ↔ ∃ step ∈ past, step.isLast = true) ∧
      (tokenizer.isFinished = true →
        ∃ offset, EndsAt reader.template past offset ∧ tokenizer.answer? .next = none ∧
          ∀ more, tokenizer.afterCalls more = tokenizer ∧
            tokenizer.session more = List.replicate (more.count .nextToken)
              ⟨.ok (.endOfInput offset), [.token .endOfInput (.point offset)], tokenizer⟩) ∧
      (tokenizer.isFinished = false →
        ∃ step, tokenizer.answer? .next = some step ∧
          tokenizer.answer? .nextToken = some step) := by
  intro past tokenizer
  have stage : Stage reader.template past tokenizer :=
    session_induction (fun _ _ => Stage.next) (stage_ofReader reader capacity) calls
  cases stage with
  | going running lossless inRegions none =>
      refine ⟨?_, ?_, fun _ => ⟨tokenizer.next, ?_, rfl⟩⟩
      · refine iff_of_false (Bool.eq_false_iff.mp running) ?_
        rintro ⟨step, member, isLast⟩
        rw [none step member] at isLast
        contradiction
      · intro finished
        rw [running] at finished
        contradiction
      · rw [answer?, next?, if_neg (Bool.eq_false_iff.mp running)]
  | stopped finished last ends =>
      refine ⟨iff_of_true finished last, fun _ => ⟨_, ends, ?_, ?_⟩, ?_⟩
      · rw [answer?, next?, if_pos finished]
      · exact session_of_isFinished finished
      · intro running
        rw [running] at finished
        contradiction

/-- Malformed text before a delimiter: the end is behind the delimiter, the rest is never read. -/
example :
    let reader := Reader.ofDeliveries [.bytes [0xFF, 0x7B, 0x7B], .bytes [0x61], .bytes []]
    let tokenizer := (ofReader reader .standard).afterCalls [.next, .nextToken, .next]
    tokenizer.isFinished = true ∧ tokenizer.source.offset = 3 ∧
      tokenizer.intoReader.deliveries = [.bytes [0x61], .bytes []] := by decide +kernel

end Tokenizer

end TemplateLexer
