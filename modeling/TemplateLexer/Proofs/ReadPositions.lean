import TemplateLexer.Proofs.MinimalReads

namespace TemplateLexer

namespace Mode

/-- Every lead byte begins some delimiter of its mode. -/
theorem exists_formed? (mode : Mode) :
    ∃ second delimiter, mode.formed? mode.lead second = some delimiter := by
  cases mode with
  | literal => exact ⟨Construct.comment.openMark, .opening .comment, rfl⟩
  | inside construct => exact ⟨closeBrace, .closing construct, if_pos ⟨rfl, rfl⟩⟩

/-- Settled text does not end in a lead byte if nothing is known of what follows. -/
theorem Settled.getLast?_ne_lead {mode : Mode} {text : List UInt8}
    (settled : mode.Settled text []) : text.getLast? ≠ some mode.lead := by
  intro last
  obtain ⟨front, rfl⟩ := List.getLast?_eq_some_iff.mp last
  obtain ⟨second, delimiter, formed⟩ := mode.exists_formed?
  have inside : front.length < (front ++ [mode.lead]).length := by
    rw [List.length_append]
    exact Nat.lt_succ_self _
  have missing := settled [second] front.length inside
  rw [List.append_assoc, List.drop_left] at missing
  exact Option.some_ne_none delimiter (formed.symm.trans missing)

end Mode

/-- The position at which a read is reported when `count` bytes of the template were handed out:
behind these bytes, or before the last of them if this is a lead byte of the text that begins at
`start`. -/
def readPosition (template : List UInt8) (mode : Mode) (start count : Nat) : Nat :=
  if start < count ∧ template[count - 1]? = some mode.lead then count - 1 else count

/-- The position is known from the bytes that were handed out. -/
def positionBehind (mode : Mode) (start : Nat) (bytes : List UInt8) : Nat :=
  readPosition bytes mode start bytes.length

theorem positionBehind_eq {template bytes : List UInt8} (front : bytes <+: template) (mode : Mode)
    (start : Nat) :
    positionBehind mode start bytes = readPosition template mode start bytes.length := by
  obtain ⟨more, rfl⟩ := front
  rw [positionBehind, readPosition, readPosition]
  by_cases further : start < bytes.length
  · rw [List.getElem?_append_left (by omega)]
  · rw [if_neg fun both => further both.1, if_neg fun both => further both.1]

/-- A search that reads has moved on to the position behind what was handed out. -/
theorem Searching.offset_read {mode : Mode} {start : Nat} {earlier made : List ReadRecord}
    {region : Region} {source : Source}
    (searching : Searching mode start earlier region source made)
    (place : start + region.size = source.offset) :
    (source.advance (mode.settledLength source.unread)).refill.1.offset =
      positionBehind mode start (handedOut (earlier ++ made)) := by
  obtain ⟨settled, inside, text, -, -⟩ := searching
  have within := mode.settledLength_le source.unread
  have offset : (source.advance (mode.settledLength source.unread)).refill.1.offset =
      source.offset + mode.settledLength source.unread := Source.offset_advance within
  have lengths := congrArg List.length text
  rw [List.length_drop, List.length_append, Region.length_toList] at lengths
  rw [offset, positionBehind, readPosition, ← List.getLast?_eq_getElem?]
  generalize handedOut (earlier ++ made) = handed at *
  by_cases lead : source.unread.getLast? = some mode.lead
  · obtain ⟨front, unread⟩ := List.getLast?_eq_some_iff.mp lead
    have size := congrArg List.length unread
    rw [List.length_append, List.length_singleton] at size
    have last : handed.getLast? = some mode.lead := by
      rw [← List.take_append_drop start handed, text, unread, ← List.append_assoc,
        ← List.append_assoc, List.getLast?_concat]
    rw [if_pos ⟨by omega, last⟩, Mode.settledLength, if_pos lead]
    omega
  · rw [if_neg, Mode.settledLength, if_neg lead]
    · omega
    · rintro ⟨further, last⟩
      have ends : (region.bytes.toList ++ source.unread).getLast? = some mode.lead := by
        rw [← text, List.getLast?_drop, if_neg (Nat.not_le_of_lt further)]
        exact last
      -- The byte belongs to the unread ones, or else to settled text with nothing behind it.
      cases unread : source.unread with
      | nil =>
          rw [unread, List.append_nil] at ends
          rw [unread] at settled
          exact settled.getLast?_ne_lead ends
      | cons byte bytes =>
          rw [List.getLast?_append_of_ne_nil _ (by rw [unread]; exact List.cons_ne_nil _ _)] at ends
          exact lead ends

/-- Each of the reads is reported at the position behind what was handed out before it, and a read
that fails stops the scan at its own position. -/
structure ReadsPlaced (mode : Mode) (start : Nat) (earlier : List ReadRecord) (scan : Scan) :
    Prop where
  placed : ∀ before record behind, scan.reads.toList = before ++ record :: behind →
    record.offset = positionBehind mode start (handedOut (earlier ++ before))
  failed : ∀ record ∈ scan.reads, ∀ failure, record.delivery = .failure failure →
    scan.result = .error failure ∧ scan.after.offset = record.offset
  last : ∀ failure, scan.result = .error failure →
    ∃ before record, scan.reads.toList = before ++ [record] ∧ record.delivery = .failure failure

theorem ne_failure_of_silent {reads : List ReadRecord} (silent : failuresOf reads = [])
    {record : ReadRecord} (member : record ∈ reads) (failure : Failure) :
    record.delivery ≠ .failure failure := by
  intro failed
  have none := List.filterMap_eq_nil_iff.mp silent record member
  rw [failed] at none
  exact Option.some_ne_none failure none

/-- A scan makes each read at the position behind what was handed out before it. -/
theorem readsPlaced_scanFrom {mode : Mode} {start : Nat} {earlier : List ReadRecord}
    {region : Region} {source : Source} {reads : Array ReadRecord}
    (searching : Searching mode start earlier region source reads.toList)
    (place : start + region.size = source.offset) (silent : failuresOf reads.toList = [])
    (placed : ∀ before record behind, reads.toList = before ++ record :: behind →
      record.offset = positionBehind mode start (handedOut (earlier ++ before))) :
    ReadsPlaced mode start earlier (scanFrom mode region source reads) := by
  have fine (reads : Array ReadRecord) (silent : failuresOf reads.toList = []) (record : ReadRecord)
      (member : record ∈ reads) (failure : Failure) : record.delivery ≠ .failure failure :=
    ne_failure_of_silent silent (Array.mem_toList_iff.mpr member) failure
  fun_induction scanFrom mode region source reads with
  | case1 region source reads position delimiter found =>
      refine ⟨placed, fun record member failure failed =>
        absurd failed (fine reads silent record member failure), ?_⟩
      rintro _ ⟨⟩
  | case2 region source reads missing ended =>
      refine ⟨placed, fun record member failure failed =>
        absurd failed (fine reads silent record member failure), ?_⟩
      rintro _ ⟨⟩
  | case3 region source reads missing unfinished settled grown read failure failed =>
      refine ⟨?_, ?_, ?_⟩
      · rw [Array.toList_push]
        exact forall_split_concat placed (searching.offset_read place)
      · intro record member other met
        rcases Array.mem_push.mp member with before | rfl
        · exact absurd met (fine reads silent record before other)
        · rw [failed] at met
          cases met
          exact ⟨rfl, Source.offset_refill _⟩
      · rintro _ ⟨⟩
        exact ⟨reads.toList, read.1, Array.toList_push, failed⟩
  | case4 region source reads missing unfinished settled grown read going ih =>
      have within : settled ≤ source.unread.length := mode.settledLength_le source.unread
      apply ih
      · rw [Array.toList_push]
        exact searching.read silent missing (Bool.eq_false_iff.mpr unfinished)
      · rw [Region.size_append, List.length_take_of_le within, Source.offset_refill,
          Source.offset_advance within]
        omega
      · rw [Array.toList_push]
        exact failuresOf_concat_of_going silent going
      · rw [Array.toList_push]
        exact forall_split_concat placed (searching.offset_read place)

/-- Every report of a read names its position. -/
theorem lookup_offset_of_report? {record : ReadRecord} {report : Report}
    (reported : (Event.read record).report? = some report) :
    report.fields.lookup "offset" = some (.natural record.offset) := by
  obtain ⟨offset, room, delivery⟩ := record
  match delivery, reported with
  | .bytes [], rfl => rfl
  | .bytes (byte :: data), rfl => rfl

/-- The marker that the step returns, with the place behind it. -/
def Step.marker? (step : Step) : Option (Delimiter × Nat) :=
  step.token?.bind fun token =>
    token.kind.delimiter?.map fun delimiter => (delimiter, token.span.stop)

/-- The mode of the text behind the last marker that the steps returned, and its start. -/
def textBehind (past : List Step) : Mode × Nat :=
  match (past.filterMap Step.marker?).getLast? with
  | some (delimiter, stop) => (delimiter.nextMode, stop)
  | none => (.literal, 0)

/-- The last token that the steps returned, if there is one, is a marker. -/
def MarkerLast (past : List Step) : Prop :=
  ∀ token, (returned past).getLast? = some token → token.kind.isMarker = true

theorem textBehind_concat_of_marker {step : Step} {delimiter : Delimiter} {stop : Nat}
    (marker : step.marker? = some (delimiter, stop)) (past : List Step) :
    textBehind (past ++ [step]) = (delimiter.nextMode, stop) := by
  simp [textBehind, marker]

theorem behind_concat_of_silent {step : Step} (silent : step.token? = none) (past : List Step) :
    textBehind (past ++ [step]) = textBehind past ∧
      (MarkerLast past → MarkerLast (past ++ [step])) := by
  have none : step.marker? = none := by rw [Step.marker?, silent]; rfl
  constructor
  · simp [textBehind, none]
  · simp [MarkerLast, returned, silent]

theorem markerLast_concat {step : Step} {token : Token} (returns : step.token? = some token)
    (isMarker : token.kind.isMarker = true) (past : List Step) : MarkerLast (past ++ [step]) := by
  simp [MarkerLast, returned, returns, isMarker]

namespace Tokenizer

/-- A tokenizer within a text is within the text behind the last marker, which it returned last. -/
def Follows (past : List Step) (tokenizer : Tokenizer) : Prop :=
  match tokenizer.phase with
  | .scanning mode region => textBehind past = (mode, region.start) ∧ MarkerLast past
  | _ => True

theorem follows_ofReader (reader : Reader) (capacity : Capacity) :
    Follows [] (ofReader reader capacity) := ⟨rfl, nofun⟩

theorem follows_pay {due : Due} {source : Source} (sound : due.Sound source) (past : List Step)
    (events : List Event) :
    Follows (past ++ [returning (pay source due).1 events (pay source due).2])
      (pay source due).2 := by
  cases due with
  | marker delimiter position =>
      have place : position + delimiterLength = source.offset := sound
      refine ⟨?_, markerLast_concat rfl rfl past⟩
      rw [textBehind_concat_of_marker rfl]
      exact congrArg (Prod.mk _) place
  | endOfInput => trivial

theorem follows_flush {due : Due} {source : Source} (sound : due.Sound source) (past : List Step)
    (region : Region) (events : List Event) :
    Follows (past ++ [flush region due events source]) (flush region due events source).after := by
  simp only [flush]
  split
  · exact follows_pay sound past events
  · split <;> trivial

theorem next_of_scan_error {tokenizer : Tokenizer} {mode : Mode} {region : Region}
    {failure : Failure} (phase : tokenizer.phase = .scanning mode region)
    (failed : (scanFrom mode region tokenizer.source #[]).result = .error failure) :
    tokenizer.next.result =
        .error (.readFailed (scanFrom mode region tokenizer.source #[]).after.offset failure) ∧
      tokenizer.next.after.phase =
        .scanning mode (scanFrom mode region tokenizer.source #[]).region := by
  simp only [next, phase, failed, and_self]

/-- Only a scan that a failed read has stopped makes a call report a failed read. -/
theorem scan_of_readFailed {tokenizer : Tokenizer} {offset : Nat} {failure : Failure}
    (failed : tokenizer.next.result = .error (.readFailed offset failure)) :
    ∃ mode region, tokenizer.phase = .scanning mode region ∧
      (scanFrom mode region tokenizer.source #[]).result = .error failure ∧
      (scanFrom mode region tokenizer.source #[]).after.offset = offset := by
  match phase : tokenizer.phase with
  | .finished => simp [next, phase, returning] at failed
  | .owing due => simp [next, phase, returning] at failed
  | .scanning mode region =>
      refine ⟨mode, region, rfl, ?_⟩
      cases result : (scanFrom mode region tokenizer.source #[]).result with
      | ok due =>
          simp only [next, phase, result] at failed
          have silent := (failures_flush (scanFrom mode region tokenizer.source #[]).region due
            ((scanFrom mode region tokenizer.source #[]).reads.toList.map .read ++
              due.diagnosis mode (scanFrom mode region tokenizer.source #[]).after.offset)
            (scanFrom mode region tokenizer.source #[]).after).2.1
          rw [Step.failure?, failed] at silent
          contradiction
      | error met =>
          rw [(next_of_scan_error phase result).1] at failed
          cases failed
          exact ⟨rfl, rfl⟩

/-- A call keeps to the text behind the last marker until it returns the next one. -/
theorem follows_next {past : List Step} {tokenizer : Tokenizer} (sound : tokenizer.Sound)
    (follows : Follows past tokenizer) :
    Follows (past ++ [tokenizer.next]) tokenizer.next.after := by
  match phase : tokenizer.phase with
  | .finished =>
      simp only [next, phase, returning, Follows]
  | .owing due =>
      simp only [Sound, phase] at sound
      simp only [next, phase]
      exact follows_pay sound past []
  | .scanning mode region =>
      simp only [Sound, Follows, phase] at sound follows
      obtain ⟨text, last⟩ := follows
      have scanned := outlook_scanFrom sound #[]
      cases result : (scanFrom mode region tokenizer.source #[]).result with
      | ok due =>
          simp only [result] at scanned
          simp only [next, phase, result]
          exact follows_flush scanned.1 past _ _
      | error failure =>
          obtain ⟨reported, after⟩ := next_of_scan_error phase result
          have silent : tokenizer.next.token? = none := by rw [Step.token?, reported]; rfl
          obtain ⟨same, kept⟩ := behind_concat_of_silent silent past
          rw [Follows, after]
          refine ⟨?_, kept last⟩
          rw [same, text, (scanFrom_divides sound #[]).1]

theorem Stage.sound {template : List UInt8} {past : List Step} {tokenizer : Tokenizer}
    (stage : Stage template past tokenizer) : tokenizer.Sound := by
  cases stage with
  | going running lossless => exact lossless.sound
  | stopped finished =>
      rw [Sound, eq_of_beq finished]
      trivial

theorem Stage.lossless_of_scanning {template : List UInt8} {past : List Step}
    {tokenizer : Tokenizer} (stage : Stage template past tokenizer) {mode : Mode} {region : Region}
    (phase : tokenizer.phase = .scanning mode region) : Lossless template tokenizer := by
  cases stage with
  | going running lossless => exact lossless
  | stopped finished =>
      rw [isFinished, phase] at finished
      contradiction

/-- Each read of a call is reported at its position, and the failure of a read with it. -/
theorem placed_next {reader : Reader} {capacity : Capacity} {past : List Step}
    {tokenizer : Tokenizer} (account : Account reader capacity past tokenizer)
    (follows : Follows past tokenizer) :
    let earlier := past.flatMap Step.reads
    let step := tokenizer.next
    (∀ before record behind, step.reads = before ++ record :: behind →
        record.offset = positionBehind (textBehind past).1 (textBehind past).2
          (handedOut (earlier ++ before))) ∧
      (∀ record ∈ step.reads, ∀ failure, record.delivery = .failure failure →
        step.result = .error (.readFailed record.offset failure)) ∧
      ∀ offset failure, step.result = .error (.readFailed offset failure) →
        MarkerLast past ∧ ∃ before record, step.reads = before ++ [record] ∧
          record.delivery = .failure failure ∧ record.offset = offset := by
  intro earlier step
  by_cases scans : ∃ mode region, tokenizer.phase = .scanning mode region
  · obtain ⟨mode, region, phase⟩ := scans
    have lossless := account.stage.lossless_of_scanning phase
    have sound := lossless.sound
    simp only [Sound, Follows, phase] at sound follows
    obtain ⟨text, last⟩ := follows
    have reads : step.reads = (scanFrom mode region tokenizer.source #[]).reads.toList := by
      rw [reads_next, phase]
    have start : Searching mode region.start (past.flatMap Step.reads) region tokenizer.source
        (#[] : Array ReadRecord).toList := searching_of_scanning lossless account.faithful phase
    obtain ⟨placed, failed, final⟩ := readsPlaced_scanFrom start sound.place rfl forall_split_nil
    rw [text, reads]
    refine ⟨placed, ?_, ?_⟩
    · intro record member failure met
      obtain ⟨result, offset⟩ := failed record (Array.mem_toList_iff.mp member) failure met
      rw [← offset]
      exact (next_of_scan_error phase result).1
    · intro offset failure reported
      obtain ⟨_, _, same, stopped, place⟩ := scan_of_readFailed reported
      cases phase.symm.trans same
      obtain ⟨before, record, split, met⟩ := final failure stopped
      have member : record ∈ (scanFrom mode region tokenizer.source #[]).reads := by
        rw [← Array.mem_toList_iff, split]
        exact List.mem_concat_self
      exact ⟨last, before, record, split, met,
        (failed record member failure met).2.symm.trans place⟩
  · have idle : step.reads = [] := reads_next_of_not_scanning fun mode region phase =>
      scans ⟨mode, region, phase⟩
    rw [idle]
    refine ⟨forall_split_nil, fun _ member => absurd member List.not_mem_nil, ?_⟩
    intro offset failure reported
    obtain ⟨mode, region, phase, -⟩ := scan_of_readFailed reported
    exact absurd ⟨mode, region, phase⟩ scans

/-- A read that fails hands out nothing. -/
theorem handedOut_concat_of_failure {record : ReadRecord} {failure : Failure}
    (failed : record.delivery = .failure failure) (reads : List ReadRecord) :
    handedOut (reads ++ [record]) = handedOut reads := by
  rw [handedOut_append_singleton, failed]
  exact List.append_nil _

/-- What is decided behind a read that has failed was decided before it. -/
theorem decided_of_failure {mode : Mode} {start : Nat} {earlier before : List ReadRecord}
    {record : ReadRecord} {failure : Failure} (failed : record.delivery = .failure failure)
    (decided : Decided mode start (earlier ++ (before ++ [record])) []) :
    Decided mode start earlier before := by
  rw [Decided, List.append_nil, ← List.append_assoc, handedOut_concat_of_failure failed,
    hasEnded_append_singleton, failed] at decided
  rcases decided with delimiter | (ended | ended) | met
  · exact .inl delimiter
  · exact .inr (.inl ended)
  · contradiction
  · exact absurd rfl met

/-- The read that failed is made again by the next call, at the same position. -/
theorem reads_again {reader : Reader} {capacity : Capacity} {past : List Step}
    {tokenizer : Tokenizer} (account : Account reader capacity past tokenizer)
    (follows : Follows past tokenizer) {offset : Nat} {failure : Failure}
    (failed : tokenizer.next.result = .error (.readFailed offset failure)) :
    ∃ record behind, tokenizer.next.after.next.reads = record :: behind ∧
      record.offset = offset := by
  obtain ⟨mode, region, phase, stopped, -⟩ := scan_of_readFailed failed
  obtain ⟨placed, -, final⟩ := placed_next account follows
  obtain ⟨-, before, first, reads, met, same⟩ := final offset failure failed
  have lossless := account.stage.lossless_of_scanning phase
  have sound := lossless.sound
  simp only [Sound, phase] at sound
  -- The call that failed had not decided anything before its last read.
  have undecided : ¬ Decided mode region.start (past.flatMap Step.reads) before :=
    (readsUntil_next lossless account.faithful phase).2.wanted before first [] reads
  have after := (next_of_scan_error phase stopped).2
  have until' := (readsUntil_next (account.next.stage.lossless_of_scanning after)
    account.next.faithful after).2.stopped
  rw [(scanFrom_divides sound #[]).1, List.flatMap_append, List.flatMap_singleton, reads] at until'
  have silent : tokenizer.next.token? = none := by rw [Step.token?, failed]; rfl
  have text := (behind_concat_of_silent silent past).1
  obtain ⟨again, -, -⟩ := placed_next account.next (follows_next lossless.sound follows)
  cases made : tokenizer.next.after.next.reads with
  | nil =>
      rw [made] at until'
      exact absurd (decided_of_failure met until') undecided
  | cons second behind =>
      refine ⟨second, behind, rfl, ?_⟩
      rw [again [] second behind made, text, ← same, placed before first [] reads, List.append_nil,
        List.flatMap_append, List.flatMap_singleton, reads, ← List.append_assoc,
        handedOut_concat_of_failure met]

/-- Whatever the reader, the capacity and the calls are, the next call makes each of its reads at
the position behind the bytes that were handed out before it, or before the last of them if this is
a lead byte of the text that follows the last marker. This position is in the report of a read that
delivers bytes, in that of a read that meets the end, and in the error for a read that fails. Before
a read that fails no text was returned behind the last marker, and the call that follows it makes
the read again, at the same position. -/
theorem session_readPositions (reader : Reader) (capacity : Capacity) (calls : List Call) :
    let past := (ofReader reader capacity).session calls
    let step := ((ofReader reader capacity).afterCalls calls).next
    let text := textBehind past
    let position (before : List ReadRecord) : Nat :=
      readPosition reader.template text.1 text.2
        (handedOut (past.flatMap Step.reads ++ before)).length
    (∀ before record behind, step.reads = before ++ record :: behind →
        record.offset = position before ∧
          (∀ report, (Event.read record).report? = some report →
            report.fields.lookup "offset" = some (.natural (position before))) ∧
          (∀ data, record.delivery = .bytes data → data ≠ [] →
            (Event.read record).report? =
              some ⟨"TRACE", "source refilled",
                [("offset", .natural (position before)), ("bytes", .natural data.length)]⟩) ∧
          (record.delivery = .bytes [] →
            (Event.read record).report? =
              some ⟨"TRACE", "source exhausted", [("offset", .natural (position before))]⟩) ∧
          ∀ failure, record.delivery = .failure failure →
            step.result = .error (.readFailed (position before) failure)) ∧
      ∀ offset failure, step.result = .error (.readFailed offset failure) →
        MarkerLast past ∧
          (∃ before record, step.reads = before ++ [record] ∧
            record.delivery = .failure failure ∧ offset = position before) ∧
          ∃ record behind, step.after.next.reads = record :: behind ∧ record.offset = offset := by
  intro past step text position
  obtain ⟨account, follows⟩ : Account reader capacity past _ ∧ Follows past _ :=
    session_induction (motive := fun past tokenizer =>
        Account reader capacity past tokenizer ∧ Follows past tokenizer)
      (fun past tokenizer both => ⟨both.1.next, follows_next both.1.stage.sound both.2⟩)
      ⟨account_ofReader reader capacity, follows_ofReader reader capacity⟩ calls
  obtain ⟨placed, failed, final⟩ := placed_next account follows
  -- Only what the reader delivers before it reports the end is handed out.
  have front : handedOut (past.flatMap Step.reads ++ step.reads) <+: reader.template :=
    (faithful_next account.faithful).isPrefix_template
  have known (before : List ReadRecord) (record : ReadRecord) (behind : List ReadRecord)
      (split : step.reads = before ++ record :: behind) : record.offset = position before := by
    rw [placed before record behind split]
    apply positionBehind_eq
    rw [split, ← List.append_assoc, handedOut_append] at front
    exact (List.prefix_append _ _).trans front
  constructor
  · intro before record behind split
    have place := known before record behind split
    rw [← place]
    refine ⟨rfl, ?_, ?_, Event.report?_of_end, ?_⟩
    · intro report reported
      exact lookup_offset_of_report? reported
    · intro data delivered filled
      exact Event.report?_of_bytes delivered filled
    · intro failure met
      refine failed record ?_ failure met
      change record ∈ step.reads
      rw [split]
      exact List.mem_append_right _ (.head _)
  · intro offset failure reported
    obtain ⟨last, before, record, split, met, same⟩ := final offset failure reported
    refine ⟨last, ⟨before, record, split, met, ?_⟩, reads_again account follows reported⟩
    rw [← same]
    exact known before record [] split

end Tokenizer

end TemplateLexer
