import TemplateLexer.Proofs.MinimalReads
import TemplateLexer.Proofs.Tape

namespace TemplateLexer

namespace Buffer

theorem start_eq_stop_iff (buffer : Buffer) : buffer.start = buffer.stop ↔ buffer.unread = [] := by
  rw [← List.length_eq_zero_iff, stop]
  omega

theorem stop_sub_start (buffer : Buffer) : buffer.stop - buffer.start = buffer.unread.length :=
  Nat.add_sub_cancel_left _ _

theorem stop_release (buffer : Buffer) (count : Nat) :
    (buffer.release count).stop = buffer.stop := by
  change buffer.start + min count buffer.unread.length + (buffer.unread.drop count).length = _
  rw [List.length_drop, stop]
  omega

theorem stop_receive (buffer : Buffer) {data : List UInt8} (inside : data.length ≤ buffer.room) :
    (buffer.receive data inside).stop = buffer.stop + data.length := by
  change buffer.start + (buffer.unread ++ data).length = _
  rw [List.length_append, ← Nat.add_assoc]
  rfl

/-- The cells of a buffer with nothing unread hold it also when it starts anew. -/
theorem HeldBy.makeRoom_of_nil {buffer : Buffer} {cells : List UInt8} (held : buffer.HeldBy cells)
    (nothing : buffer.unread = []) : buffer.makeRoom.HeldBy cells := by
  constructor
  · rw [capacity_makeRoom, held.size]
  · rw [stop_makeRoom, unread_makeRoom, nothing, List.length_nil, Nat.add_zero, extract_self]

end Buffer

namespace Source

/-- The tape that keeps the bytes of the source in the cells. -/
def onTape (source : Source) (cells : List UInt8) : Tape :=
  ⟨source.reader, cells, source.buffer.start, source.buffer.stop, source.offset, source.exhausted⟩

variable {source : Source} {cells : List UInt8}

theorem difference_onTape (source : Source) :
    Checked.difference source.buffer.stop source.buffer.start = .ok source.unread.length := by
  have ordered : source.buffer.start ≤ source.buffer.stop := Nat.le_add_right _ _
  rw [Checked.difference, if_pos ordered, source.buffer.stop_sub_start]
  rfl

theorem range_onTape (held : source.buffer.HeldBy cells) :
    Checked.range cells source.buffer.start source.buffer.stop = .ok source.unread := by
  have ordered : source.buffer.start ≤ source.buffer.stop := Nat.le_add_right _ _
  have inside : source.buffer.stop ≤ cells.length := held.size ▸ source.buffer.stop_le_size
  rw [Checked.range, if_pos ⟨ordered, inside⟩, held.unread]
  rfl

theorem makeRoom_onTape (held : source.buffer.HeldBy cells) :
    ∃ cells', source.buffer.makeRoom.HeldBy cells' ∧
      (source.onTape cells).makeRoom = .ok (source.roomy.onTape cells') := by
  have start := source.buffer.start_makeRoom
  have stop := source.buffer.stop_makeRoom
  by_cases nothing : source.buffer.unread = []
  · rw [if_pos (.inl nothing)] at start
    rw [start, nothing] at stop
    refine ⟨cells, held.makeRoom_of_nil nothing, ?_⟩
    refine (if_pos (source.buffer.start_eq_stop_iff.mpr nothing)).trans ?_
    simp only [onTape, roomy, start, stop]
    rfl
  · have apart : source.buffer.start ≠ source.buffer.stop := fun same =>
      nothing (source.buffer.start_eq_stop_iff.mp same)
    have room := held.makeRoom
    by_cases full : source.buffer.stop = source.buffer.capacity.size
    · rw [if_pos (.inr full)] at start
      rw [start, Nat.zero_add] at stop
      rw [Buffer.copyToFront, if_pos full, held.unread] at room
      refine ⟨_, room, ?_⟩
      have fits : 0 + source.unread.length ≤ cells.length := by
        have inside := source.buffer.fits
        rw [held.size, Nat.zero_add]
        exact Nat.le_of_add_left_le inside
      have written : Checked.write cells 0 source.unread = .ok (overwrite cells 0 source.unread) :=
        if_pos fits
      refine (if_neg apart).trans ((if_pos (full.trans held.size.symm)).trans ?_)
      refine (bind_of_ok (range_onTape held) _).trans ?_
      refine (bind_of_ok written _).trans ?_
      refine (bind_of_ok (difference_onTape source) _).trans ?_
      simp only [onTape, roomy, start, stop]
      rfl
    · rw [if_neg (not_or.mpr ⟨nothing, full⟩)] at start
      rw [start] at stop
      rw [Buffer.copyToFront, if_neg full] at room
      refine ⟨cells, room, ?_⟩
      have short : source.buffer.stop ≠ cells.length := fun same => full (same.trans held.size)
      refine (if_neg apart).trans ((if_neg short).trans ?_)
      simp only [onTape, roomy, start, stop]
      rfl

theorem refill_onTape (held : source.buffer.makeRoom.HeldBy cells) :
    ∃ cells', source.refill.2.buffer.HeldBy cells' ∧
      (source.roomy.onTape cells).refill =
        .ok (source.refill.1, source.refill.2.onTape cells') := by
  have inside := source.length_data_refill_le
  have fits := source.buffer.makeRoom.stop_le_size
  have stop : source.refill.2.buffer.stop =
      source.buffer.makeRoom.stop + source.refill.1.delivery.data.length :=
    (congrArg Buffer.stop source.buffer_refill).trans (Buffer.stop_receive _ _)
  have ended : source.refill.2.exhausted =
      (source.exhausted || source.refill.1.delivery == .bytes []) := by
    rw [Bool.eq_iff_iff, exhausted_refill_iff, Bool.or_eq_true, beq_iff_eq]
  refine ⟨_, buffer_refill source ▸ held.receive inside, ?_⟩
  have room : Checked.difference cells.length source.buffer.makeRoom.stop =
      .ok source.refill.1.room := by
    rw [Checked.difference, if_pos (held.size ▸ fits), held.size]
    rfl
  have written : Checked.write cells source.buffer.makeRoom.stop
      source.refill.1.delivery.data =
        .ok (overwrite cells source.buffer.makeRoom.stop source.refill.1.delivery.data) := by
    apply if_pos
    rw [room_refill, Buffer.room] at inside
    rw [held.size]
    omega
  refine (bind_of_ok room _).trans ?_
  refine (bind_of_ok written _).trans ?_
  simp only [onTape, reader_refill, start_refill, offset_refill, stop, ended]
  rfl

theorem wantedRead_onTape (held : source.buffer.HeldBy cells) {count : Nat}
    (unfinished : source.exhausted = false) (short : source.unread.length < count) :
    ∃ cells', source.refill.2.buffer.HeldBy cells' ∧
      (source.onTape cells).wantedRead count =
        .ok (some (source.refill.1, source.refill.2.onTape cells')) := by
  obtain ⟨roomy, held, made⟩ := makeRoom_onTape held
  obtain ⟨after, held, read⟩ := refill_onTape held
  refine ⟨after, held, ?_⟩
  refine (bind_of_ok (difference_onTape source) _).trans ?_
  refine (if_pos ⟨unfinished, short⟩).trans ?_
  exact (bind_of_ok made _).trans (bind_of_ok read _)

theorem wantedRead_onTape_of_enough {count : Nat} (cells : List UInt8)
    (enough : ¬ (source.exhausted = false ∧ source.unread.length < count)) :
    (source.onTape cells).wantedRead count = .ok none :=
  (bind_of_ok (difference_onTape source) _).trans (if_neg enough)

/-- Reading ahead passes its checks. -/
theorem ensureFrom_onTape (held : source.buffer.HeldBy cells) (count : Nat)
    (reads : Array ReadRecord) :
    ∃ cells', (ensureFrom count source reads).after.buffer.HeldBy cells' ∧
      (source.onTape cells).ensureFrom count reads =
        .ok ⟨(ensureFrom count source reads).result, (ensureFrom count source reads).reads,
          (ensureFrom count source reads).after.onTape cells'⟩ := by
  fun_induction ensureFrom count source reads generalizing cells with
  | @case1 source reads short read failure failed =>
      obtain ⟨after, held, wanted⟩ := wantedRead_onTape held short.1 short.2
      exact ⟨after, held, Tape.ensureFrom_of_failure wanted failed reads⟩
  | @case2 source reads short read going ih =>
      obtain ⟨after, held, wanted⟩ := wantedRead_onTape held short.1 short.2
      obtain ⟨last, held, same⟩ := ih held
      exact ⟨last, held, (Tape.ensureFrom_of_going wanted going reads).trans same⟩
  | case3 source reads enough =>
      refine ⟨cells, held, ?_⟩
      exact Tape.ensureFrom_of_enough (wantedRead_onTape_of_enough cells enough) reads

theorem look_onTape (held : source.buffer.HeldBy cells) (count : Nat) :
    let look := source.ensure count
    ∃ cells', look.after.buffer.HeldBy cells' ∧
      (source.onTape cells).look count =
        .ok ⟨look.result.map fun _ => look.after.unread, look.reads, look.after.onTape cells'⟩ := by
  obtain ⟨after, held, ensured⟩ := ensureFrom_onTape held count #[]
  refine ⟨after, held, ?_⟩
  exact (bind_of_ok ensured _).trans (bind_of_ok (range_onTape held) _)

/-- The place in the template up to which bytes were received. -/
def received (source : Source) : Nat := source.offset + source.unread.length

theorem received_advance {count : Nat} (within : count ≤ source.unread.length) :
    (source.advance count).received = source.received := by
  rw [received, received, offset_advance within, unread_advance, List.length_drop]
  omega

/-- Bytes that are unread are released if what was received is within the limit. -/
theorem advance_onTape {limit count : Nat} (cells : List UInt8)
    (within : count ≤ source.unread.length) (few : (source.advance count).received ≤ limit) :
    (source.onTape cells).advance limit count = .ok ((source.advance count).onTape cells) := by
  rw [received_advance within] at few
  have sum : Checked.sum limit source.offset count = .ok (source.offset + count) :=
    if_pos (Nat.le_trans (Nat.add_le_add_left within source.offset) few)
  refine (bind_of_ok (difference_onTape source) _).trans ?_
  refine (if_pos within).trans ((bind_of_ok sum _).trans ?_)
  have start : (source.advance count).buffer.start = source.buffer.start + count :=
    congrArg _ (Nat.min_eq_left within)
  have stop : (source.advance count).buffer.stop = source.buffer.stop :=
    source.buffer.stop_release count
  simp only [onTape, start, stop, offset_advance within]
  rfl

theorem received_refill (source : Source) : source.received ≤ source.refill.2.received := by
  rw [received, received, offset_refill, unread_refill, List.length_append]
  omega

theorem received_ensure (source : Source) (count : Nat) :
    source.received ≤ (source.ensure count).after.received := by
  rw [received, received, offset_ensure]
  exact Nat.add_le_add_left (source.length_le_ensure count) _

end Source

theorem received_scanFrom (mode : Mode) (region : Region) (source : Source)
    (reads : Array ReadRecord) :
    source.received ≤ (scanFrom mode region source reads).after.received := by
  apply scanFrom_induction (motive := fun _ after => source.received ≤ after.received)
  · intro reads after count within below
    rwa [Source.received_advance within]
  · intro reads after _ _ below
    exact Nat.le_trans below after.received_refill
  · exact Nat.le_refl _

/-- The scan with the source behind it on a tape. -/
def Scan.onTape (scan : Scan) (cells : List UInt8) : Tape.Scan :=
  ⟨scan.result, scan.region, scan.reads, scan.after.onTape cells⟩

namespace Round

def onTape (cells : List UInt8) : Round → Tape.Round
  | stops scan => .stops (scan.onTape cells)
  | goesOn region source reads => .goesOn region (source.onTape cells) reads

/-- The source behind the round. -/
def after : Round → Source
  | stops scan => scan.after
  | goesOn _ source _ => source

end Round

theorem length_of_second {mode : Mode} {unread : List UInt8} {delimiter : Delimiter}
    (formed : unread[1]?.bind (mode.formed? mode.lead) = some delimiter) :
    delimiterLength ≤ unread.length := by
  obtain ⟨second, present, -⟩ := Option.bind_eq_some_iff.mp formed
  exact (List.getElem?_eq_some_iff.mp present).1

theorem received_roundAtLead {mode : Mode} {source : Source} (filled : 0 < source.unread.length)
    (region : Region) (reads : Array ReadRecord) :
    source.received ≤ (roundAtLead mode region source reads).after.received := by
  have more := source.received_ensure delimiterLength
  have longer := source.length_le_ensure delimiterLength
  simp only [roundAtLead, Source.lookahead]
  generalize source.ensure delimiterLength = look at *
  cases result : look.result with
  | error failure => exact more
  | ok =>
      simp only [Except.map]
      cases formed : look.after.unread[1]?.bind (mode.formed? mode.lead) with
      | some delimiter => exact (Source.received_advance (length_of_second formed)).symm ▸ more
      | none => exact (Source.received_advance (Nat.lt_of_lt_of_le filled longer)).symm ▸ more

/-- At a lead byte the first byte that a look shows is the lead, and a delimiter is released only if
its second byte is there too. -/
theorem roundAtLead_onTape {limit : Nat} {mode : Mode} {source : Source} {cells rest : List UInt8}
    (held : source.buffer.HeldBy cells) (unread : source.unread = mode.lead :: rest)
    (region : Region) (reads : Array ReadRecord)
    (few : (roundAtLead mode region source reads).after.received ≤ limit) :
    ∃ cells', (roundAtLead mode region source reads).after.buffer.HeldBy cells' ∧
      Tape.roundAtLead limit mode region (source.onTape cells) reads =
        .ok ((roundAtLead mode region source reads).onTape cells') := by
  obtain ⟨ahead, held, looked⟩ := Source.look_onTape held delimiterLength
  have longer := source.unread_prefix_ensure delimiterLength
  simp only [roundAtLead, Source.lookahead] at few ⊢
  generalize source.ensure delimiterLength = look at *
  cases result : look.result with
  | error failure =>
      rw [result] at looked
      exact ⟨ahead, held, bind_of_ok looked _⟩
  | ok =>
      rw [result] at looked
      simp only [result, Except.map] at few ⊢
      -- What was read stands behind the lead byte, which is still the first.
      have first : look.after.unread[0]? = some mode.lead := by
        obtain ⟨behind, whole⟩ := longer
        rw [← whole, unread]
        rfl
      cases formed : look.after.unread[1]?.bind (mode.formed? mode.lead) with
      | some delimiter =>
          simp only [formed] at few
          have within := length_of_second formed
          refine ⟨ahead, held.release _, ?_⟩
          refine (bind_of_ok looked _).trans ((if_pos first).trans ?_)
          simp only [formed]
          exact bind_of_ok (Source.advance_onTape ahead within few) _
      | none =>
          simp only [formed] at few
          have within : 1 ≤ look.after.unread.length :=
            (List.getElem?_eq_some_iff.mp first).1
          refine ⟨ahead, held.release _, ?_⟩
          refine (bind_of_ok looked _).trans ((if_pos first).trans ?_)
          simp only [formed]
          exact bind_of_ok (Source.advance_onTape ahead within few) _

/-- The bytes before the first lead byte of a window are released, and then the lead byte is the
first of those that are unread. -/
theorem front_onTape {limit : Nat} {mode : Mode} {source : Source} {position : Nat}
    (place : source.unread.idxOf? mode.lead = some position) (region : Region)
    (reads : Array ReadRecord)
    (few : (roundAtLead mode region (source.advance position) reads).after.received ≤ limit)
    (cells : List UInt8) :
    (source.advance position).unread = mode.lead :: source.unread.drop (position + 1) ∧
      Checked.range source.unread 0 position = .ok (source.unread.take position) ∧
      (source.onTape cells).advance limit position =
        .ok ((source.advance position).onTape cells) := by
  have within := Nat.le_of_lt (List.idxOf?_eq_some_iff.mp place).1
  have unread := Source.unread_advance_of_lead place
  have filled : 0 < (source.advance position).unread.length := by
    rw [unread]
    exact Nat.succ_pos _
  have fewer := Nat.le_trans (received_roundAtLead filled region reads) few
  refine ⟨unread, ?_, Source.advance_onTape cells within fewer⟩
  refine (if_pos ⟨Nat.zero_le _, within⟩).trans ?_
  rw [List.extract_eq_take_drop, List.drop_zero, Nat.sub_zero]

/-- A round passes its checks: it releases only bytes that its window has shown. -/
theorem round_onTape {limit : Nat} {source : Source} {cells : List UInt8}
    (held : source.buffer.HeldBy cells) (mode : Mode) (region : Region) (reads : Array ReadRecord)
    (few : (round mode region source reads).after.received ≤ limit) :
    ∃ cells', (round mode region source reads).after.buffer.HeldBy cells' ∧
      Tape.round limit mode region (source.onTape cells) reads =
        .ok ((round mode region source reads).onTape cells') := by
  obtain ⟨ahead, held, looked⟩ := Source.look_onTape held 1
  simp only [round, Source.window] at few ⊢
  generalize source.ensure 1 = look at *
  cases result : look.result with
  | error failure =>
      rw [result] at looked
      exact ⟨ahead, held, bind_of_ok looked _⟩
  | ok =>
      rw [result] at looked
      simp only [result, Except.map] at few ⊢
      by_cases empty : look.after.unread.isEmpty = true
      · rw [if_pos empty]
        exact ⟨ahead, held, (bind_of_ok looked _).trans (if_pos empty)⟩
      · rw [if_neg empty] at few ⊢
        cases place : look.after.unread.idxOf? mode.lead with
        | none =>
            simp only [place] at few
            refine ⟨ahead, held.release _, ?_⟩
            refine (bind_of_ok looked _).trans ((if_neg empty).trans ?_)
            simp only [place]
            exact bind_of_ok (Source.advance_onTape ahead (Nat.le_refl _) few) _
        | some position =>
            simp only [place] at few
            obtain ⟨unread, front, advanced⟩ := front_onTape place _ _ few ahead
            obtain ⟨behind, held, made⟩ :=
              roundAtLead_onTape (held.release position) unread _ _ few
            refine ⟨behind, held, ?_⟩
            refine (bind_of_ok looked _).trans ((if_neg empty).trans ?_)
            simp only [place]
            exact (bind_of_ok front _).trans ((bind_of_ok advanced _).trans made)

/-- The loop on the tape passes its checks and ends as the loop of the source does. -/
theorem Rounds.onTape {limit : Nat} {mode : Mode} {region : Region} {source : Source}
    {reads : Array ReadRecord} {count : Nat} {scan : Scan}
    (rounds : Rounds mode region source reads count scan) {cells : List UInt8}
    (held : source.buffer.HeldBy cells) (few : scan.after.received ≤ limit) :
    ∃ cells', scan.after.buffer.HeldBy cells' ∧
      Tape.scanFrom limit mode region (source.onTape cells) reads = .ok (scan.onTape cells') := by
  induction rounds generalizing cells with
  | @last region source reads scan stops =>
      have within : (round mode region source reads).after.received ≤ limit := by
        rw [stops]
        exact few
      obtain ⟨behind, held, made⟩ := round_onTape held mode region reads within
      rw [stops] at held made
      exact ⟨behind, held, Tape.scanFrom_of_stops made⟩
  | @more region region' source source' reads reads' count scan goesOn rest ih =>
      -- The rounds to come receive more bytes than this one, so that it is within the limit too.
      have within : (round mode region source reads).after.received ≤ limit := by
        have more := received_scanFrom mode region' source' reads'
        rw [← rest.eq_scanFrom.2] at more
        rw [goesOn]
        exact Nat.le_trans more few
      obtain ⟨middle, held, made⟩ := round_onTape held mode region reads within
      rw [goesOn] at held made
      obtain ⟨behind, held, scanned⟩ := ih held few
      exact ⟨behind, held, (Tape.scanFrom_of_goesOn made).trans scanned⟩

theorem scanFrom_onTape {limit : Nat} {source : Source} {cells : List UInt8}
    (held : source.buffer.HeldBy cells) (mode : Mode) (region : Region) (reads : Array ReadRecord)
    (few : (scanFrom mode region source reads).after.received ≤ limit) :
    ∃ cells', (scanFrom mode region source reads).after.buffer.HeldBy cells' ∧
      Tape.scanFrom limit mode region (source.onTape cells) reads =
        .ok ((scanFrom mode region source reads).onTape cells') := by
  obtain ⟨count, -, rounds⟩ := rounds_scanFrom mode region source reads
  exact rounds.onTape held few

/-- A scan that found something has its text before what is due. -/
theorem text_within_of_found {mode : Mode} {region : Region} {source : Source} {due : Due}
    (scanning : Scanning mode region source) {reads : Array ReadRecord}
    (found : (scanFrom mode region source reads).result = .ok due) :
    due.Sound (scanFrom mode region source reads).after ∧
      (scanFrom mode region source reads).region.start +
          (scanFrom mode region source reads).region.size ≤
        (scanFrom mode region source reads).after.offset := by
  have divides := scanFrom_divides scanning reads
  generalize scanFrom mode region source reads = scan at *
  obtain ⟨start, divides⟩ := divides
  rw [found] at divides
  cases due with
  | marker delimiter position =>
      obtain ⟨-, place, offset, -⟩ := divides
      refine ⟨offset, ?_⟩
      rw [start, ← place, ← offset]
      exact Nat.le_add_right _ _
  | endOfInput =>
      obtain ⟨-, offset, ended, -⟩ := divides
      refine ⟨ended, ?_⟩
      rw [start, offset]

namespace Tokenizer

/-- The tokenizer with its source on a tape. -/
def onTape (tokenizer : Tokenizer) (cells : List UInt8) : Tape.Tokenizer :=
  ⟨tokenizer.source.onTape cells, tokenizer.phase⟩

end Tokenizer

def Step.onTape (step : Step) (cells : List UInt8) : Tape.Step :=
  ⟨step.result, step.events, step.after.onTape cells⟩

namespace Tokenizer

variable {limit : Nat} {source : Source}

/-- The sums of a marker stop at the offset of the source. -/
theorem pay_onTape {due : Due} (sound : due.Sound source) (few : source.received ≤ limit)
    (cells : List UInt8) :
    Tape.pay limit (source.onTape cells) due =
      .ok ((pay source due).1, (pay source due).2.onTape cells) := by
  cases due with
  | endOfInput => rfl
  | marker delimiter position =>
      have place : position + delimiterLength = source.offset := sound
      have sum : Checked.sum limit position delimiterLength = .ok (position + delimiterLength) := by
        apply if_pos
        rw [place]
        exact Nat.le_of_add_right_le few
      exact bind_of_ok sum _

theorem flush_onTape {due : Due} {region : Region} (sound : due.Sound source)
    (within : region.start + region.size ≤ source.offset) (few : source.received ≤ limit)
    (events : List Event) (cells : List UInt8) :
    Tape.flush limit region due events (source.onTape cells) =
      .ok ((flush region due events source).onTape cells) := by
  have stop : Checked.sum limit region.start region.size = .ok (region.start + region.size) :=
    if_pos (Nat.le_trans within (Nat.le_of_add_right_le few))
  simp only [flush]
  by_cases empty : region.isEmpty = true
  · rw [if_pos empty]
    exact (if_pos empty).trans (bind_of_ok (pay_onTape sound few cells) _)
  · rw [if_neg empty]
    refine (if_neg empty).trans ((bind_of_ok stop _).trans ?_)
    cases read : Utf8.decode region.bytes.toList with
    | ok contents => rfl
    | error fault =>
        -- The first fault lies within the text, and so below the place where this stops.
        have before := (Utf8.decode_eq_error_iff_firstFault.mp read).within
        rw [region.length_toList] at before
        have sum : Checked.sum limit region.start fault.validLength =
            .ok (region.start + fault.validLength) := by
          apply if_pos
          rw [Source.received] at few
          omega
        exact bind_of_ok sum _

theorem received_next (tokenizer : Tokenizer) :
    tokenizer.source.received ≤ tokenizer.next.after.source.received := by
  rw [source_next]
  split
  · exact received_scanFrom _ _ _ _
  · exact Nat.le_refl _

/-- A call passes its checks. -/
theorem next_onTape {tokenizer : Tokenizer} (sound : tokenizer.Sound) {cells : List UInt8}
    (held : tokenizer.source.buffer.HeldBy cells)
    (few : tokenizer.next.after.source.received ≤ limit) :
    ∃ cells', tokenizer.next.after.source.buffer.HeldBy cells' ∧
      (tokenizer.onTape cells).next limit = .ok (tokenizer.next.onTape cells') := by
  obtain ⟨source, phase⟩ := tokenizer
  rw [source_next] at few ⊢
  cases phase with
  | finished => exact ⟨cells, held, rfl⟩
  | owing due => exact ⟨cells, held, bind_of_ok (pay_onTape sound few cells) _⟩
  | scanning mode region =>
      obtain ⟨behind, held, scanned⟩ := scanFrom_onTape held mode region #[] few
      refine ⟨behind, held, (bind_of_ok scanned _).trans ?_⟩
      simp only [next, Scan.onTape]
      cases result : (scanFrom mode region source #[]).result with
      | error failure => rfl
      | ok due =>
          obtain ⟨due, within⟩ := text_within_of_found sound result
          exact flush_onTape due within few _ behind

theorem sound_next {tokenizer : Tokenizer} (sound : tokenizer.Sound) :
    tokenizer.next.after.Sound := by
  cases state : tokenizer.isFinished with
  | true =>
      rw [next_of_isFinished state]
      exact sound
  | false => exact (outlook_next sound state).1

theorem received_afterCalls (tokenizer : Tokenizer) (calls : List Call) :
    tokenizer.source.received ≤ (tokenizer.afterCalls calls).source.received :=
  @session_induction (fun _ after => tokenizer.source.received ≤ after.source.received)
    (fun _ after below => Nat.le_trans below after.received_next) [] tokenizer (Nat.le_refl _) calls

theorem answer?_onTape {tokenizer : Tokenizer} {call : Call} {step : Step}
    (sound : tokenizer.Sound) {cells : List UInt8} (held : tokenizer.source.buffer.HeldBy cells)
    (answered : tokenizer.answer? call = some step)
    (few : step.after.source.received ≤ limit) :
    ∃ cells', step.after.source.buffer.HeldBy cells' ∧
      (tokenizer.onTape cells).answer? limit call = .ok (some (step.onTape cells')) := by
  obtain rfl := eq_next_of_answer? answered
  obtain ⟨behind, held, made⟩ := next_onTape sound held few
  refine ⟨behind, held, ?_⟩
  cases call with
  | nextToken => exact bind_of_ok made _
  | next =>
      have running := (next?_eq_some_iff.mp answered).1
      exact (if_neg (Bool.eq_false_iff.mp running)).trans (bind_of_ok made _)

theorem answer?_onTape_of_none {tokenizer : Tokenizer} {call : Call}
    (silent : tokenizer.answer? call = none) (limit : Nat) (cells : List UInt8) :
    (tokenizer.onTape cells).answer? limit call = .ok none := by
  cases call with
  | nextToken => contradiction
  | next => exact if_pos (next?_eq_none_iff.mp silent)

/-- Calls pass their checks as long as what was received is within the limit. -/
theorem session_onTape {tokenizer : Tokenizer} (sound : tokenizer.Sound) {cells : List UInt8}
    (held : tokenizer.source.buffer.HeldBy cells) (calls : List Call)
    (few : (tokenizer.afterCalls calls).source.received ≤ limit) :
    ∃ cells', (tokenizer.afterCalls calls).source.buffer.HeldBy cells' ∧
      (tokenizer.onTape cells).session limit calls =
        .ok ((tokenizer.session calls).map fun step => (step.result, step.events),
          (tokenizer.afterCalls calls).onTape cells') := by
  induction calls generalizing tokenizer cells with
  | nil => exact ⟨cells, held, rfl⟩
  | cons call calls ih =>
      rw [afterCalls] at few ⊢
      rw [session]
      cases answered : tokenizer.answer? call with
      | none =>
          simp only [answered] at few ⊢
          obtain ⟨behind, held, rest⟩ := ih sound held few
          refine ⟨behind, held, ?_⟩
          exact (bind_of_ok (answer?_onTape_of_none answered limit cells) _).trans rest
      | some step =>
          simp only [answered] at few ⊢
          obtain ⟨middle, held, made⟩ := answer?_onTape sound held answered
            (Nat.le_trans (step.after.received_afterCalls calls) few)
          have after : step.after.Sound := eq_next_of_answer? answered ▸ sound_next sound
          obtain ⟨behind, held, rest⟩ := ih after held few
          refine ⟨behind, held, ?_⟩
          exact (bind_of_ok made _).trans (bind_of_ok rest _)

/-- What was received is what the reader has handed out. -/
theorem received_afterCalls_ofReader (reader : Reader) (capacity : Capacity) (calls : List Call) :
    ((ofReader reader capacity).afterCalls calls).source.received =
      (handedOut (((ofReader reader capacity).session calls).flatMap Step.reads)).length := by
  have account : Account reader capacity ((ofReader reader capacity).session calls)
      ((ofReader reader capacity).afterCalls calls) :=
    session_induction (fun _ _ => Account.next) (account_ofReader reader capacity) calls
  obtain ⟨-, inside, -, -, handed, -⟩ := account.faithful
  rw [handed, List.length_append, List.length_take_of_le inside]
  rfl

/-- Whatever the reader, the capacity and the calls are, no check fails if the limit of the sums is
not below the number of bytes that the reader has handed out: the calls end on the tape with the
same results, the same events and the same offsets as on the source, whose buffer the cells hold.
The limit may be that number itself, or the largest word if that number is a word. -/
theorem session_passesChecks (reader : Reader) (capacity : Capacity) (calls : List Call)
    (limit : Nat)
    (few : (handedOut (((ofReader reader capacity).session calls).flatMap Step.reads)).length ≤
      limit) :
    ∃ cells, ((ofReader reader capacity).afterCalls calls).source.buffer.HeldBy cells ∧
      (Tape.Tokenizer.ofReader reader capacity).session limit calls =
        .ok (((ofReader reader capacity).session calls).map fun step => (step.result, step.events),
          ((ofReader reader capacity).afterCalls calls).onTape cells) := by
  rw [← received_afterCalls_ofReader] at few
  exact session_onTape (sound_ofReader reader capacity) (Buffer.HeldBy.empty capacity) calls few

/-- The buffer is full when a look is taken behind a lead byte, the read behind it fails, and the
byte that comes next completes no delimiter. -/
theorem session_passesChecks_full_buffer :
    let reader : Reader := .ofDeliveries
      [.bytes [0x61, 0x7B], .failure ⟨"BrokenPipe", "gone"⟩, .interruption,
        .bytes [0x2D, 0x7B, 0x23]]
    let capacity : Capacity := ⟨2, by decide⟩
    let calls : List Call := [.next, .nextToken, .next, .nextToken, .next, .nextToken]
    let steps := (ofReader reader capacity).session calls
    let passes (limit : Nat) : Prop :=
      ∃ cells, ((ofReader reader capacity).afterCalls calls).source.buffer.HeldBy cells ∧
        (Tape.Tokenizer.ofReader reader capacity).session limit calls =
          .ok (steps.map fun step => (step.result, step.events),
            ((ofReader reader capacity).afterCalls calls).onTape cells)
    (handedOut (steps.flatMap Step.reads)).length = 5 ∧ steps.length = 5 ∧ passes 5 ∧
      passes (wordCount - 1) := by
  intro reader capacity calls steps passes
  have handed : (handedOut (steps.flatMap Step.reads)).length = 5 := by decide +kernel
  refine ⟨handed, by decide +kernel, ?_, ?_⟩
  · exact session_passesChecks reader capacity calls 5 (Nat.le_of_eq handed)
  · exact session_passesChecks reader capacity calls (wordCount - 1)
      (handed.trans_le (by decide))

end Tokenizer

end TemplateLexer
