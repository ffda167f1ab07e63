import TemplateLexer.Proofs.Finishing
import TemplateLexer.Proofs.Queue

namespace TemplateLexer

/-- A delimiter that ends text of the mode stands somewhere in the bytes. -/
def Mode.HasDelimiter (mode : Mode) (bytes : List UInt8) : Prop :=
  ∃ delimiter position, mode.EndedBy delimiter ∧ delimiter.StandsAt bytes position

theorem Mode.hasDelimiter_iff {mode : Mode} {bytes : List UInt8} :
    mode.HasDelimiter bytes ↔ mode.find? bytes ≠ none := by
  rw [Ne, Mode.find?_eq_none_iff]
  simp only [Mode.standing?_drop_eq_none_iff, not_forall, not_not]
  constructor
  · rintro ⟨delimiter, position, ends, stands⟩
    exact ⟨position, delimiter, ends, stands⟩
  · rintro ⟨position, delimiter, ends, stands⟩
    exact ⟨delimiter, position, ends, stands⟩

/-- The reads of a call decide what comes after a text that begins at `start`: they and the earlier
reads have handed out a delimiter that ends it, or met the end, or a read of the call has failed. -/
def Decided (mode : Mode) (start : Nat) (earlier made : List ReadRecord) : Prop :=
  mode.HasDelimiter ((handedOut (earlier ++ made)).drop start) ∨ HasEnded (earlier ++ made) ∨
    failuresOf made ≠ []

/-- Each of the reads was made while the reads before it decided nothing. -/
def Wanted (decided : List ReadRecord → Prop) (reads : List ReadRecord) : Prop :=
  ∀ before record behind, reads = before ++ record :: behind → ¬ decided before

/-- Reads are made as long as they decide nothing, and no longer. -/
structure ReadsUntil (decided : List ReadRecord → Prop) (reads : List ReadRecord) : Prop where
  wanted : Wanted decided reads
  stopped : decided reads

theorem wanted_nil (decided : List ReadRecord → Prop) : Wanted decided [] :=
  forall_split_nil (motive := fun before _ => ¬ decided before)

/-- A read is wanted if the reads before it decide nothing. -/
theorem Wanted.concat {decided : List ReadRecord → Prop} {reads : List ReadRecord}
    (wanted : Wanted decided reads) (undecided : ¬ decided reads) (record : ReadRecord) :
    Wanted decided (reads ++ [record]) :=
  forall_split_concat (motive := fun before _ => ¬ decided before) wanted undecided

/-- A search for the end of a text, between two reads: the region and the unread bytes behind it are
what was handed out from the start of the text on, and all reads were wanted. -/
structure Searching (mode : Mode) (start : Nat) (earlier : List ReadRecord) (region : Region)
    (source : Source) (made : List ReadRecord) : Prop where
  settled : mode.Settled region.bytes.toList source.unread
  inside : start ≤ (handedOut (earlier ++ made)).length
  text : (handedOut (earlier ++ made)).drop start = region.bytes.toList ++ source.unread
  ended : source.exhausted = true ↔ HasEnded (earlier ++ made)
  wanted : Wanted (Decided mode start earlier) made

namespace Searching

variable {mode : Mode} {start : Nat} {earlier made : List ReadRecord} {region : Region}
  {source : Source}

/-- Unless a read has failed, it is enough to look at the unread bytes. -/
theorem decided_iff (searching : Searching mode start earlier region source made)
    (silent : failuresOf made = []) :
    Decided mode start earlier made ↔
      mode.find? source.unread ≠ none ∨ source.exhausted = true := by
  have search := searching.settled.find?_append []
  rw [List.append_nil] at search
  rw [Decided, searching.text, Mode.hasDelimiter_iff, search, ← searching.ended, silent]
  simp

/-- A read is wanted if no delimiter is in the unread bytes and the reader has not ended. -/
theorem read (searching : Searching mode start earlier region source made)
    (silent : failuresOf made = []) (missing : mode.find? source.unread = none)
    (unfinished : source.exhausted = false) :
    let settled := mode.settledLength source.unread
    let read := (source.advance settled).refill
    Searching mode start earlier (region.append (source.unread.take settled)) read.2
      (made ++ [read.1]) := by
  intro settled read
  have undecided : ¬ Decided mode start earlier made := by
    rw [searching.decided_iff silent, missing, unfinished]
    simp
  have delivered : handedOut (earlier ++ (made ++ [read.1])) =
      handedOut (earlier ++ made) ++ read.1.delivery.data := by
    rw [← List.append_assoc, handedOut_append_singleton]
  have unread : read.2.unread = source.unread.drop settled ++ read.1.delivery.data :=
    Source.unread_refill _
  refine ⟨?_, ?_, ?_, ?_, ?_⟩
  · rw [Region.toList_append, unread]
    exact (Mode.settled_behind searching.settled missing).append_behind _
  · rw [delivered, List.length_append]
    exact Nat.le_add_right_of_le searching.inside
  · rw [delivered, List.drop_append_of_le_length searching.inside, searching.text,
      Region.toList_append, unread, List.append_assoc, List.append_assoc,
      ← List.append_assoc (source.unread.take settled), List.take_append_drop]
  · rw [Source.exhausted_refill_iff, Source.exhausted_advance, searching.ended,
      ← List.append_assoc, hasEnded_append_singleton]
  · exact searching.wanted.concat undecided read.1

end Searching

/-- A scan makes only reads that are wanted, and stops as soon as something is decided. -/
theorem readsUntil_scanFrom {mode : Mode} {start : Nat} {earlier : List ReadRecord}
    {region : Region} {source : Source} {reads : Array ReadRecord}
    (searching : Searching mode start earlier region source reads.toList)
    (silent : failuresOf reads.toList = []) :
    ReadsUntil (Decided mode start earlier) (scanFrom mode region source reads).reads.toList := by
  fun_induction scanFrom mode region source reads with
  | case1 region source reads position delimiter found =>
      refine ⟨searching.wanted, (searching.decided_iff silent).mpr (.inl ?_)⟩
      rw [found]
      exact Option.some_ne_none _
  | case2 region source reads missing ended =>
      exact ⟨searching.wanted, (searching.decided_iff silent).mpr (.inr ended)⟩
  | case3 region source reads missing unfinished settled grown read failure failed =>
      have after := searching.read silent missing (Bool.eq_false_iff.mpr unfinished)
      rw [Array.toList_push]
      refine ⟨after.wanted, .inr (.inr ?_)⟩
      simp [failuresOf, failed, Delivery.failure?]
  | case4 region source reads missing unfinished settled grown read going ih =>
      apply ih
      · rw [Array.toList_push]
        exact searching.read silent missing (Bool.eq_false_iff.mpr unfinished)
      · rw [Array.toList_push]
        exact failuresOf_concat_of_going silent going

namespace Tokenizer

theorem faithful_next {reader : Reader} {capacity : Capacity} {earlier : List ReadRecord}
    {tokenizer : Tokenizer}
    (faithful : Source.Faithful reader capacity earlier tokenizer.source) :
    Source.Faithful reader capacity (earlier ++ tokenizer.next.reads)
      tokenizer.next.after.source := by
  rw [reads_next, source_next]
  split
  · next mode region phase =>
      apply scanFrom_induction
        (motive := fun made source => Source.Faithful reader capacity (earlier ++ made) source)
      · intro made source count within faithful
        exact faithful.advance within
      · intro made source unfinished short faithful
        rw [faithful.capacity] at short
        rw [← List.append_assoc]
        exact faithful.refill unfinished short
      · rw [Array.toList_empty, List.append_nil]
        exact faithful
  · rw [List.append_nil]
    exact faithful

/-- At the beginning of a call that scans, nothing has been read for it. -/
theorem searching_of_scanning {reader : Reader} {capacity : Capacity} {earlier : List ReadRecord}
    {tokenizer : Tokenizer} {mode : Mode} {region : Region}
    (lossless : Lossless reader.template tokenizer)
    (faithful : Source.Faithful reader capacity earlier tokenizer.source)
    (phase : tokenizer.phase = .scanning mode region) :
    Searching mode region.start earlier region tokenizer.source [] := by
  obtain ⟨sound, -, -, rest⟩ := lossless
  simp only [Sound, position, held, phase] at sound rest
  obtain ⟨-, inside, -, ended, handed, -⟩ := faithful
  have place := sound.place
  have size := region.length_toList
  have released : (reader.template.take tokenizer.source.offset).length =
      tokenizer.source.offset := List.length_take_of_le inside
  refine ⟨sound.settled, ?_, ?_, ?_, wanted_nil _⟩
  · rw [List.append_nil, handed, List.length_append]
    omega
  · rw [List.append_nil, handed, List.drop_append_of_le_length (by omega), List.drop_take, rest,
      show tokenizer.source.offset - region.start = region.bytes.toList.length by omega,
      List.take_left]
  · rw [List.append_nil]
    exact ended

/-- A call that scans makes only reads that are wanted, and stops as soon as something is
decided. -/
theorem readsUntil_next {reader : Reader} {capacity : Capacity} {earlier : List ReadRecord}
    {tokenizer : Tokenizer} {mode : Mode} {region : Region}
    (lossless : Lossless reader.template tokenizer)
    (faithful : Source.Faithful reader capacity earlier tokenizer.source)
    (phase : tokenizer.phase = .scanning mode region) :
    (handedOut earlier).drop region.start = region.bytes.toList ++ tokenizer.source.unread ∧
      ReadsUntil (Decided mode region.start earlier) tokenizer.next.reads := by
  have searching := searching_of_scanning lossless faithful phase
  have text := searching.text
  rw [List.append_nil] at text
  apply And.intro text
  rw [reads_next, phase]
  exact readsUntil_scanFrom searching rfl

theorem reads_next_of_not_scanning {tokenizer : Tokenizer}
    (idle : ∀ mode region, tokenizer.phase ≠ .scanning mode region) :
    tokenizer.next.reads = [] := by
  rw [reads_next]
  split
  · next mode region phase => exact absurd phase (idle mode region)
  · rfl

end Tokenizer

namespace Reader

/-- No read hands out more than one byte. -/
def Bytewise (reader : Reader) : Prop :=
  reader.limit = some 1 ∨ ∀ delivery ∈ reader.deliveries, delivery.data.length ≤ 1

theorem Bytewise.length_data_read {reader : Reader} (bytewise : reader.Bytewise) (want : Nat) :
    (reader.read want).1.data.length ≤ 1 := by
  match deliveries : reader.deliveries with
  | [] => simp [Reader.read, deliveries, Delivery.data]
  | .interruption :: rest => simp [Reader.read, deliveries, Delivery.data]
  | .failure failure :: rest => simp [Reader.read, deliveries, Delivery.data]
  | .bytes data :: rest =>
      simp only [Reader.read, deliveries, Delivery.data, List.length_take]
      rcases bytewise with limited | small
      · have shared : reader.share want = min want 1 := by rw [share, limited]
        omega
      · have least : data.length ≤ 1 := small (.bytes data) (by rw [deliveries]; exact .head _)
        omega

/-- What a read leaves is handed out one byte at a time too. -/
theorem Bytewise.read {reader : Reader} (bytewise : reader.Bytewise) (want : Nat) :
    (reader.read want).2.Bytewise := by
  rw [Bytewise] at bytewise ⊢
  match deliveries : reader.deliveries with
  | [] => simp [Reader.read, deliveries]
  | .interruption :: rest =>
      simp only [Reader.read, deliveries, List.forall_mem_cons] at bytewise ⊢
      exact bytewise.imp_right And.right
  | .failure failure :: rest =>
      simp only [Reader.read, deliveries, List.forall_mem_cons] at bytewise ⊢
      exact bytewise.imp_right And.right
  | .bytes data :: rest =>
      simp only [Reader.read, deliveries, List.forall_mem_cons, Delivery.data] at bytewise ⊢
      refine bytewise.imp_right fun small => ?_
      split
      · exact small.2
      · refine List.forall_mem_cons.mpr ⟨?_, small.2⟩
        change (data.drop (reader.share want)).length ≤ 1
        rw [List.length_drop]
        omega

end Reader

/-- With a reader that hands out one byte at a time, nothing is unread behind a scan but a lead byte
before a read that has failed. -/
theorem unread_scanFrom (mode : Mode) (region : Region) {source : Source}
    (reads : Array ReadRecord) (bytewise : source.reader.Bytewise)
    (short : source.unread.length ≤ delimiterLength) :
    let scan := scanFrom mode region source reads
    scan.after.unread.length ≤ 1 ∧ (∀ due, scan.result = .ok due → scan.after.unread = []) := by
  -- A read finds at most one unread byte, and adds at most one.
  have unread (source : Source) (bytewise : source.reader.Bytewise) :
      let read := (source.advance (mode.settledLength source.unread)).refill
      read.2.reader.Bytewise ∧ read.2.unread.length ≤ 1 + read.1.delivery.data.length ∧
        read.1.delivery.data.length ≤ 1 := by
    intro read
    have left := mode.length_le_settledLength source.unread
    have grown : read.2.unread =
        source.unread.drop (mode.settledLength source.unread) ++ read.1.delivery.data :=
      Source.unread_refill _
    refine ⟨?_, ?_, bytewise.length_data_read _⟩
    · rw [Source.reader_refill]
      exact bytewise.read _
    · rw [grown, List.length_append, List.length_drop]
      omega
  fun_induction scanFrom mode region source reads with
  | case1 region source reads position delimiter found =>
      have within := Mode.find?_within found
      have nothing : (source.advance (position + delimiterLength)).unread = [] := by
        rw [Source.unread_advance, List.drop_eq_nil_iff]
        omega
      exact ⟨by rw [nothing]; exact Nat.zero_le 1, fun _ _ => nothing⟩
  | case2 region source reads missing ended =>
      have nothing : (source.advance source.unread.length).unread = [] := List.drop_length
      exact ⟨by rw [nothing]; exact Nat.zero_le 1, fun _ _ => nothing⟩
  | case3 region source reads missing unfinished settled grown read failure failed =>
      obtain ⟨-, few, -⟩ := unread source bytewise
      rw [failed] at few
      refine ⟨few, ?_⟩
      rintro _ ⟨⟩
  | case4 region source reads missing unfinished settled grown read going ih =>
      obtain ⟨bytewise, few, one⟩ := unread source bytewise
      exact ih bytewise (Nat.le_trans few (Nat.add_le_add_left one 1))

namespace Tokenizer

/-- Nothing is read ahead: at most a lead byte is unread, and none unless a scan is in progress. -/
structure Abreast (tokenizer : Tokenizer) : Prop where
  bytewise : tokenizer.source.reader.Bytewise
  short : tokenizer.source.unread.length ≤ 1
  idle : (∀ mode region, tokenizer.phase ≠ .scanning mode region) → tokenizer.source.unread = []

theorem abreast_ofReader {reader : Reader} (bytewise : reader.Bytewise) (capacity : Capacity) :
    (ofReader reader capacity).Abreast := ⟨bytewise, Nat.zero_le 1, fun _ => rfl⟩

theorem abreast_of_unread {tokenizer : Tokenizer} (bytewise : tokenizer.source.reader.Bytewise)
    (nothing : tokenizer.source.unread = []) : tokenizer.Abreast :=
  ⟨bytewise, by rw [nothing]; exact Nat.zero_le 1, fun _ => nothing⟩

theorem bytewise_next {tokenizer : Tokenizer} (bytewise : tokenizer.source.reader.Bytewise) :
    tokenizer.next.after.source.reader.Bytewise := by
  rw [source_next]
  split
  · next mode region phase =>
      apply scanFrom_induction (motive := fun _ source => source.reader.Bytewise)
      · exact fun _ _ _ _ same => same
      · intro _ source _ _ same
        rw [Source.reader_refill]
        exact same.read _
      · exact bytewise
  · exact bytewise

/-- Unless a read fails, a call leaves no byte unread. -/
theorem abreast_next {tokenizer : Tokenizer} (abreast : tokenizer.Abreast) :
    tokenizer.next.after.Abreast ∧
      (isReadFailure tokenizer.next.result = false → tokenizer.next.after.source.unread = []) := by
  obtain ⟨bytewise, short, idle⟩ := abreast
  have kept := bytewise_next bytewise
  have source := source_next tokenizer
  by_cases scans : ∃ mode region, tokenizer.phase = .scanning mode region
  · obtain ⟨mode, region, phase⟩ := scans
    obtain ⟨few, nothing⟩ :=
      unread_scanFrom mode region #[] bytewise (Nat.le_trans short (by decide))
    simp only [phase] at source
    rw [← source] at few nothing
    cases result : (scanFrom mode region tokenizer.source #[]).result with
    | ok due =>
        have unread := nothing due result
        exact ⟨abreast_of_unread kept unread, fun _ => unread⟩
    | error failure =>
        have failed : tokenizer.next.after.phase =
            .scanning mode (scanFrom mode region tokenizer.source #[]).region := by
          simp only [next, phase, result]
        refine ⟨⟨kept, few, fun idle => absurd failed (idle _ _)⟩, ?_⟩
        simp [next, phase, result, isReadFailure]
  · have unread : tokenizer.next.after.source.unread = [] := by
      rw [source]
      split
      · next mode region phase => exact absurd ⟨mode, region, phase⟩ scans
      · exact idle fun mode region phase => scans ⟨mode, region, phase⟩
    exact ⟨abreast_of_unread kept unread, fun _ => unread⟩

/-- What is known of a tokenizer of the reader behind the steps that it has made. -/
structure Account (reader : Reader) (capacity : Capacity) (past : List Step)
    (tokenizer : Tokenizer) : Prop where
  stage : Stage reader.template past tokenizer
  faithful : Source.Faithful reader capacity (past.flatMap Step.reads) tokenizer.source
  abreast : reader.Bytewise → tokenizer.Abreast

theorem account_ofReader (reader : Reader) (capacity : Capacity) :
    Account reader capacity [] (ofReader reader capacity) :=
  ⟨stage_ofReader reader capacity, Source.faithful_ofReader reader capacity,
    fun bytewise => abreast_ofReader bytewise capacity⟩

theorem Account.next {reader : Reader} {capacity : Capacity} {past : List Step}
    {tokenizer : Tokenizer} (account : Account reader capacity past tokenizer) :
    Account reader capacity (past ++ [tokenizer.next]) tokenizer.next.after := by
  obtain ⟨stage, faithful, abreast⟩ := account
  refine ⟨stage.next, ?_, fun bytewise => (abreast_next (abreast bytewise)).1⟩
  rw [List.flatMap_append, List.flatMap_singleton]
  exact faithful_next faithful

/-- Whatever the reader, the capacity and the calls are, the next call reads only if it is within a
text, and then no more than it takes to decide what comes next: what was handed out from the start
of the text on is all that the tokenizer looks at. With a reader that hands out one byte at a time,
no byte behind those of the tokens is taken from it, unless a read has just failed. -/
theorem session_readsUntil (reader : Reader) (capacity : Capacity) (calls : List Call) :
    let earlier := ((ofReader reader capacity).session calls).flatMap Step.reads
    let tokenizer := (ofReader reader capacity).afterCalls calls
    let step := tokenizer.next
    (match tokenizer.phase with
      | .scanning mode region =>
          (handedOut earlier).drop region.start =
              region.bytes.toList ++ tokenizer.source.unread ∧
            ReadsUntil (Decided mode region.start earlier) step.reads
      | _ => step.reads = []) ∧
      (reader.Bytewise → isReadFailure step.result = false →
        handedOut (earlier ++ step.reads) = reader.template.take step.after.source.offset ∧
          (handedOut (earlier ++ step.reads)).length = step.after.source.offset ∧
          step.after.intoReader.data = reader.data.drop step.after.source.offset) := by
  intro earlier tokenizer step
  have account : Account reader capacity ((ofReader reader capacity).session calls) tokenizer :=
    session_induction (fun _ _ => Account.next) (account_ofReader reader capacity) calls
  obtain ⟨stage, faithful, abreast⟩ := account
  constructor
  · split
    · next mode region phase =>
        cases stage with
        | going running lossless => exact readsUntil_next lossless faithful phase
        | stopped finished =>
            rw [isFinished, phase] at finished
            contradiction
    · next idle => exact reads_next_of_not_scanning idle
  · intro bytewise fine
    have nothing := (abreast_next (abreast bytewise)).2 fine
    obtain ⟨-, inside, -, -, handed, left⟩ := faithful_next faithful
    rw [nothing, List.append_nil] at handed
    have size : (handedOut (earlier ++ step.reads)).length = step.after.source.offset := by
      rw [handed]
      exact List.length_take_of_le inside
    refine ⟨handed, size, ?_⟩
    rw [← left, List.drop_left' size]
    rfl

/-- A lead byte stays unread while the read behind it fails. -/
example :
    let reader := Reader.ofDeliveries
      [.bytes [0x61], .bytes [0x7B], .failure ⟨"BrokenPipe", "gone"⟩, .bytes [0x7B]]
    let step := (ofReader reader .standard).next
    isReadFailure step.result = true ∧ handedOut step.reads = [0x61, 0x7B] ∧
      step.after.source.offset = 1 := by decide +kernel

end Tokenizer

end TemplateLexer
