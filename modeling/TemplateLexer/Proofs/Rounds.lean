/-
This file proves that a scan is a loop over what its source shows.
-/

import TemplateLexer.Proofs.Retries

namespace TemplateLexer

/-- A round is the last one of its scan, or the scan goes on behind it. -/
inductive Round where
  | stops (scan : Scan)
  | goesOn (region : Region) (source : Source) (reads : Array ReadRecord)

/-- The end of a round whose source has come to a lead byte. -/
def roundAtLead (mode : Mode) (region : Region) (source : Source) (reads : Array ReadRecord) :
    Round :=
  let look := source.lookahead
  match look.result with
  | .error failure => .stops ⟨.error failure, region, reads ++ look.reads, look.after⟩
  | .ok (_, second) =>
      match second.bind (mode.formed? mode.lead) with
      | some delimiter =>
          .stops ⟨.ok (.marker delimiter source.offset), region, reads ++ look.reads,
            look.after.advance delimiterLength⟩
      | none => .goesOn (region.append [mode.lead]) (look.after.advance 1) (reads ++ look.reads)

/-- One round of a scan. -/
def round (mode : Mode) (region : Region) (source : Source) (reads : Array ReadRecord) : Round :=
  let look := source.window
  match look.result with
  | .error failure => .stops ⟨.error failure, region, reads ++ look.reads, look.after⟩
  | .ok window =>
      if window.isEmpty then .stops ⟨.ok .endOfInput, region, reads ++ look.reads, look.after⟩
      else
        match window.idxOf? mode.lead with
        | none =>
            .goesOn (region.append window) (look.after.advance window.length) (reads ++ look.reads)
        | some position =>
            roundAtLead mode (region.append (window.take position)) (look.after.advance position)
              (reads ++ look.reads)

/-- The loop ends with a scan after some number of rounds. -/
inductive Rounds (mode : Mode) : Region → Source → Array ReadRecord → Nat → Scan → Prop where
  | last {region : Region} {source : Source} {reads : Array ReadRecord} {scan : Scan}
      (stops : round mode region source reads = .stops scan) :
      Rounds mode region source reads 1 scan
  | more {region region' : Region} {source source' : Source} {reads reads' : Array ReadRecord}
      {count : Nat} {scan : Scan}
      (goesOn : round mode region source reads = .goesOn region' source' reads')
      (rest : Rounds mode region' source' reads' count scan) :
      Rounds mode region source reads (count + 1) scan

/-- A loop ends in one way only. -/
theorem Rounds.unique {mode : Mode} {region : Region} {source : Source} {reads : Array ReadRecord}
    {count count' : Nat} {scan scan' : Scan} (first : Rounds mode region source reads count scan)
    (second : Rounds mode region source reads count' scan') : count = count' ∧ scan = scan' := by
  induction first generalizing count' scan' with
  | last stops =>
      cases second with
      | last stops' =>
          rw [stops] at stops'
          cases stops'
          exact ⟨rfl, rfl⟩
      | more goesOn' rest' =>
          rw [stops] at goesOn'
          contradiction
  | more goesOn rest ih =>
      cases second with
      | last stops' =>
          rw [goesOn] at stops'
          contradiction
      | more goesOn' rest' =>
          rw [goesOn] at goesOn'
          cases goesOn'
          obtain ⟨rfl, rfl⟩ := ih rest'
          exact ⟨rfl, rfl⟩

theorem Region.append_nil (region : Region) : region.append [] = region := by
  rw [append, Array.appendList_nil]

theorem Region.append_append (region : Region) (first second : List UInt8) :
    (region.append first).append second = region.append (first ++ second) := by
  have bytes : region.bytes ++ first ++ second = region.bytes ++ (first ++ second) := by
    apply Array.toList_inj.mp
    simp only [Array.toList_appendList, List.append_assoc]
  exact congrArg (Region.mk region.start) bytes

namespace Source

theorem advance_zero (source : Source) : source.advance 0 = source := by
  simp [advance, Buffer.release]

/-- Bytes may be released one part behind the other. -/
theorem advance_advance {source : Source} {first : Nat} (within : first ≤ source.unread.length)
    (second : Nat) :
    (source.advance first).advance second = source.advance (first + second) := by
  have left : (source.unread.drop first).length = source.unread.length - first := List.length_drop
  ext
  · rfl
  · rfl
  · change source.buffer.start + min first source.unread.length +
      min second (source.unread.drop first).length =
        source.buffer.start + min (first + second) source.unread.length
    omega
  · simp [advance, Buffer.release]
  · change source.offset + min first source.unread.length +
      min second (source.unread.drop first).length =
        source.offset + min (first + second) source.unread.length
    omega
  · rfl

end Source

theorem scanFrom_of_found {mode : Mode} {source : Source} {position : Nat} {delimiter : Delimiter}
    (found : mode.find? source.unread = some (position, delimiter)) (region : Region)
    (reads : Array ReadRecord) :
    scanFrom mode region source reads =
      ⟨.ok (.marker delimiter (source.offset + position)),
        region.append (source.unread.take position), reads,
        source.advance (position + delimiterLength)⟩ := by
  rw [scanFrom]
  simp only [found]

theorem scanFrom_of_ended {mode : Mode} {source : Source}
    (missing : mode.find? source.unread = none) (ended : source.exhausted = true)
    (region : Region) (reads : Array ReadRecord) :
    scanFrom mode region source reads =
      ⟨.ok .endOfInput, region.append source.unread, reads,
        source.advance source.unread.length⟩ := by
  rw [scanFrom]
  simp only [missing, dif_pos ended]

/-- A scan that has settled what it can reads, and goes on unless the read has failed. -/
def scanBehind (mode : Mode) (region : Region) (source : Source) (reads : Array ReadRecord) :
    Scan :=
  match source.refill.1.delivery with
  | .failure failure =>
      ⟨.error failure, region, reads.push source.refill.1, source.refill.2⟩
  | _ => scanFrom mode region source.refill.2 (reads.push source.refill.1)

theorem scanFrom_of_undecided {mode : Mode} {source : Source}
    (missing : mode.find? source.unread = none) (unfinished : source.exhausted = false)
    (region : Region) (reads : Array ReadRecord) :
    scanFrom mode region source reads =
      scanBehind mode (region.append (source.unread.take (mode.settledLength source.unread)))
        (source.advance (mode.settledLength source.unread)) reads := by
  rw [scanFrom]
  simp only [missing, dif_neg (Bool.eq_false_iff.mp unfinished)]
  rfl

theorem scanBehind_of_failure {source : Source} {failure : Failure}
    (failed : source.refill.1.delivery = .failure failure) (mode : Mode) (region : Region)
    (reads : Array ReadRecord) :
    scanBehind mode region source reads =
      ⟨.error failure, region, reads.push source.refill.1, source.refill.2⟩ := by
  rw [scanBehind]
  simp only [failed]

theorem scanBehind_of_going {source : Source}
    (going : ∀ failure, source.refill.1.delivery ≠ .failure failure) (mode : Mode) (region : Region)
    (reads : Array ReadRecord) :
    scanBehind mode region source reads =
      scanFrom mode region source.refill.2 (reads.push source.refill.1) := by
  rw [scanBehind]
  split
  · next failure failed => exact absurd failed (going failure)
  · rfl

/-- The bytes before others are settled if no lead byte is the last of them all. -/
theorem Mode.settledLength_drop {mode : Mode} {bytes : List UInt8} {length : Nat}
    (within : length ≤ bytes.length)
    (decided : length < bytes.length ∨ bytes.getLast? ≠ some mode.lead) :
    mode.settledLength bytes = length + mode.settledLength (bytes.drop length) := by
  rw [settledLength, settledLength, List.getLast?_drop, List.length_drop]
  by_cases all : bytes.length ≤ length
  · rw [if_neg (decided.resolve_left (Nat.not_lt_of_le all)), if_pos all, if_neg (by simp)]
    omega
  · rw [if_neg all]
    split <;> omega

/-- Settled bytes are passed over: no delimiter begins in them, whatever is read behind them. -/
theorem scanFrom_advance {mode : Mode} {source : Source} {length : Nat}
    (within : length ≤ source.unread.length) (passed : mode.NoneBefore length source.unread)
    (decided : source.exhausted = true ∨ length < source.unread.length ∨
      source.unread.getLast? ≠ some mode.lead) (region : Region) (reads : Array ReadRecord) :
    scanFrom mode region source reads =
      scanFrom mode (region.append (source.unread.take length)) (source.advance length) reads := by
  have whole := Mode.find?_of_noneBefore passed
  have offset : (source.advance length).offset = source.offset + length :=
    Source.offset_advance within
  cases found : mode.find? (source.advance length).unread with
  | some pair =>
      obtain ⟨position, delimiter⟩ := pair
      rw [← Source.unread_advance, found, Option.map_some] at whole
      rw [scanFrom_of_found whole, scanFrom_of_found found, offset, Region.append_append,
        Source.unread_advance, ← List.take_add, Source.advance_advance within, Nat.add_assoc,
        Nat.add_assoc]
  | none =>
      rw [← Source.unread_advance, found, Option.map_none] at whole
      cases ended : source.exhausted with
      | true =>
          have ended' : (source.advance length).exhausted = true := ended
          rw [scanFrom_of_ended whole ended, scanFrom_of_ended found ended', Region.append_append,
            Source.unread_advance, List.take_append_drop, Source.advance_advance within,
            List.length_drop, Nat.add_sub_cancel' within]
      | false =>
          have unfinished : (source.advance length).exhausted = false := ended
          have settled := Mode.settledLength_drop within
            (decided.resolve_left (Bool.eq_false_iff.mp ended))
          rw [scanFrom_of_undecided whole ended, scanFrom_of_undecided found unfinished,
            Region.append_append, Source.unread_advance, ← List.take_add,
            Source.advance_advance within, settled]

/-- A scan reads anyway if fewer bytes are unread than it takes to decide anything. -/
theorem scanFrom_ensureFrom {mode : Mode} {count : Nat} {region : Region} {source : Source}
    {reads : Array ReadRecord} (near : count ≤ source.unread.length + 1)
    (undecided : source.unread.length < count →
      mode.find? source.unread = none ∧ mode.settledLength source.unread = 0) :
    scanFrom mode region source reads =
      let look := Source.ensureFrom count source reads
      match look.result with
      | .error failure => ⟨.error failure, region, look.reads, look.after⟩
      | .ok () => scanFrom mode region look.after look.reads := by
  fun_induction Source.ensureFrom count source reads with
  | case1 source reads short read failure failed =>
      obtain ⟨missing, settled⟩ := undecided short.2
      rw [scanFrom_of_undecided missing short.1, settled, List.take_zero, Region.append_nil,
        Source.advance_zero, scanBehind_of_failure failed]
  | case2 source reads short read going ih =>
      obtain ⟨missing, settled⟩ := undecided short.2
      rw [scanFrom_of_undecided missing short.1, settled, List.take_zero, Region.append_nil,
        Source.advance_zero, scanBehind_of_going going]
      have unread : read.2.unread = source.unread ++ read.1.delivery.data :=
        Source.unread_refill source
      have length := congrArg List.length unread
      rw [List.length_append] at length
      apply ih
      · omega
      · intro still
        -- With one more byte enough of them would be unread.
        have nothing : read.1.delivery.data = [] := List.length_eq_zero_iff.mp (by omega)
        rw [unread, nothing, List.append_nil]
        exact ⟨missing, settled⟩
  | case3 source reads enough => rfl

/-- So a scan that looks at the source first goes on as it would have done without. -/
theorem scanFrom_ensure {mode : Mode} {count : Nat} {source : Source}
    (near : count ≤ source.unread.length + 1)
    (undecided : source.unread.length < count →
      mode.find? source.unread = none ∧ mode.settledLength source.unread = 0)
    (region : Region) (reads : Array ReadRecord) :
    scanFrom mode region source reads =
      let look := source.ensure count
      match look.result with
      | .error failure => ⟨.error failure, region, reads ++ look.reads, look.after⟩
      | .ok () => scanFrom mode region look.after (reads ++ look.reads) := by
  have apart := Source.ensureFrom_append count source reads #[]
  rw [Array.append_empty] at apart
  rw [scanFrom_ensureFrom near undecided, apart]
  rfl

theorem scanFrom_window (mode : Mode) (region : Region) (source : Source)
    (reads : Array ReadRecord) :
    scanFrom mode region source reads =
      let look := source.ensure 1
      match look.result with
      | .error failure => ⟨.error failure, region, reads ++ look.reads, look.after⟩
      | .ok () => scanFrom mode region look.after (reads ++ look.reads) := by
  apply scanFrom_ensure (Nat.le_add_left 1 _)
  intro short
  rw [List.length_eq_zero_iff.mp (Nat.lt_one_iff.mp short)]
  exact ⟨rfl, rfl⟩

theorem scanFrom_lookahead {mode : Mode} {source : Source} {rest : List UInt8}
    (unread : source.unread = mode.lead :: rest) (region : Region) (reads : Array ReadRecord) :
    scanFrom mode region source reads =
      let look := source.ensure delimiterLength
      match look.result with
      | .error failure => ⟨.error failure, region, reads ++ look.reads, look.after⟩
      | .ok () => scanFrom mode region look.after (reads ++ look.reads) := by
  have length := congrArg List.length unread
  have enough : delimiterLength = 2 := rfl
  rw [List.length_cons] at length
  apply scanFrom_ensure (by omega)
  intro short
  have nothing : rest = [] := List.length_eq_zero_iff.mp (by omega)
  rw [unread, nothing]
  exact ⟨rfl, if_pos rfl⟩

/-- The scan that the loop ends with behind the round. -/
def Round.scan (mode : Mode) : Round → Scan
  | stops scan => scan
  | goesOn region source reads => scanFrom mode region source reads

theorem Mode.standing?_cons (mode : Mode) (first : UInt8) (rest : List UInt8) :
    mode.standing? (first :: rest) = rest.head?.bind (mode.formed? first) := by
  cases rest <;> rfl

/-- No delimiter begins with another byte than the lead. -/
theorem Mode.noneBefore_of_ne_lead {mode : Mode} {length : Nat} {bytes : List UInt8}
    (others : ∀ index, index < length → bytes[index]? ≠ some mode.lead) :
    mode.NoneBefore length bytes := by
  intro index below
  have other := others index below
  rw [← List.head?_drop] at other
  cases behind : bytes.drop index with
  | nil => rfl
  | cons first rest =>
      rw [behind] at other
      rw [standing?_cons, Option.bind_eq_none_iff]
      intro second _
      apply formed?_of_ne_lead
      rintro rfl
      exact other List.head?_cons

theorem scanFrom_roundAtLead {mode : Mode} {source : Source} {rest : List UInt8}
    (unread : source.unread = mode.lead :: rest) (region : Region) (reads : Array ReadRecord) :
    scanFrom mode region source reads = (roundAtLead mode region source reads).scan mode := by
  rw [scanFrom_lookahead unread]
  simp only [roundAtLead, Source.lookahead]
  have longer := source.unread_prefix_ensure delimiterLength
  have offset := source.offset_ensure delimiterLength
  have enough := @Source.exhausted_or_le_of_ensure source delimiterLength
  generalize source.ensure delimiterLength = look at *
  cases result : look.result with
  | error failure => rfl
  | ok =>
      obtain ⟨more, unread'⟩ : ∃ more, look.after.unread = mode.lead :: more := by
        obtain ⟨behind, whole⟩ := longer
        rw [unread, List.cons_append] at whole
        exact ⟨_, whole.symm⟩
      have second : look.after.unread[1]? = more.head? := by
        rw [unread', List.getElem?_cons_succ, List.head?_eq_getElem?]
      simp only [Except.map, second]
      cases formed : more.head?.bind (mode.formed? mode.lead) with
      | some delimiter =>
          have found : mode.find? look.after.unread = some (0, delimiter) := by
            rw [Mode.find?_eq_some_iff, List.drop_zero, unread', Mode.standing?_cons]
            exact ⟨formed, fun earlier below => absurd below (Nat.not_lt_zero earlier)⟩
          simp only [Round.scan]
          rw [scanFrom_of_found found, offset, List.take_zero, Region.append_nil, Nat.add_zero,
            Nat.zero_add]
      | none =>
          have passed : mode.NoneBefore 1 look.after.unread := by
            intro index below
            rw [Nat.lt_one_iff.mp below, List.drop_zero, unread', Mode.standing?_cons]
            exact formed
          have within : 1 ≤ look.after.unread.length := by
            rw [unread']
            exact Nat.le_add_left 1 _
          have first : look.after.unread.take 1 = [mode.lead] := by rw [unread']; rfl
          rw [scanFrom_advance within passed ((enough result).imp_right .inl), first]
          rfl

/-- Unread bytes without a lead byte are text. -/
theorem scanFrom_of_absent {mode : Mode} {source : Source} (absent : mode.lead ∉ source.unread)
    (region : Region) (reads : Array ReadRecord) :
    scanFrom mode region source reads =
      scanFrom mode (region.append source.unread) (source.advance source.unread.length) reads := by
  have passed : mode.NoneBefore source.unread.length source.unread :=
    Mode.noneBefore_of_ne_lead fun index _ lead => absent (List.mem_of_getElem? lead)
  have last : source.unread.getLast? ≠ some mode.lead := fun lead =>
    absent (List.mem_of_getLast? lead)
  have whole := scanFrom_advance (Nat.le_refl _) passed (.inr (.inr last)) region reads
  rwa [List.take_length] at whole

/-- Behind the bytes before the first lead byte, this is the first of the unread ones. -/
theorem Source.unread_advance_of_lead {mode : Mode} {source : Source} {position : Nat}
    (place : source.unread.idxOf? mode.lead = some position) :
    (source.advance position).unread = mode.lead :: source.unread.drop (position + 1) := by
  obtain ⟨below, lead, -⟩ := List.idxOf?_eq_some_iff.mp place
  rw [unread_advance, List.drop_eq_getElem_cons below, lead]

/-- Unread bytes before the first lead byte are text. -/
theorem scanFrom_of_lead {mode : Mode} {source : Source} {position : Nat}
    (place : source.unread.idxOf? mode.lead = some position) (region : Region)
    (reads : Array ReadRecord) :
    scanFrom mode region source reads =
      (roundAtLead mode (region.append (source.unread.take position)) (source.advance position)
        reads).scan mode := by
  obtain ⟨below, -, first⟩ := List.idxOf?_eq_some_iff.mp place
  have passed : mode.NoneBefore position source.unread := by
    apply Mode.noneBefore_of_ne_lead
    intro index before same
    rw [List.getElem?_eq_getElem (Nat.lt_trans before below)] at same
    exact first index before (Option.some.inj same)
  rw [scanFrom_advance (Nat.le_of_lt below) passed (.inr (.inl below)),
    scanFrom_roundAtLead (Source.unread_advance_of_lead place)]

/-- A scan is a round and the scan behind it. -/
theorem scanFrom_round (mode : Mode) (region : Region) (source : Source)
    (reads : Array ReadRecord) :
    scanFrom mode region source reads = (round mode region source reads).scan mode := by
  rw [scanFrom_window]
  simp only [round, Source.window]
  have enough := @Source.exhausted_or_le_of_ensure source 1
  generalize source.ensure 1 = look at *
  cases result : look.result with
  | error failure => rfl
  | ok =>
      simp only [Except.map]
      cases empty : look.after.unread.isEmpty with
      | true =>
          have nothing : look.after.unread = [] := List.isEmpty_iff.mp empty
          have ended : look.after.exhausted = true := by
            refine (enough result).resolve_right ?_
            rw [nothing]
            exact Nat.not_succ_le_zero 0
          have missing : mode.find? look.after.unread = none := by rw [nothing]; rfl
          rw [scanFrom_of_ended missing ended, nothing, Region.append_nil, List.length_nil,
            Source.advance_zero]
          rfl
      | false =>
          cases place : look.after.unread.idxOf? mode.lead with
          | none =>
              rw [scanFrom_of_absent (List.idxOf?_eq_none_iff.mp place)]
              rfl
          | some position =>
              rw [scanFrom_of_lead place]
              rfl

namespace Source

/-- Looking at a source adds nothing to what is ahead. -/
theorem ahead_ensure_le (source : Source) (count : Nat) :
    (source.ensure count).after.ahead ≤ source.ahead := by
  apply ensureFrom_induction (motive := fun _ after => after.ahead ≤ source.ahead)
  · intro reads after unfinished _ fewer
    exact Nat.le_trans (ahead_refill_le unfinished) fewer
  · exact Nat.le_refl _

theorem length_le_ensure (source : Source) (count : Nat) :
    source.unread.length ≤ (source.ensure count).after.unread.length :=
  (source.unread_prefix_ensure count).length_le

end Source

/-- A round that goes on from a lead byte has taken it as text. -/
theorem ahead_roundAtLead {mode : Mode} {region region' : Region} {source source' : Source}
    {reads reads' : Array ReadRecord} (filled : 0 < source.unread.length)
    (goesOn : roundAtLead mode region source reads = .goesOn region' source' reads') :
    source'.ahead < source.ahead := by
  have longer := source.length_le_ensure delimiterLength
  have fewer := source.ahead_ensure_le delimiterLength
  simp only [roundAtLead, Source.lookahead] at goesOn
  split at goesOn
  · contradiction
  · split at goesOn
    · contradiction
    · cases goesOn
      have taken := @Source.ahead_advance (source.ensure delimiterLength).after 1 (by omega)
      omega

/-- A round that goes on has taken at least one byte as text. -/
theorem ahead_round {mode : Mode} {region region' : Region} {source source' : Source}
    {reads reads' : Array ReadRecord}
    (goesOn : round mode region source reads = .goesOn region' source' reads') :
    source'.ahead < source.ahead := by
  have fewer := source.ahead_ensure_le 1
  simp only [round, Source.window] at goesOn
  generalize source.ensure 1 = look at *
  cases result : look.result with
  | error failure =>
      simp only [result, Except.map] at goesOn
      contradiction
  | ok =>
      simp only [result, Except.map] at goesOn
      split at goesOn
      · contradiction
      · next filled =>
          have positive : 0 < look.after.unread.length :=
            List.length_pos_iff.mpr fun nothing => filled (List.isEmpty_iff.mpr nothing)
          split at goesOn
          · cases goesOn
            have taken := Source.ahead_advance (Nat.le_refl look.after.unread.length)
            omega
          · next position place =>
              obtain ⟨below, -, -⟩ := List.idxOf?_eq_some_iff.mp place
              have taken := Source.ahead_advance (Nat.le_of_lt below)
              have left : (look.after.advance position).unread.length =
                  look.after.unread.length - position := List.length_drop
              have less := ahead_roundAtLead (by omega) goesOn
              omega

/-- The loop ends with the scan, after no more rounds than bytes, interruptions and failures are
ahead and one more. -/
theorem rounds_scanFrom (mode : Mode) (region : Region) (source : Source)
    (reads : Array ReadRecord) :
    ∃ count ≤ source.ahead + 1,
      Rounds mode region source reads count (scanFrom mode region source reads) := by
  induction size : source.ahead using Nat.strong_induction_on
    generalizing region source reads with
  | h size ih =>
      have whole := scanFrom_round mode region source reads
      cases made : round mode region source reads with
      | stops scan =>
          rw [made] at whole
          rw [whole]
          exact ⟨1, Nat.le_add_left 1 _, .last made⟩
      | goesOn region' source' reads' =>
          rw [made] at whole
          have less := ahead_round made
          obtain ⟨count, few, rounds⟩ := ih source'.ahead (by omega) region' source' reads' rfl
          rw [whole]
          exact ⟨count + 1, by omega, .more made rounds⟩

/-- Whatever the loop ends with is the scan. -/
theorem Rounds.eq_scanFrom {mode : Mode} {region : Region} {source : Source}
    {reads : Array ReadRecord} {count : Nat} {scan : Scan}
    (rounds : Rounds mode region source reads count scan) :
    count ≤ source.ahead + 1 ∧ scan = scanFrom mode region source reads := by
  obtain ⟨count', few, whole⟩ := rounds_scanFrom mode region source reads
  obtain ⟨rfl, rfl⟩ := rounds.unique whole
  exact ⟨few, rfl⟩

end TemplateLexer
