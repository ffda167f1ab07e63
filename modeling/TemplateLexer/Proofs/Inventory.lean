import TemplateLexer.Proofs.MinimalReads

namespace TemplateLexer

/-- The place in the template up to which the tokens reach: where the last of them stops. -/
def reachOf (tokens : List Token) : Nat :=
  (tokens.getLast?.map fun token => token.span.stop).getD 0

namespace Tiles

variable {template : List UInt8} {start stop : Nat} {tokens : List Token}

theorem append {middle : Nat} {others : List Token} (front : Tiles template start middle tokens)
    (back : Tiles template middle stop others) : Tiles template start stop (tokens ++ others) := by
  induction front with
  | nil => exact back
  | cons ordered text _ ih => exact .cons ordered text (ih back)

/-- A tiling ends where its last token stops. -/
theorem stop_eq (tiles : Tiles template start stop tokens) :
    stop = (tokens.getLast?.map fun token => token.span.stop).getD start := by
  induction tiles with
  | nil => rfl
  | @cons token stop tokens ordered text rest ih =>
      rw [List.getLast?_cons, Option.map_some, Option.getD_some, ih]
      cases tokens.getLast? <;> rfl

end Tiles

theorem Source.isDrained_of_ended {source : Source} (ended : source.exhausted = true)
    (nothing : source.unread = []) : source.isDrained = true := by
  rw [isDrained, ended, nothing]
  rfl

namespace Tokenizer

/-- The text of the marker that is owed. -/
def owed (tokenizer : Tokenizer) : List UInt8 :=
  match tokenizer.phase with
  | .owing (.marker delimiter _) => Utf8.encode delimiter.lexeme
  | _ => []

/-- The text that was read and waits to be returned. -/
def pending (tokenizer : Tokenizer) : List UInt8 :=
  match tokenizer.phase with
  | .scanning _ region => region.bytes.toList
  | _ => []

theorem held_eq (tokenizer : Tokenizer) : tokenizer.held = tokenizer.owed ++ tokenizer.pending := by
  rw [held, owed, pending]
  cases tokenizer.phase with
  | scanning mode region => rfl
  | finished => rfl
  | owing due =>
      cases due with
      | endOfInput => rfl
      | marker delimiter position =>
          simp only [Due.bytes, Delimiter.encode_lexeme, List.append_nil]

/-- What is held stands just before the offset of the source. -/
theorem position_add_length_held {tokenizer : Tokenizer} (sound : tokenizer.Sound) :
    tokenizer.position + tokenizer.held.length = tokenizer.source.offset := by
  rw [position, held]
  rw [Sound] at sound
  cases phase : tokenizer.phase with
  | finished => rfl
  | owing due =>
      rw [phase] at sound
      exact Due.position_add_length sound
  | scanning mode region =>
      rw [phase] at sound
      rw [← sound.place]
      exact congrArg _ region.length_toList

/-- As long as no malformed text was met, the tokens that were returned tile the template up to the
position of the tokenizer. -/
structure Kept (reader : Reader) (capacity : Capacity) (past : List Step)
    (tokenizer : Tokenizer) : Prop where
  lossless : Lossless reader.template tokenizer
  faithful : Source.Faithful reader capacity (past.flatMap Step.reads) tokenizer.source
  tiles : Tiles reader.template 0 tokenizer.position (returned past)

theorem kept_ofReader (reader : Reader) (capacity : Capacity) :
    Kept reader capacity [] (ofReader reader capacity) :=
  ⟨lossless_ofReader reader capacity, Source.faithful_ofReader reader capacity,
    .nil (Nat.zero_le _)⟩

/-- A call puts its token behind the tokens that were returned before it. -/
theorem kept_next {reader : Reader} {capacity : Capacity} {past : List Step}
    {tokenizer : Tokenizer} (kept : Kept reader capacity past tokenizer)
    (fine : tokenizer.next.isMalformed = false) :
    Kept reader capacity (past ++ [tokenizer.next]) tokenizer.next.after := by
  obtain ⟨lossless, faithful, tiles⟩ := kept
  have takes := takes_next lossless fine
  have after : Lossless reader.template tokenizer.next.after := takes.1
  refine ⟨after, ?_, ?_⟩
  · rw [List.flatMap_append, List.flatMap_singleton]
    exact faithful_next faithful
  · have token := takes.tiles (.nil after.inside)
    rw [List.append_nil] at token
    have last : returned (past ++ [tokenizer.next]) =
        returned past ++ tokenizer.next.token?.toList := by
      rw [returned, List.filterMap_append, ← returned, ← returned, returned_cons]
      exact congrArg _ (List.append_nil _)
    rw [last]
    exact tiles.append token

/-- All bytes that the reader has handed out, place by place, and the offsets that are kept of them.
While a text is being read it begins where the tokens end, it ends where the unread bytes begin, and
whatever follows these no delimiter that ends the text begins in it. When a marker is owed, its
delimiter ends where the unread bytes begin. When the end is owed or was returned, the source is
drained and stands at the end of the template. -/
structure Inventory (reader : Reader) (past : List Step) (tokenizer : Tokenizer) : Prop where
  bytes : handedOut (past.flatMap Step.reads) =
    (returned past).flatMap (fun token => Utf8.encode token.sourceText) ++
      (tokenizer.owed ++ (tokenizer.pending ++ tokenizer.source.unread))
  offsets : match tokenizer.phase with
    | .scanning mode region =>
        region.start = reachOf (returned past) ∧
          region.start + tokenizer.pending.length = tokenizer.source.offset ∧
          ∀ more delimiter position, mode.EndedBy delimiter →
            delimiter.StandsAt (tokenizer.pending ++ (tokenizer.source.unread ++ more)) position →
            tokenizer.pending.length ≤ position
    | .owing (.marker _ position) =>
        tokenizer.pending = [] ∧ position + delimiterLength = tokenizer.source.offset
    | .owing .endOfInput | .finished =>
        tokenizer.pending = [] ∧ tokenizer.source.isDrained = true ∧
          tokenizer.source.offset = reader.template.length

namespace Kept

variable {reader : Reader} {capacity : Capacity} {past : List Step} {tokenizer : Tokenizer}

theorem bytes (kept : Kept reader capacity past tokenizer) :
    handedOut (past.flatMap Step.reads) =
      (returned past).flatMap (fun token => Utf8.encode token.sourceText) ++
        (tokenizer.owed ++ (tokenizer.pending ++ tokenizer.source.unread)) := by
  obtain ⟨⟨sound, -, inside, rest⟩, faithful, tiles⟩ := kept
  have text : reader.template.take tokenizer.position =
      (returned past).flatMap fun token => Utf8.encode token.sourceText := by
    rw [tiles.flatMap_encode, List.extract_eq_take_drop, List.drop_zero, Nat.sub_zero]
  rw [faithful.handed, ← position_add_length_held sound, List.take_add, rest, List.take_left, text,
    held_eq, List.append_assoc, List.append_assoc]

theorem inventory (kept : Kept reader capacity past tokenizer) :
    Inventory reader past tokenizer := by
  refine ⟨kept.bytes, ?_⟩
  obtain ⟨lossless, -, tiles⟩ := kept
  have reach : tokenizer.position = reachOf (returned past) := tiles.stop_eq
  have whole := lossless.position_of_isFinished
  obtain ⟨sound, ended, inside, rest⟩ := lossless
  rw [Sound] at sound
  rw [position] at reach whole inside rest
  rw [held] at rest
  rw [pending]
  cases phase : tokenizer.phase with
  | scanning mode region =>
      rw [phase] at sound reach
      refine ⟨reach, ?_, ?_⟩
      · rw [← sound.place]
        exact congrArg _ region.length_toList
      · intro more delimiter position ends stands
        apply Nat.le_of_not_lt
        intro before
        have absent := sound.settled more position before
        exact Mode.standing?_drop_eq_none_iff.mp absent delimiter ends stands
  | owing due =>
      rw [phase] at sound inside rest
      cases due with
      | marker delimiter position => exact ⟨rfl, sound⟩
      | endOfInput =>
          obtain ⟨stopped, nothing⟩ := sound
          refine ⟨rfl, Source.isDrained_of_ended stopped nothing, eq_length_of_drop inside ?_⟩
          exact rest.trans (upcoming_of_ended stopped nothing)
  | finished =>
      have finished : tokenizer.isFinished = true := by rw [isFinished, phase]; rfl
      obtain ⟨stopped, nothing⟩ := ended finished
      rw [phase] at whole
      exact ⟨rfl, Source.isDrained_of_ended stopped nothing, whole finished⟩

end Kept

/-- Whatever the reader, the capacity and the calls are, as long as no malformed text was met there
is an inventory of the bytes that the reader has handed out. -/
theorem session_inventory (reader : Reader) (capacity : Capacity) (calls : List Call)
    (fine : ∀ step ∈ (ofReader reader capacity).session calls, step.isMalformed = false) :
    Inventory reader ((ofReader reader capacity).session calls)
      ((ofReader reader capacity).afterCalls calls) := by
  have step (past : List Step) (tokenizer : Tokenizer)
      (earlier : (∀ step ∈ past, step.isMalformed = false) →
        Kept reader capacity past tokenizer)
      (fine : ∀ step ∈ past ++ [tokenizer.next], step.isMalformed = false) :
      Kept reader capacity (past ++ [tokenizer.next]) tokenizer.next.after := by
    rw [List.forall_mem_append, List.forall_mem_singleton] at fine
    exact kept_next (earlier fine.1) fine.2
  have kept := session_induction (motive := fun past tokenizer =>
    (∀ step ∈ past, step.isMalformed = false) → Kept reader capacity past tokenizer) step
    (fun _ => kept_ofReader reader capacity) calls
  exact (kept fine).inventory

/-- A read fails behind a lead byte, which stays in the buffer while the text before it waits. The
byte behind it completes a delimiter, whose marker is owed when the text was returned. -/
theorem session_inventory_lead_byte_waits :
    let reader : Reader := .ofDeliveries
      [.bytes [0x61, 0x7B], .failure ⟨"BrokenPipe", "gone"⟩, .bytes [0x23, 0x62]]
    let start := ofReader reader ⟨2, by decide⟩
    let waiting := start.afterCalls [.next]
    let owing := start.afterCalls [.next, .nextToken]
    (∀ step ∈ start.session [.next, .nextToken], step.isMalformed = false) ∧
      Inventory reader (start.session [.next]) waiting ∧
      (waiting.owed, waiting.pending, waiting.source.unread) = ([], [0x61], [0x7B]) ∧
      Inventory reader (start.session [.next, .nextToken]) owing ∧
      (owing.owed, owing.pending, owing.source.unread) = ([0x7B, 0x23], [], []) := by
  intro reader start waiting owing
  have fine : ∀ step ∈ start.session [.next, .nextToken], step.isMalformed = false := by
    decide +kernel
  have before : ∀ step ∈ start.session [.next], step.isMalformed = false := by decide +kernel
  refine ⟨fine, session_inventory reader ⟨2, by decide⟩ [.next] before, by decide +kernel,
    session_inventory reader ⟨2, by decide⟩ [.next, .nextToken] fine, by decide +kernel⟩

end Tokenizer

end TemplateLexer
