import Mathlib.Data.List.DropRight
import TemplateLexer.Proofs.MalformedText
import TemplateLexer.Proofs.Parts

namespace TemplateLexer

section Shared

variable {first second : List UInt8} {shared : Nat}

/-- What stands in the shared beginning stands in both templates. -/
theorem extract_of_shared (same : first.take shared = second.take shared) {start stop : Nat}
    (within : stop ≤ shared) : first.extract start stop = second.extract start stop := by
  have cut (template : List UInt8) :
      template.extract start stop = (template.take shared).extract start stop := by
    rw [List.extract_eq_take_drop, List.extract_eq_take_drop, List.drop_take, List.take_take,
      Nat.min_eq_left (Nat.sub_le_sub_right within start)]
  rw [cut first, cut second, same]

theorem standsAt_of_shared (same : first.take shared = second.take shared) {delimiter : Delimiter}
    {position : Nat} (within : position + delimiterLength ≤ shared) :
    delimiter.StandsAt first position ↔ delimiter.StandsAt second position := by
  rw [Delimiter.StandsAt, Delimiter.StandsAt, List.prefix_iff_eq_take, List.prefix_iff_eq_take,
    Delimiter.length_bytes, take_drop_eq_extract, take_drop_eq_extract,
    extract_of_shared same within]

/-- Text stops at the same place in both templates if its delimiter lies in the shared beginning. -/
theorem TextStops.of_shared {mode : Mode} {start stop : Nat} {delimiter : Delimiter}
    (stops : TextStops first mode start stop (some delimiter))
    (same : first.take shared = second.take shared) (within : stop + delimiterLength ≤ shared) :
    TextStops second mode start stop (some delimiter) := by
  cases stops with
  | before after ends stands least =>
      refine .before after ends ((standsAt_of_shared same within).mp stands) ?_
      intro earlier other behind below others
      rw [← standsAt_of_shared same (by omega)]
      exact least earlier other behind below others

end Shared

/-- The result is a marker whose span ends at the limit or before it. -/
def isMarkerWithin (limit : Nat) : Result → Bool
  | .ok token => token.kind.isMarker && decide (token.span.stop ≤ limit)
  | .error _ => false

/-- The results up to the last marker within the limit, and this marker. -/
def throughLastMarker (limit : Nat) (results : List Result) : List Result :=
  results.rdropWhile fun result => !isMarkerWithin limit result

theorem exists_marker {limit : Nat} {result : Result}
    (marked : isMarkerWithin limit result = true) :
    ∃ token delimiter, result = .ok token ∧ token.kind = .marker delimiter ∧
      token.span.stop ≤ limit := by
  cases result with
  | error error => contradiction
  | ok token =>
      obtain ⟨isMarker, below⟩ := Bool.and_eq_true_iff.mp marked
      obtain ⟨delimiter, named⟩ := Option.isSome_iff_exists.mp isMarker
      refine ⟨token, delimiter, rfl, ?_, of_decide_eq_true below⟩
      cases kind : token.kind <;> simp_all [Kind.delimiter?]

theorem throughLastMarker_concat (limit : Nat) (results : List Result) (last : Result) :
    throughLastMarker limit (results ++ [last]) =
      if isMarkerWithin limit last then results ++ [last] else throughLastMarker limit results := by
  rw [throughLastMarker, List.rdropWhile_concat]
  cases isMarkerWithin limit last <;> rfl

/-- A marker within the limit is not dropped, nor is anything before it. -/
theorem prefix_throughLastMarker {limit : Nat} {front results : List Result} {result : Result}
    (marked : isMarkerWithin limit result = true) (begins : front ++ [result] <+: results) :
    front ++ [result] <+: throughLastMarker limit results := by
  obtain ⟨behind, rfl⟩ := begins
  -- Results are dropped from the end on, so the induction takes them off there.
  induction behind using List.reverseRecOn with
  | nil =>
      rw [List.append_nil]
      exact ⟨[], by rw [List.append_nil, throughLastMarker_concat, if_pos marked]⟩
  | append_singleton behind last ih =>
      rw [← List.append_assoc, throughLastMarker_concat]
      split
      · rw [List.append_assoc]
        exact List.prefix_append _ _
      · exact ih

/-- If whatever ends with a marker within the limit is carried over from some results to others,
then so is everything up to the last such marker. -/
theorem throughLastMarker_prefix {limit : Nat} {results others : List Result}
    (carried : ∀ front result, isMarkerWithin limit result = true →
      front ++ [result] <+: results → front ++ [result] <+: others) :
    throughLastMarker limit results <+: throughLastMarker limit others := by
  rcases List.eq_nil_or_concat (throughLastMarker limit results) with
    nothing | ⟨front, result, split⟩
  · rw [nothing]
    exact List.nil_prefix
  · rw [List.concat_eq_append] at split
    have marked : isMarkerWithin limit result = true := by
      have last := List.rdropWhile_last_not (fun result => !isMarkerWithin limit result) results
      simp only [← throughLastMarker.eq_1, split] at last
      simpa using last
    have begins : front ++ [result] <+: results := by
      rw [← split]
      exact List.rdropWhile_prefix _ _
    rw [split]
    exact prefix_throughLastMarker marked (carried front result marked begins)

/-- Two passes over templates with a shared beginning agree up to each marker in it. -/
theorem passFrom_of_shared {first second : List UInt8} {shared : Nat}
    (same : first.take shared = second.take shared) {front : List Result} {result : Result}
    (marked : isMarkerWithin shared result = true)
    (begins : front ++ [result] <+: passFrom .literal 0 first) :
    front ++ [result] <+: passFrom .literal 0 second := by
  obtain ⟨behind, split⟩ := begins
  obtain ⟨token, delimiter, rfl, isMarker, below⟩ := exists_marker marked
  rw [List.append_assoc] at split
  obtain ⟨count, -, stop, whole⟩ := passFrom_of_marker split.symm isMarker
  have shorter : first.take count = second.take count := by
    have cut := congrArg (List.take count) same
    rw [List.take_take, List.take_take] at cut
    rwa [Nat.min_eq_left (by omega)] at cut
  have other := whole (second.drop count)
  rw [shorter, List.take_append_drop] at other
  exact ⟨_, by rw [other, List.append_assoc]; rfl⟩

/-- The results are tokens and then one error, about a text region of the template whose delimiter
lies within the limit. -/
def ReportsWithin (template : List UInt8) (limit : Nat) (mode : Mode) (position : Nat)
    (results : List Result) : Prop :=
  ∃ (tokens : List Token) (start stop : Nat) (delimiter : Delimiter) (fault : Utf8.Fault),
    results = tokens.map .ok ++
        [.error (.malformedText start (template.extract start stop) fault)] ∧
      TextRegion template mode position start stop (some delimiter) ∧
      stop + delimiterLength ≤ limit ∧
      Utf8.FirstFault (template.extract start stop) fault

theorem TextRegion.start_le_stop {template : List UInt8} {mode : Mode} {position start stop : Nat}
    {next : Option Delimiter} (region : TextRegion template mode position start stop next) :
    start ≤ stop := by
  induction region with
  | here stops => exact stops.start_le
  | behind stops rest ih => exact ih

/-- A malformed text region whose delimiter lies in the shared beginning ends both passes in the
same way: with an error about it, or about a region before it. -/
theorem reportsWithin_of_region {first second : List UInt8} {shared : Nat}
    (same : first.take shared = second.take shared) {mode : Mode} {position start stop : Nat}
    {delimiter : Delimiter}
    (region : TextRegion first mode position start stop (some delimiter))
    (within : stop + delimiterLength ≤ shared)
    (invalid : ¬ Utf8.Valid (first.extract start stop)) :
    ReportsWithin first shared mode position (passFrom mode position (first.drop position)) ∧
      passFrom mode position (second.drop position) =
        passFrom mode position (first.drop position) := by
  generalize ended : some delimiter = next at region
  induction region with
  | @here mode start stop next stops =>
      subst ended
      rcases textBetween_or_firstFault first stops.start_le with ⟨texts, text⟩ | ⟨fault, found⟩
      · exact absurd text.valid invalid
      · rw [passFrom_of_before stops, passFrom_of_before (stops.of_shared same within),
          ← extract_of_shared same (Nat.le_of_add_right_le within), textThen_of_firstFault found,
          textThen_of_firstFault found]
        exact ⟨⟨[], start, stop, delimiter, fault, rfl, .here stops, within, found⟩, rfl⟩
  | @behind mode position middle start stop other next stops rest ih =>
      subst ended
      have later := rest.le_start
      have ordered := rest.start_le_stop
      have earlier : middle + delimiterLength ≤ shared := by omega
      obtain ⟨⟨tokens, start', stop', delimiter', fault, split, found⟩, agree⟩ :=
        ih within invalid rfl
      rw [passFrom_of_before stops, passFrom_of_before (stops.of_shared same earlier), agree,
        ← extract_of_shared same (Nat.le_of_add_right_le earlier)]
      refine ⟨?_, rfl⟩
      -- A malformed text before the region is closed in the shared beginning too.
      rcases textBetween_or_firstFault first stops.start_le with ⟨texts, text⟩ | ⟨fault, here⟩
      · obtain ⟨texts', rfl⟩ := text.exists_tokens
        rw [textThen_of_textBetween text stops.stop_le, split]
        exact ⟨texts' ++ .marker other middle :: tokens, start', stop', delimiter', fault,
          by simp, .behind stops found.1, found.2⟩
      · rw [textThen_of_firstFault here]
        exact ⟨[], position, middle, other, fault, rfl, .here stops, earlier, here⟩

namespace Tokenizer

/-- If two templates share their first bytes, then the results of any two tokenizers of them agree
up to the last marker that ends in the shared beginning. If a malformed text region of the first
template is closed by a delimiter in the shared beginning, then both tokenizers return the same
tokens and then the same error, which is about such a region. -/
theorem results_of_shared {first second : Reader} (steady : first.failures = [])
    (steady' : second.failures = []) (capacity capacity' : Capacity) {shared : Nat}
    (same : first.template.take shared = second.template.take shared) :
    let results := (ofReader first capacity).run.map Step.result
    let results' := (ofReader second capacity').run.map Step.result
    throughLastMarker shared results = throughLastMarker shared results' ∧
      ∀ start stop delimiter,
        TextRegion first.template .literal 0 start stop (some delimiter) →
        stop + delimiterLength ≤ shared → ¬ Utf8.Valid (first.template.extract start stop) →
        ReportsWithin first.template shared .literal 0 results ∧ results' = results := by
  simp only [results_of_steady steady, results_of_steady steady']
  constructor
  · have forth : throughLastMarker shared (passFrom .literal 0 first.template) <+:
        throughLastMarker shared (passFrom .literal 0 second.template) :=
      throughLastMarker_prefix fun _ _ => passFrom_of_shared same
    have back : throughLastMarker shared (passFrom .literal 0 second.template) <+:
        throughLastMarker shared (passFrom .literal 0 first.template) :=
      throughLastMarker_prefix fun _ _ => passFrom_of_shared same.symm
    exact forth.eq_of_length_le back.length_le
  · intro start stop delimiter region within invalid
    exact reportsWithin_of_region same region within invalid

/-- The shared beginning ends with a lead byte, from which different delimiters come. -/
theorem results_of_shared_lead_byte :
    let first := Reader.ofDeliveries
      [.bytes [0x7B, 0x7B, 0xFF, 0x7D], .interruption, .bytes [0x7D, 0x7B], .bytes [0x7B]]
    let second := Reader.ofDeliveries [.bytes [0x7B, 0x7B, 0xFF, 0x7D, 0x7D, 0x7B, 0x25]]
    let results := (ofReader first ⟨2, by decide⟩).run.map Step.result
    let results' := (ofReader second .standard).run.map Step.result
    (first.failures = [] ∧ second.failures = [] ∧
        first.template.take 6 = second.template.take 6) ∧
      throughLastMarker 6 results = throughLastMarker 6 results' ∧
      (TextRegion first.template .literal 0 2 3 (some (.closing .interpolation)) ∧
        ¬ Utf8.Valid (first.template.extract 2 3)) ∧
      ReportsWithin first.template 6 .literal 0 results ∧ results' = results := by
  intro first second results results'
  have steady : first.failures = [] := by decide
  have steady' : second.failures = [] := by decide
  have same : first.template.take 6 = second.template.take 6 := by decide
  obtain ⟨agree, reports⟩ := results_of_shared steady steady' ⟨2, by decide⟩ .standard same
  have opened : TextStops first.template .literal 0 0 (some (.opening .interpolation)) :=
    (textStops_iff (by decide)).mpr ⟨rfl, rfl⟩
  have closed : TextStops first.template (.inside .interpolation) 2 3
      (some (.closing .interpolation)) := (textStops_iff (by decide)).mpr ⟨rfl, rfl⟩
  have region : TextRegion first.template .literal 0 2 3 (some (.closing .interpolation)) :=
    .behind opened (.here closed)
  have invalid : ¬ Utf8.Valid (first.template.extract 2 3) := by decide +kernel
  exact ⟨⟨steady, steady', same⟩, agree, ⟨region, invalid⟩,
    reports 2 3 _ region (by decide) invalid⟩

end Tokenizer

end TemplateLexer
