import Mathlib.Computability.RegularExpressions
import TemplateLexer.Proofs.TextStops
import TemplateLexer.Token

namespace TemplateLexer

open RegularExpression

/-- What the expression describes for one of the constructs. -/
def ofSomeConstruct (expression : Construct → RegularExpression Kind) : RegularExpression Kind :=
  (Construct.all.map expression).sum

/-- At most one text. -/
def optionalText : RegularExpression Kind := 1 + char .text

/-- An opening marker, and at most one text behind it. -/
def opened (construct : Construct) : RegularExpression Kind :=
  char (.marker (.opening construct)) * optionalText

/-- At most one text, and a construct with its own closing marker. -/
def enclosed (construct : Construct) : RegularExpression Kind :=
  optionalText * opened construct * char (.marker (.closing construct))

/-- Enclosed constructs, at most one text, at most one construct that is left open, and the end. -/
def sentence : RegularExpression Kind :=
  (ofSomeConstruct enclosed).star * optionalText * (1 + ofSomeConstruct opened) * char .endOfInput

/-- The same words from left to right: what may follow in a mode, where a text comes only if one may
come next. -/
inductive Sentence : Mode → Bool → List Kind → Prop where
  | ended {mode : Mode} {textNext : Bool} : Sentence mode textNext [.endOfInput]
  | text {mode : Mode} {kinds : List Kind} (rest : Sentence mode false kinds) :
      Sentence mode true (.text :: kinds)
  | marker {mode : Mode} {textNext : Bool} {delimiter : Delimiter} {kinds : List Kind}
      (ends : mode.EndedBy delimiter) (rest : Sentence delimiter.nextMode true kinds) :
      Sentence mode textNext (.marker delimiter :: kinds)

theorem mem_matches'_sum {expressions : List (RegularExpression Kind)} {kinds : List Kind} :
    kinds ∈ expressions.sum.matches' ↔
      ∃ expression ∈ expressions, kinds ∈ expression.matches' := by
  induction expressions with
  | nil => simp [Language.notMem_zero]
  | cons first rest ih =>
      rw [List.sum_cons, matches'_add, Language.mem_add, ih, List.exists_mem_cons_iff]

theorem mem_ofSomeConstruct {expression : Construct → RegularExpression Kind} {kinds : List Kind} :
    kinds ∈ (ofSomeConstruct expression).matches' ↔
      ∃ construct, kinds ∈ (expression construct).matches' := by
  rw [ofSomeConstruct, mem_matches'_sum]
  constructor
  · rintro ⟨_, member, inside⟩
    obtain ⟨construct, -, rfl⟩ := List.mem_map.mp member
    exact ⟨construct, inside⟩
  · rintro ⟨construct, inside⟩
    exact ⟨_, List.mem_map_of_mem construct.mem_all, inside⟩

theorem mem_mul_char {expression : RegularExpression Kind} {kind : Kind} {kinds : List Kind} :
    kinds ∈ (expression * char kind).matches' ↔
      ∃ front ∈ expression.matches', front ++ [kind] = kinds := by
  rw [matches'_mul, matches'_char, Language.mem_mul]
  constructor
  · rintro ⟨front, member, last, rfl, rfl⟩
    exact ⟨front, member, rfl⟩
  · rintro ⟨front, member, rfl⟩
    exact ⟨front, member, [kind], rfl, rfl⟩

theorem mem_optionalText_iff {kinds : List Kind} :
    kinds ∈ optionalText.matches' ↔ kinds = [] ∨ kinds = [.text] := by
  rw [optionalText, matches'_add, Language.mem_add, matches'_char]
  exact Iff.rfl

theorem mem_opened_iff {construct : Construct} {kinds : List Kind} :
    kinds ∈ (opened construct).matches' ↔
      ∃ inside ∈ optionalText.matches', kinds = .marker (.opening construct) :: inside := by
  rw [opened, matches'_mul, matches'_char, Language.mem_mul]
  constructor
  · rintro ⟨_, rfl, inside, member, rfl⟩
    exact ⟨inside, member, rfl⟩
  · rintro ⟨inside, member, rfl⟩
    exact ⟨_, rfl, inside, member, rfl⟩

theorem mem_enclosed_iff {construct : Construct} {kinds : List Kind} :
    kinds ∈ (enclosed construct).matches' ↔
      ∃ before ∈ optionalText.matches', ∃ inside ∈ optionalText.matches',
        kinds = before ++ .marker (.opening construct) ::
          (inside ++ [.marker (.closing construct)]) := by
  rw [enclosed, mem_mul_char]
  simp only [matches'_mul, Language.mem_mul, mem_opened_iff]
  constructor
  · rintro ⟨_, ⟨before, first, _, ⟨inside, second, rfl⟩, rfl⟩, rfl⟩
    exact ⟨before, first, inside, second, by simp⟩
  · rintro ⟨before, first, inside, second, rfl⟩
    exact ⟨_, ⟨before, first, _, ⟨inside, second, rfl⟩, rfl⟩, by simp⟩

/-- A sentence is a list of enclosed constructs with a last part behind them. -/
theorem mem_sentence {kinds : List Kind} :
    kinds ∈ sentence.matches' ↔
      ∃ blocks : List (List Kind), (∀ block ∈ blocks,
          ∃ construct, block ∈ (enclosed construct).matches') ∧
        ∃ text ∈ optionalText.matches', ∃ left ∈ (1 + ofSomeConstruct opened).matches',
          kinds = blocks.flatten ++ (text ++ (left ++ [.endOfInput])) := by
  rw [sentence, mem_mul_char]
  simp only [matches'_mul, matches'_star, Language.mem_mul, Language.mem_kstar,
    mem_ofSomeConstruct]
  constructor
  · rintro ⟨_, ⟨_, ⟨_, ⟨blocks, rfl, each⟩, text, first, rfl⟩, left, second, rfl⟩, rfl⟩
    exact ⟨blocks, each, text, first, left, second, by simp⟩
  · rintro ⟨blocks, each, text, first, left, second, rfl⟩
    exact ⟨_, ⟨_, ⟨_, ⟨blocks, rfl, each⟩, text, first, rfl⟩, left, second, rfl⟩, by simp⟩

namespace Sentence

variable {mode : Mode} {textNext : Bool} {kinds : List Kind}

/-- What may follow a text may also follow without one. -/
theorem of_behindText (rest : Sentence mode false kinds) : Sentence mode true kinds := by
  cases rest with
  | ended => exact .ended
  | marker ends rest => exact .marker ends rest

theorem optionalText_append {texts : List Kind} (text : texts ∈ optionalText.matches')
    (rest : Sentence mode false kinds) : Sentence mode true (texts ++ kinds) := by
  rcases mem_optionalText_iff.mp text with rfl | rfl
  · exact rest.of_behindText
  · exact .text rest

/-- An enclosed construct leads back to where it began. -/
theorem enclosed_append {construct : Construct} {block : List Kind}
    (member : block ∈ (enclosed construct).matches') (rest : Sentence .literal true kinds) :
    Sentence .literal true (block ++ kinds) := by
  obtain ⟨before, first, inside, second, rfl⟩ := mem_enclosed_iff.mp member
  have closing : Sentence (.inside construct) false (.marker (.closing construct) :: kinds) :=
    .marker rfl rest
  have opening : Sentence .literal false (.marker (.opening construct) ::
      (inside ++ .marker (.closing construct) :: kinds)) :=
    .marker trivial (optionalText_append second closing)
  simpa using optionalText_append first opening

theorem of_mem (member : kinds ∈ sentence.matches') : Sentence .literal true kinds := by
  obtain ⟨blocks, each, text, first, left, second, rfl⟩ := mem_sentence.mp member
  clear member
  induction blocks with
  | nil =>
      rw [List.flatten_nil, List.nil_append]
      apply optionalText_append first
      rw [matches'_add, Language.mem_add, mem_ofSomeConstruct] at second
      rcases second with nothing | ⟨construct, second⟩
      · obtain rfl : left = [] := nothing
        exact .ended
      · obtain ⟨inside, third, rfl⟩ := mem_opened_iff.mp second
        exact .marker trivial (optionalText_append third .ended)
  | cons block blocks ih =>
      obtain ⟨construct, inside⟩ := each block List.mem_cons_self
      rw [List.flatten_cons, List.append_assoc]
      exact enclosed_append inside (ih fun block later => each block (List.mem_cons_of_mem _ later))

end Sentence

/-- The text behind the last marker, up to a place where a text may come next or may not. -/
def textSoFar (textNext : Bool) : RegularExpression Kind := if textNext then 1 else optionalText

/-- What leads from the last place between constructs to a place in the mode. -/
def beginning (mode : Mode) (textNext : Bool) : RegularExpression Kind :=
  match mode with
  | .literal => textSoFar textNext
  | .inside construct =>
      optionalText * (char (.marker (.opening construct)) * textSoFar textNext)

theorem mem_beginning_inside {construct : Construct} {textNext : Bool} {front : List Kind} :
    front ∈ (beginning (.inside construct) textNext).matches' ↔
      ∃ before ∈ optionalText.matches', ∃ inside ∈ (textSoFar textNext).matches',
        front = before ++ .marker (.opening construct) :: inside := by
  simp only [beginning, matches'_mul, matches'_char, Language.mem_mul]
  constructor
  · rintro ⟨before, first, _, ⟨_, rfl, inside, second, rfl⟩, rfl⟩
    exact ⟨before, first, inside, second, rfl⟩
  · rintro ⟨before, first, inside, second, rfl⟩
    exact ⟨before, first, _, ⟨_, rfl, inside, second, rfl⟩, rfl⟩

theorem optionalText_of_textSoFar {textNext : Bool} {texts : List Kind}
    (member : texts ∈ (textSoFar textNext).matches') : texts ∈ optionalText.matches' := by
  cases textNext with
  | true => exact mem_optionalText_iff.mpr (.inl member)
  | false => exact member

theorem beginning_append_text {mode : Mode} {front : List Kind}
    (member : front ∈ (beginning mode true).matches') :
    front ++ [.text] ∈ (beginning mode false).matches' := by
  have text : [Kind.text] ∈ (textSoFar false).matches' :=
    mem_optionalText_iff.mpr (.inr rfl)
  cases mode with
  | literal =>
      obtain rfl : front = [] := member
      exact text
  | inside construct =>
      obtain ⟨before, first, _, rfl, rfl⟩ := mem_beginning_inside.mp member
      exact mem_beginning_inside.mpr ⟨before, first, _, text, by simp⟩

/-- A sentence may end anywhere. -/
theorem beginning_append_end {mode : Mode} {textNext : Bool} {front : List Kind}
    (member : front ∈ (beginning mode textNext).matches') :
    front ++ [.endOfInput] ∈ sentence.matches' := by
  rw [mem_sentence]
  cases mode with
  | literal => exact ⟨[], by simp, front, optionalText_of_textSoFar member, [], .inl rfl, by simp⟩
  | inside construct =>
      obtain ⟨before, first, inside, second, rfl⟩ := mem_beginning_inside.mp member
      have left : .marker (.opening construct) :: inside ∈
          (1 + ofSomeConstruct opened).matches' := by
        rw [matches'_add, Language.mem_add, mem_ofSomeConstruct]
        exact .inr ⟨construct, mem_opened_iff.mpr ⟨inside, optionalText_of_textSoFar second, rfl⟩⟩
      exact ⟨[], by simp, before, first, _, left, by simp⟩

/-- Another enclosed construct goes before a sentence. -/
theorem enclosed_append_mem {construct : Construct} {block kinds : List Kind}
    (first : block ∈ (enclosed construct).matches') (member : kinds ∈ sentence.matches') :
    block ++ kinds ∈ sentence.matches' := by
  obtain ⟨blocks, each, rest⟩ := mem_sentence.mp member
  refine mem_sentence.mpr ⟨block :: blocks, ?_, ?_⟩
  · rw [List.forall_mem_cons]
    exact ⟨⟨construct, first⟩, each⟩
  · obtain ⟨text, second, left, third, rfl⟩ := rest
    exact ⟨text, second, left, third, by simp⟩

/-- What may follow at a place completes every beginning that leads to the place. -/
theorem Sentence.append_mem {mode : Mode} {textNext : Bool} {kinds : List Kind}
    (rest : Sentence mode textNext kinds) (front : List Kind)
    (member : front ∈ (beginning mode textNext).matches') :
    front ++ kinds ∈ sentence.matches' := by
  induction rest generalizing front with
  | ended => exact beginning_append_end member
  | text rest ih => simpa using ih _ (beginning_append_text member)
  | @marker mode textNext delimiter kinds ends rest ih =>
      cases mode with
      | literal =>
          cases delimiter with
          | closing construct => contradiction
          | opening construct =>
              have led : front ++ [.marker (.opening construct)] ∈
                  (beginning (.inside construct) true).matches' :=
                mem_beginning_inside.mpr ⟨front, optionalText_of_textSoFar member, [], rfl, rfl⟩
              simpa using ih _ led
      | inside construct =>
          cases delimiter with
          | opening construct => contradiction
          | closing other =>
              obtain rfl : construct = other := ends
              obtain ⟨before, first, inside, second, rfl⟩ := mem_beginning_inside.mp member
              have block : before ++ .marker (.opening construct) ::
                  (inside ++ [.marker (.closing construct)]) ∈ (enclosed construct).matches' :=
                mem_enclosed_iff.mpr
                  ⟨before, first, inside, optionalText_of_textSoFar second, rfl⟩
              have following : kinds ∈ sentence.matches' := ih [] rfl
              simpa using enclosed_append_mem block following

/-- The expression and the reading from left to right describe the same words. -/
theorem mem_sentence_iff {kinds : List Kind} :
    kinds ∈ sentence.matches' ↔ Sentence .literal true kinds := by
  constructor
  · exact Sentence.of_mem
  · intro rest
    exact rest.append_mem [] rfl

/-- A construct may be left open at the end, but no construct is opened within another. -/
example : [.text, .marker (.opening .tag), .text, .marker (.closing .tag),
      .marker (.opening .comment), .endOfInput] ∈ sentence.matches' ∧
    [.marker (.opening .tag), .marker (.opening .comment), .endOfInput] ∉ sentence.matches' := by
  decide +kernel

/-- The mode of the text behind tokens of the given kinds. -/
def Mode.after (mode : Mode) : List Kind → Mode
  | [] => mode
  | .marker delimiter :: kinds => delimiter.nextMode.after kinds
  | _ :: kinds => mode.after kinds

namespace Sentence

variable {mode : Mode} {textNext : Bool} {kinds : List Kind}

/-- Each marker ends the text of the mode in which it stands: constructs do not nest, and only their
own delimiters close them. -/
theorem endedBy_of_marker (order : Sentence mode textNext kinds) (front : List Kind)
    (delimiter : Delimiter) (behind : List Kind)
    (split : kinds = front ++ .marker delimiter :: behind) :
    (mode.after front).EndedBy delimiter := by
  induction order generalizing front with
  | ended => cases front <;> simp at split
  | text rest ih =>
      cases front with
      | nil => cases (List.cons.inj split).1
      | cons kind front =>
          obtain ⟨rfl, later⟩ := List.cons.inj split
          exact ih front later
  | marker ends rest ih =>
      cases front with
      | nil =>
          obtain ⟨same, -⟩ := List.cons.inj split
          cases same
          exact ends
      | cons kind front =>
          obtain ⟨rfl, later⟩ := List.cons.inj split
          exact ih front later

/-- No text stands next to another. -/
theorem ne_text_text (order : Sentence mode textNext kinds) (front behind : List Kind) :
    kinds ≠ front ++ .text :: .text :: behind := by
  intro split
  induction order generalizing front with
  | ended => cases front <;> simp at split
  | text rest ih =>
      cases front with
      | nil =>
          obtain ⟨-, rfl⟩ := List.cons.inj split
          contradiction
      | cons kind front => exact ih front (List.cons.inj split).2
  | marker ends rest ih =>
      cases front with
      | nil => cases (List.cons.inj split).1
      | cons kind front => exact ih front (List.cons.inj split).2

end Sentence

/-- Text has contents, and nothing else has. -/
def Token.FilledIfText (token : Token) : Prop := token.kind = .text ↔ token.contents ≠ ""

theorem filledIfText_bare {kind : Kind} (other : kind ≠ .text) (span : Span) :
    (Token.bare kind span).FilledIfText :=
  iff_of_false other fun filled => filled rfl

end TemplateLexer
