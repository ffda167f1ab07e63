import Mathlib.Logic.Function.Basic
import TemplateLexer.Transcript

namespace TemplateLexer

theorem toList_escapeNewlines (text : String) :
    (escapeNewlines text).toList = text.toList.flatMap fun character =>
      if character = '\n' then ['\\', 'n'] else [character] := String.toList_ofList

@[simp] theorem escapeNewlines_append (first second : String) :
    escapeNewlines (first ++ second) = escapeNewlines first ++ escapeNewlines second := by
  rw [escapeNewlines, String.toList_append, List.flatMap_append, String.ofList_append]
  rfl

/-- No character is escaped to nothing. -/
theorem escapeNewlines_eq_empty_iff {text : String} : escapeNewlines text = "" ↔ text = "" := by
  rw [← String.toList_inj, toList_escapeNewlines, ← String.toList_inj, String.toList_empty,
    List.flatMap_eq_nil_iff]
  constructor
  · intro nothing
    rw [List.eq_nil_iff_forall_not_mem]
    intro character member
    have empty := nothing character member
    split at empty <;> contradiction
  · intro empty
    rw [empty]
    nofun

theorem escapeNewlines_join (texts : List String) :
    escapeNewlines (String.join texts) = String.join (texts.map escapeNewlines) := by
  induction texts with
  | nil => rfl
  | cons text texts ih =>
      rw [String.join_cons, escapeNewlines_append, ih, List.map_cons, String.join_cons]

/-- The escaped text is what stands between the newlines, with escapes in their place. -/
theorem escapeNewlines_eq_intercalate (text : String) :
    (escapeNewlines text).toList = ['\\', 'n'].intercalate (text.toList.splitOn '\n') := by
  rw [toList_escapeNewlines]
  induction text.toList with
  | nil => rfl
  | cons first rest ih =>
      -- A newline opens a new piece, and any other character joins the first piece of the rest.
      obtain ⟨piece, pieces, cut⟩ := List.exists_cons_of_ne_nil (List.splitOn_ne_nil '\n' rest)
      rw [List.flatMap_cons, ih, List.splitOn_cons_eq_if_modifyHead, cut]
      simp only [beq_iff_eq]
      split
      · rw [List.intercalate_cons_cons, List.nil_append]
      · cases pieces <;> rfl

theorem newline_notMem_escapeNewlines (text : String) : '\n' ∉ (escapeNewlines text).toList := by
  rw [toList_escapeNewlines, List.mem_flatMap]
  rintro ⟨character, -, member⟩
  split at member
  · simp at member
  · next other => exact other (List.mem_singleton.mp member).symm

/-- Text without a newline stays as it is. -/
theorem escapeNewlines_of_notMem {text : String} (absent : '\n' ∉ text.toList) :
    escapeNewlines text = text := by
  apply String.toList_inj.mp
  rw [toList_escapeNewlines]
  generalize text.toList = characters at absent
  induction characters with
  | nil => rfl
  | cons first rest ih =>
      rw [List.mem_cons, not_or] at absent
      rw [List.flatMap_cons, if_neg (Ne.symm absent.1), ih absent.2]
      rfl

/-- Names of kinds are plain words. -/
theorem Kind.notMem_name (kind : Kind) : '\n' ∉ kind.name.toList ∧ '"' ∉ kind.name.toList := by
  have all : ∀ kind ∈ Kind.all, '\n' ∉ kind.name.toList ∧ '"' ∉ kind.name.toList := by decide
  exact all kind kind.mem_all

theorem Kind.name_injective : Function.Injective Kind.name := by
  intro first second same
  have read := second.ofName?_name
  rw [← same, first.ofName?_name] at read
  exact Option.some.inj read

namespace Token

theorem render_of_text {token : Token} (isText : token.kind = .text) :
    token.render = "Text \"" ++ escapeNewlines token.contents ++ "\"" := by
  rw [render, isText]
  rfl

theorem render_of_other {token : Token} (other : token.kind ≠ .text) :
    token.render = token.kind.name := by
  rw [render]
  split
  · next isText => exact absurd isText other
  · rfl

theorem newline_notMem_render (token : Token) : '\n' ∉ token.render.toList := by
  by_cases isText : token.kind = .text
  · rw [render_of_text isText, String.toList_append, String.toList_append]
    simp only [List.mem_append, not_or]
    exact ⟨⟨by decide, newline_notMem_escapeNewlines _⟩, by decide⟩
  · rw [render_of_other isText]
    exact token.kind.notMem_name.1

/-- Only text shows a quote. -/
theorem quote_mem_render_iff (token : Token) : '"' ∈ token.render.toList ↔ token.kind = .text := by
  by_cases isText : token.kind = .text
  · rw [render_of_text isText, String.toList_append]
    exact iff_of_true (List.mem_append_right _ (by decide)) isText
  · rw [render_of_other isText]
    exact iff_of_false token.kind.notMem_name.2 isText

/-- A token shows its kind, and text shows its contents up to the escapes, and nothing else. -/
theorem render_eq_iff (first second : Token) :
    first.render = second.render ↔
      first.kind = second.kind ∧
        (first.kind = .text → escapeNewlines first.contents = escapeNewlines second.contents) := by
  have quotes (same : first.render = second.render) :
      first.kind = .text ↔ second.kind = .text := by
    rw [← quote_mem_render_iff, ← quote_mem_render_iff, same]
  by_cases isText : first.kind = .text
  · constructor
    · intro same
      have isText' := (quotes same).mp isText
      refine ⟨isText.trans isText'.symm, fun _ => ?_⟩
      rw [render_of_text isText, render_of_text isText', String.append_left_inj,
        String.append_right_inj] at same
      exact same
    · intro ⟨kinds, contents⟩
      rw [render_of_text isText, render_of_text (kinds ▸ isText), contents isText]
  · constructor
    · intro same
      have other : second.kind ≠ .text := fun isText' => isText ((quotes same).mpr isText')
      rw [render_of_other isText, render_of_other other] at same
      exact ⟨Kind.name_injective same, fun isText' => absurd isText' isText⟩
    · rintro ⟨kinds, -⟩
      rw [render_of_other isText, render_of_other (kinds ▸ isText), kinds]

/-- What a token shows tells its source text up to the escapes. -/
theorem escapeNewlines_sourceText {first second : Token} (same : first.render = second.render) :
    escapeNewlines first.sourceText = escapeNewlines second.sourceText := by
  obtain ⟨kinds, contents⟩ := (render_eq_iff first second).mp same
  rw [sourceText, sourceText, ← kinds]
  split
  · next isText => exact contents isText
  · rfl
  · rfl

end Token

theorem reconstruct_eq_join (tokens : List Token) :
    reconstruct tokens = String.join (tokens.map Token.sourceText) := by
  rw [reconstruct, String.join, List.foldl_map]

namespace Transcript

theorem ofTokens_eq_join (tokens : List Token) :
    ofTokens tokens = String.join (tokens.map line) := by
  rw [ofTokens, String.join, List.foldl_map]

theorem ofTokens_append (front tokens : List Token) :
    ofTokens (front ++ tokens) = ofTokens front ++ ofTokens tokens := by
  rw [ofTokens_eq_join, ofTokens_eq_join, ofTokens_eq_join, List.map_append, String.join_append]

theorem toList_ofTokens (tokens : List Token) :
    (ofTokens tokens).toList = tokens.flatMap fun token => token.render.toList ++ ['\n'] := by
  rw [ofTokens_eq_join, String.toList_join, List.flatMap_map]
  simp only [line, String.toList_append]
  rfl

/-- A transcript is cut at its newlines into what its tokens show. -/
theorem splitOn_ofTokens (tokens : List Token) :
    (ofTokens tokens).toList.splitOn '\n' =
      tokens.map (fun token => token.render.toList) ++ [[]] := by
  rw [toList_ofTokens]
  induction tokens with
  | nil => rfl
  | cons token tokens ih =>
      rw [List.flatMap_cons, List.append_assoc, List.singleton_append,
        List.splitOn_append_cons_self, List.splitOn_eq_singleton token.newline_notMem_render, ih]
      rfl

/-- A transcript has as many newlines as it shows tokens. -/
theorem count_ofTokens (tokens : List Token) :
    (ofTokens tokens).toList.count '\n' = tokens.length := by
  rw [toList_ofTokens]
  induction tokens with
  | nil => rfl
  | cons token tokens ih =>
      rw [List.flatMap_cons, List.count_append, ih, List.count_append,
        List.count_eq_zero_of_not_mem token.newline_notMem_render, List.count_singleton_self,
        List.length_cons]
      omega

/-- Two transcripts are the same if and only if their tokens show the same, one by one. -/
theorem ofTokens_eq_iff (first second : List Token) :
    ofTokens first = ofTokens second ↔ first.map Token.render = second.map Token.render := by
  constructor
  · intro same
    have lines := splitOn_ofTokens second
    rw [← same, splitOn_ofTokens, List.append_left_inj] at lines
    apply (List.map_inj_right fun _ _ => String.toList_injective).mp
    rw [List.map_map, List.map_map]
    exact lines
  · intro same
    rw [ofTokens_eq_join, ofTokens_eq_join]
    have lines := congrArg (List.map fun shown => shown ++ "\n") same
    rw [List.map_map, List.map_map] at lines
    exact congrArg String.join lines

/-- A transcript has one line for each token, whatever the contents of the tokens are: the newlines
of text stand escaped in it. So it tells how many tokens there are, their kinds, and the contents of
texts but for the escapes. -/
theorem ofTokens_oneLineEach (first second : List Token) :
    (ofTokens first).toList.count '\n' = first.length ∧
      (ofTokens first).toList.splitOn '\n' =
        first.map (fun token => token.render.toList) ++ [[]] ∧
      (ofTokens first = ofTokens second ↔
        first.length = second.length ∧
          ∀ index (inside : index < first.length) (inside' : index < second.length),
            first[index].kind = second[index].kind ∧
              (first[index].kind = .text →
                escapeNewlines first[index].contents = escapeNewlines second[index].contents)) ∧
      ∀ text, (escapeNewlines text).toList =
        ['\\', 'n'].intercalate (text.toList.splitOn '\n') := by
  refine ⟨count_ofTokens first, splitOn_ofTokens first, ?_, escapeNewlines_eq_intercalate⟩
  rw [ofTokens_eq_iff, List.ext_getElem_iff]
  simp only [List.length_map, List.getElem_map, Token.render_eq_iff]

/-- A transcript tells the source of its tokens up to the escapes. -/
theorem escapeNewlines_reconstruct {first second : List Token}
    (same : ofTokens first = ofTokens second) :
    escapeNewlines (reconstruct first) = escapeNewlines (reconstruct second) := by
  have told : Function.FactorsThrough (fun token => escapeNewlines (Token.sourceText token))
      Token.render := fun _ _ => Token.escapeNewlines_sourceText
  obtain ⟨source, read⟩ := (Function.factorsThrough_iff _).mp told
  have sources := congrArg (List.map source) ((ofTokens_eq_iff first second).mp same)
  rw [List.map_map, List.map_map, ← read] at sources
  rw [reconstruct_eq_join, reconstruct_eq_join, escapeNewlines_join, escapeNewlines_join,
    List.map_map, List.map_map]
  exact congrArg String.join sources

/-- Tokens that are shown as soon as they are returned are shown as the collected list is. -/
theorem ofTokenizerFrom_eq (tokenizer : Tokenizer) (tokens : Array Token) (events : Array Event) :
    ofTokenizerFrom tokenizer (ofTokens tokens.toList) events =
      let collection := tokenizer.collectFrom tokens events
      ⟨collection.result.map ofTokens, collection.events, collection.after⟩ := by
  fun_induction Tokenizer.collectFrom tokenizer tokens events with
  | case1 tokenizer tokens events stopped =>
      rw [ofTokenizerFrom]
      split
      · rfl
      · next step stepped => simp [stopped] at stepped
  | case2 tokenizer tokens events step stepped token returned ih =>
      rw [Array.toList_push, ofTokens_append] at ih
      rw [ofTokenizerFrom]
      split
      · next stopped => simp [stepped] at stopped
      · next other stepped' =>
          obtain rfl : step = other := Option.some.inj (stepped.symm.trans stepped')
          simp only [returned]
          exact ih
  | case3 tokenizer tokens events step stepped error failed =>
      rw [ofTokenizerFrom]
      split
      · next stopped => simp [stepped] at stopped
      · next other stepped' =>
          obtain rfl : step = other := Option.some.inj (stepped.symm.trans stepped')
          simp only [failed]
          rfl

/-- The transcript of a reader is the one of its tokens, and fails as these do. -/
theorem ofReader_eq (reader : Reader) : ofReader reader = (tokenize reader).map ofTokens :=
  congrArg Outcome.result (ofTokenizerFrom_eq (.ofReader reader .standard) #[] #[])

end Transcript

end TemplateLexer
