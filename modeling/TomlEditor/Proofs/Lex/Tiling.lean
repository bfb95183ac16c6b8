import Mathlib.Data.List.Chain
import TomlEditor.Proofs.Lex.Lexemes

/-!
# Tokens tile the text

The tokens of a text lie side by side from its first byte to its last, each on
the characters that are its own text. Places are counted in bytes, so the facts
are about the UTF-8 form: every end of a token is a boundary between characters,
and the bytes between its two ends are the bytes of its text.
-/

namespace TomlEditor.Lex

/-! ## Places -/

/-- The number of bytes that some lexemes take. -/
def byteCount (lexemes : List Lexeme) : Nat :=
  lexemes.foldr (fun lexeme bytes => lexeme.text.utf8ByteSize + bytes) 0

@[simp] theorem byteCount_nil : byteCount [] = 0 := rfl

@[simp] theorem byteCount_cons (lexeme : Lexeme) (more : List Lexeme) :
    byteCount (lexeme :: more) = lexeme.text.utf8ByteSize + byteCount more := rfl

theorem byteCount_eq (lexemes : List Lexeme) :
    byteCount lexemes = (String.join (lexemes.map Lexeme.text)).utf8ByteSize := by
  induction lexemes with
  | nil => simp
  | cons lexeme more ih => simp [ih, String.utf8ByteSize_append]

/-- Lexemes take the bytes of the characters that they are cut from. -/
theorem byteCount_of_flatMap {lexemes : List Lexeme} {text : List Char}
    (h : lexemes.flatMap (·.text.toList) = text) :
    byteCount lexemes = (String.ofList text).utf8ByteSize := by
  rw [byteCount_eq, ← h]
  congr 1
  apply String.toList_injective
  rw [String.toList_join, List.flatMap_map, String.toList_ofList]

/-- Where the place of a lexeme among others is. -/
def placed (offset : Nat) (lexeme : Lexeme) : Token :=
  ⟨lexeme.kind, lexeme.text, ⟨offset, offset + lexeme.text.utf8ByteSize⟩⟩

@[simp] theorem place_nil (offset : Nat) : place offset [] = [] := rfl

@[simp] theorem place_cons (offset : Nat) (lexeme : Lexeme) (more : List Lexeme) :
    place offset (lexeme :: more) =
      placed offset lexeme :: place (offset + lexeme.text.utf8ByteSize) more := rfl

theorem place_append (offset : Nat) (first second : List Lexeme) :
    place offset (first ++ second) =
      place offset first ++ place (offset + byteCount first) second := by
  induction first generalizing offset with
  | nil => simp
  | cons lexeme more ih => simp [ih, Nat.add_assoc]

@[simp] theorem map_text_place (offset : Nat) (lexemes : List Lexeme) :
    (place offset lexemes).map Token.text = lexemes.map Lexeme.text := by
  induction lexemes generalizing offset with
  | nil => rfl
  | cons lexeme more ih => simp [ih, placed]

theorem length_place (offset : Nat) (lexemes : List Lexeme) :
    (place offset lexemes).length = lexemes.length := by
  induction lexemes generalizing offset with
  | nil => rfl
  | cons lexeme more ih => simp [ih]

/-- A token among placed lexemes starts behind all lexemes before its own. -/
theorem mem_place {offset : Nat} {lexemes : List Lexeme} {token : Token}
    (h : token ∈ place offset lexemes) :
    ∃ before lexeme after, lexemes = before ++ lexeme :: after ∧
      token = placed (offset + byteCount before) lexeme := by
  induction lexemes generalizing offset with
  | nil => simp at h
  | cons lexeme more ih =>
    rw [place_cons] at h
    rcases List.mem_cons.1 h with rfl | h
    · exact ⟨[], lexeme, more, rfl, by simp⟩
    · obtain ⟨before, found, after, rfl, rfl⟩ := ih h
      exact ⟨lexeme :: before, found, after, rfl, by simp [Nat.add_assoc]⟩

/-- The token in a place is the lexeme there, behind those before it. -/
theorem getElem?_place (offset : Nat) (lexemes : List Lexeme) (count : Nat) :
    (place offset lexemes)[count]? =
      lexemes[count]?.map (placed (offset + byteCount (lexemes.take count))) := by
  induction lexemes generalizing offset count with
  | nil => simp
  | cons lexeme more ih =>
    cases count with
    | zero => rfl
    | succ count => simp [ih, Nat.add_assoc]

theorem isChain_place (offset : Nat) (lexemes : List Lexeme) :
    (place offset lexemes).IsChain fun token next => next.span.start = token.span.stop := by
  induction lexemes generalizing offset with
  | nil => exact .nil
  | cons lexeme more ih =>
    refine List.isChain_cons.2 ⟨?_, ih _⟩
    intro next hnext
    cases more with
    | nil => simp at hnext
    | cons second rest =>
      simp only [place_cons, List.head?_cons, Option.mem_some_iff] at hnext
      rw [← hnext]
      rfl

/-! ## Tilings -/

/-- Tokens that lie side by side on all of a text. -/
structure Tiles (text : String) (tokens : List Token) : Prop where
  nonempty : ∀ token ∈ tokens, token.text ≠ "" ∧ token.span.start < token.span.stop
  first : text ≠ "" → ∃ token more, tokens = token :: more ∧ token.span.start = 0
  contiguous : tokens.IsChain fun token next => next.span.start = token.span.stop
  last : text ≠ "" → ∃ before token, tokens = before ++ [token] ∧
    token.span.stop = text.utf8ByteSize
  /-- Both ends of a token lie between characters. -/
  boundary : ∀ token ∈ tokens, (⟨token.span.start⟩ : String.Pos.Raw).IsValid text ∧
    (⟨token.span.stop⟩ : String.Pos.Raw).IsValid text
  /-- The bytes between the ends of a token are those of its text. -/
  slice : ∀ token ∈ tokens,
    text.toByteArray.extract token.span.start token.span.stop = token.text.toByteArray
  whole : String.join (tokens.map Token.text) = text

/-- In a text of three parts, the place of the middle one is between characters and holds it. -/
theorem middle_slice (before middle after : String) :
    (⟨before.utf8ByteSize⟩ : String.Pos.Raw).IsValid (before ++ middle ++ after) ∧
      (⟨before.utf8ByteSize + middle.utf8ByteSize⟩ : String.Pos.Raw).IsValid
        (before ++ middle ++ after) ∧
      (before ++ middle ++ after).toByteArray.extract before.utf8ByteSize
        (before.utf8ByteSize + middle.utf8ByteSize) = middle.toByteArray := by
  refine ⟨?_, ?_, ?_⟩
  · rw [String.Pos.Raw.isValid_iff_exists_append]
    exact ⟨before, middle ++ after, String.append_assoc, rfl⟩
  · rw [String.Pos.Raw.isValid_iff_exists_append]
    refine ⟨before ++ middle, after, rfl, ?_⟩
    rw [← String.utf8ByteSize_append]
    rfl
  · rw [String.append_assoc, String.toByteArray_append, String.toByteArray_append]
    calc (before.toByteArray ++ (middle.toByteArray ++ after.toByteArray)).extract
          (before.toByteArray.size + 0) (before.toByteArray.size + middle.toByteArray.size)
        = (middle.toByteArray ++ after.toByteArray).extract 0 middle.toByteArray.size :=
          ByteArray.extract_append_size_add
      _ = middle.toByteArray := ByteArray.extract_append_eq_left rfl

/-- Lexemes that are not empty tile the text that they make up together. -/
theorem tiles_place {lexemes : List Lexeme} (h : ∀ lexeme ∈ lexemes, lexeme.text ≠ "") :
    Tiles (String.join (lexemes.map Lexeme.text)) (place 0 lexemes) := by
  have hsplit : ∀ token ∈ place 0 lexemes, ∃ before after : String,
      String.join (lexemes.map Lexeme.text) = before ++ token.text ++ after ∧
      token.span = ⟨before.utf8ByteSize, before.utf8ByteSize + token.text.utf8ByteSize⟩ := by
    intro token htoken
    obtain ⟨before, lexeme, after, rfl, rfl⟩ := mem_place htoken
    refine ⟨String.join (before.map Lexeme.text), String.join (after.map Lexeme.text), ?_, ?_⟩
    · simp [placed, String.append_assoc]
    · simp [placed, byteCount_eq]
  refine ⟨?_, ?_, isChain_place 0 lexemes, ?_, ?_, ?_, by rw [map_text_place]⟩
  · intro token htoken
    obtain ⟨before, lexeme, after, rfl, rfl⟩ := mem_place htoken
    have hne : lexeme.text ≠ "" := h lexeme (by simp)
    have hpos : lexeme.text.utf8ByteSize ≠ 0 := fun hzero =>
      hne (String.utf8ByteSize_eq_zero_iff.1 hzero)
    refine ⟨hne, ?_⟩
    simp only [placed]
    omega
  · intro hne
    cases lexemes with
    | nil => simp at hne
    | cons lexeme more => exact ⟨_, _, place_cons 0 lexeme more, rfl⟩
  · intro hne
    rcases List.eq_nil_or_concat lexemes with rfl | ⟨before, lexeme, rfl⟩
    · simp at hne
    · refine ⟨place 0 before, placed (byteCount before) lexeme, by simp [place_append], ?_⟩
      simp [placed, byteCount_eq, String.utf8ByteSize_append]
  · intro token htoken
    obtain ⟨before, after, htext, hspan⟩ := hsplit token htoken
    obtain ⟨hstart, hstop, -⟩ := middle_slice before token.text after
    rw [htext, hspan]
    exact ⟨hstart, hstop⟩
  · intro token htoken
    obtain ⟨before, after, htext, hspan⟩ := hsplit token htoken
    rw [htext, hspan]
    exact (middle_slice before token.text after).2.2

theorem tokens_tile (text : String) (state : ModeStack) :
    Tiles text (tokenize text state).1 := by
  have hwhole : String.join ((lexemes state .start text.toList).1.map Lexeme.text) = text := by
    apply String.toList_injective
    rw [String.toList_join, List.flatMap_map]
    exact flatMap_lexemes state .start text.toList
  have htiles := tiles_place (lexemes_ne_empty state .start text.toList)
  rw [hwhole] at htiles
  exact htiles

end TomlEditor.Lex
