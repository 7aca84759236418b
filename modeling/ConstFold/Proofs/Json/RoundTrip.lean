import ConstFold.Json.Basic
import ConstFold.Proofs.Json.Lexing

/-!
# Values survive writing and reading

A value is written as a row of tokens (`Json.tokens`) with blanks between them, and the row is read back as the
value (`Json.reads_tokens`), up to two things that a text cannot keep: a number comes back as the one that its
numeral denotes, and of two members with one key the later one counts.  `Json.reread` is the value that comes
back, `Json.parse?_text` the round trip.  What is written is a row of characters, whatever texts are in the value
(`Json.isUnicode_textAt`).
-/

namespace ConstFold.Json

open Token

mutual

/-- The tokens that a value is written with. -/
def tokens : Json → List Token
  | .null => [.null]
  | .bool b => [.bool b]
  | .number x => [.ofNumber x]
  | .string s => [.string s]
  | .array items => .openBracket :: ([Token.comma].intercalate (itemTokens items) ++ [.closeBracket])
  | .object members => .openBrace :: ([Token.comma].intercalate (memberTokens members) ++ [.closeBrace])

def itemTokens : List Json → List (List Token)
  | [] => []
  | item :: items => item.tokens :: itemTokens items

def memberTokens : List (Text × Json) → List (List Token)
  | [] => []
  | (key, value) :: members => (.string key :: .colon :: value.tokens) :: memberTokens members

end

mutual

/-- The value that comes back when a value is written and read. -/
def reread : Json → Json
  | .number x =>
    match Numeral.read? (numberText x).chars with
    | some (numeral, _) => .number numeral.value
    | none => .null
  | .array items => .array (rereadItems items)
  | .object members => .object (Keyed.ofPairs (rereadMembers members))
  | j => j

def rereadItems : List Json → List Json
  | [] => []
  | item :: items => item.reread :: rereadItems items

def rereadMembers : List (Text × Json) → List (Text × Json)
  | [] => []
  | (key, value) :: members => (key, value.reread) :: rereadMembers members

end

/-! ## Writing -/

/-- A text is written with the given tokens, whatever may follow it. -/
def Spells (text : Text) (row : List Token) : Prop :=
  ∀ rest tokens, Numeral.Stops rest → Lexes rest tokens → Lexes (text.chars ++ rest) (row ++ tokens)

theorem spells_of_first? {text : Text} {t : Token}
    (h : ∀ rest, Numeral.Stops rest → first? (text.chars ++ rest) = some (t, rest)) : Spells text [t] :=
  fun rest _ hrest hlexes => .token (h rest hrest) hlexes

theorem isBlank_indentation (level : Nat) : ∀ c ∈ (indentation level).chars, isBlank c = true := by
  intro c hc
  rw [indentation, Text.chars, List.map_replicate] at hc
  rw [List.eq_of_mem_replicate hc]
  rfl

theorem Spells.indent {text : Text} {row : List Token} (h : Spells text row) (level : Nat) :
    Spells (indentation level ++ text) row := by
  intro rest tokens hrest hlexes
  rw [Text.chars_append, List.append_assoc]
  exact (h rest tokens hrest hlexes).blanks (isBlank_indentation level)

/-- A line in front of others. -/
theorem Spells.cons {line : Text} {lines : List Text} {row : List Token} {rows : List (List Token)}
    (hline : Spells line row) (hlines : Spells (Text.intercalate ",\n" lines) ([Token.comma].intercalate rows))
    (hne : lines ≠ []) (hne' : rows ≠ []) :
    Spells (Text.intercalate ",\n" (line :: lines)) ([Token.comma].intercalate (row :: rows)) := by
  intro rest tokens hrest hlexes
  have htail := hlines rest tokens hrest hlexes
  rw [Text.chars_intercalate] at htail ⊢
  rw [List.map_cons, List.intercalate_cons_of_ne_nil (by simpa using hne),
    List.intercalate_cons_of_ne_nil hne']
  have hbreak := Lexes.blank (c := '\n') rfl htail
  have hcomma := @Lexes.token (',' :: _) _ .comma _ rfl hbreak
  simpa [Text.chars_ofString] using hline _ _ (Numeral.stops_cons (by decide) _) hcomma

theorem Spells.block {lines : List Text} {row : List Token} (h : Spells (Text.intercalate ",\n" lines) row)
    (level : Nat) {opening closing : Text} {o c : Token}
    (ho : ∀ s, first? (opening.chars ++ s) = some (o, s))
    (hc : ∀ s, first? (closing.chars ++ s) = some (c, s)) :
    Spells (block level opening closing lines) (o :: (row ++ [c])) := by
  intro rest tokens _ hlexes
  have hclose := (Lexes.token (hc rest) hlexes).blanks (isBlank_indentation level)
  have hlines := h _ _ (Numeral.stops_cons (by decide) _) (Lexes.blank (c := '\n') rfl hclose)
  have hopen := Lexes.token (ho _) (Lexes.blank (c := '\n') rfl hlines)
  simpa [Json.block, Text.chars_ofString] using hopen

theorem spells_member (level : Nat) (key : Text) {text : Text} {row : List Token} (h : Spells text row) :
    Spells (indentation level ++ Quoted.write key ++ ": " ++ text) (.string key :: .colon :: row) := by
  intro rest tokens hrest hlexes
  have hspace := Lexes.blank (c := ' ') rfl (h rest tokens hrest hlexes)
  have hcolon := @Lexes.token (':' :: _) _ .colon _ rfl hspace
  have hkey := Lexes.token (first?_write key _) hcolon
  simpa [Text.chars_ofString] using hkey.blanks (isBlank_indentation level)

mutual

theorem spells_textAt (level : Nat) : ∀ j : Json, Spells (j.textAt level) j.tokens
  | .null => by
    rw [textAt, tokens]
    exact spells_of_first? fun _ _ => rfl
  | .bool b => by
    rw [textAt, tokens]
    exact spells_of_first? fun _ _ => by cases b <;> rfl
  | .number x => spells_of_first? fun _ hrest => first?_numberText x hrest
  | .string s => spells_of_first? fun rest _ => first?_write s rest
  | .array [] => by
    rw [textAt, tokens]
    intro rest tokens _ hlexes
    have hclose : Lexes (']' :: rest) (.closeBracket :: tokens) := .token rfl hlexes
    exact .token rfl hclose
  | .array (item :: items) => by
    rw [textAt, tokens]
    have hlines := spells_itemLines (level + 1) (item :: items) (List.cons_ne_nil _ _)
    exact hlines.block level (fun _ => rfl) (fun _ => rfl)
  | .object [] => by
    rw [textAt, tokens]
    intro rest tokens _ hlexes
    have hclose : Lexes ('\x7d' :: rest) (.closeBrace :: tokens) := .token rfl hlexes
    exact .token rfl hclose
  | .object (member :: members) => by
    rw [textAt, tokens]
    have hlines := spells_memberLines (level + 1) (member :: members) (List.cons_ne_nil _ _)
    exact hlines.block level (fun _ => rfl) (fun _ => rfl)

theorem spells_itemLines (level : Nat) : ∀ items : List Json, items ≠ [] →
    Spells (Text.intercalate ",\n" (itemLines level items)) ([Token.comma].intercalate (itemTokens items))
  | [], hne => absurd rfl hne
  | [item], _ => by
    simpa [itemLines, itemTokens] using (spells_textAt level item).indent level
  | item :: next :: items, _ => by
    have hitems := spells_itemLines level (next :: items) (List.cons_ne_nil _ _)
    rw [itemLines, itemTokens]
    exact ((spells_textAt level item).indent level).cons hitems (by simp [itemLines]) (by simp [itemTokens])

theorem spells_memberLines (level : Nat) : ∀ members : List (Text × Json), members ≠ [] →
    Spells (Text.intercalate ",\n" (memberLines level members)) ([Token.comma].intercalate (memberTokens members))
  | [], hne => absurd rfl hne
  | [(key, value)], _ => by
    simpa [memberLines, memberTokens] using spells_member level key (spells_textAt level value)
  | (key, value) :: next :: members, _ => by
    have hmembers := spells_memberLines level (next :: members) (List.cons_ne_nil _ _)
    rw [memberLines, memberTokens]
    exact (spells_member level key (spells_textAt level value)).cons hmembers (by simp [memberLines])
      (by simp [memberTokens])

end

/-! ## Rows of characters -/

theorem isUnicode_numberText (x : Float) : (numberText x).IsUnicode := by
  unfold numberText
  split <;> exact .ofString _

theorem isUnicode_block (level : Nat) {opening closing : Text} (ho : opening.IsUnicode) (hc : closing.IsUnicode)
    {lines : List Text} (h : ∀ line ∈ lines, line.IsUnicode) : (block level opening closing lines).IsUnicode :=
  ((((ho.append (.ofString _)).append (.intercalate (.ofString _) h)).append (.ofString _)).append
    (isUnicode_indentation level)).append hc

mutual

/-- The text of a value is a row of characters, whatever texts are in it. -/
theorem isUnicode_textAt (level : Nat) : ∀ j : Json, (j.textAt level).IsUnicode
  | .null => .ofString _
  | .bool true => .ofString _
  | .bool false => .ofString _
  | .number x => isUnicode_numberText x
  | .string s => Quoted.isUnicode_write s
  | .array [] => .ofString _
  | .array (item :: items) =>
    isUnicode_block level (.ofString _) (.ofString _) (isUnicode_itemLines (level + 1) (item :: items))
  | .object [] => .ofString _
  | .object (member :: members) =>
    isUnicode_block level (.ofString _) (.ofString _) (isUnicode_memberLines (level + 1) (member :: members))

theorem isUnicode_itemLines (level : Nat) : ∀ items : List Json, ∀ line ∈ itemLines level items, line.IsUnicode
  | [] => List.forall_mem_nil _
  | item :: items => List.forall_mem_cons.2
    ⟨(isUnicode_indentation level).append (isUnicode_textAt level item), isUnicode_itemLines level items⟩

theorem isUnicode_memberLines (level : Nat) : ∀ members : List (Text × Json),
    ∀ line ∈ memberLines level members, line.IsUnicode
  | [] => List.forall_mem_nil _
  | (key, value) :: members => List.forall_mem_cons.2
    ⟨(((isUnicode_indentation level).append (Quoted.isUnicode_write key)).append (.ofString _)).append
      (isUnicode_textAt level value), isUnicode_memberLines level members⟩

end

/-! ## Reading -/

theorem readValue?_array {t : Token} (ht : t ≠ .closeBracket) (depth : Nat) (ts : List Token) :
    readValue? (depth + 1) (.openBracket :: t :: ts) =
      (readItems? depth (t :: ts)).map fun (items, rest) => (.array items, rest) := by
  rw [readValue?]
  · cases readItems? depth (t :: ts) <;> rfl
  · intro rest h
    exact ht (List.cons.inj h).1

theorem readValue?_object {t : Token} (ht : t ≠ .closeBrace) (depth : Nat) (ts : List Token) :
    readValue? (depth + 1) (.openBrace :: t :: ts) =
      (readMembers? depth (t :: ts)).map fun (members, rest) => (.object (Keyed.ofPairs members), rest) := by
  rw [readValue?]
  · cases readMembers? depth (t :: ts) <;> rfl
  · intro rest h
    exact ht (List.cons.inj h).1

/-- A reader takes a row of tokens for a result, whatever follows, given twice as many calls as tokens. -/
def Reads {α : Type} (read? : Nat → List Token → Option (α × List Token)) (row : List Token) (a : α) : Prop :=
  ∀ depth tokens, 2 * row.length ≤ depth → read? depth (row ++ tokens) = some (a, tokens)

/-- A row of tokens that starts with none that closes. -/
def Opening (row : List Token) : Prop := ∃ t ts, row = t :: ts ∧ t ≠ .closeBracket ∧ t ≠ .closeBrace

theorem opening_cons {t : Token} (h : t ≠ .closeBracket ∧ t ≠ .closeBrace) (row : List Token) :
    Opening (t :: row) :=
  ⟨t, row, rfl, h⟩

theorem Opening.append {row : List Token} (h : Opening row) (row' : List Token) : Opening (row ++ row') := by
  obtain ⟨t, ts, rfl, ht⟩ := h
  exact opening_cons ht (ts ++ row')

theorem reads_of_succ {row : List Token} {j : Json} (hne : row ≠ [])
    (h : ∀ depth tokens, readValue? (depth + 1) (row ++ tokens) = some (j, tokens)) : Reads readValue? row j
  | 0, _, hdepth => absurd (List.length_eq_zero_iff.1 (by omega)) hne
  | depth + 1, tokens, _ => h depth tokens

theorem Reads.array {row : List Token} {items : List Json} (hrow : Opening row) (h : Reads readItems? row items) :
    Reads readValue? (.openBracket :: row) (.array items)
  | 0, _, hdepth => by cases hdepth
  | depth + 1, tokens, hdepth => by
    obtain ⟨t, ts, rfl, hclose, -⟩ := hrow
    have hread := h depth tokens (by
      rw [List.length_cons] at hdepth
      omega)
    rw [List.cons_append] at hread
    rw [List.cons_append, List.cons_append, readValue?_array hclose, hread]
    rfl

theorem Reads.object {row : List Token} {pairs : List (Text × Json)} (hrow : Opening row)
    (h : Reads readMembers? row pairs) : Reads readValue? (.openBrace :: row) (.object (Keyed.ofPairs pairs))
  | 0, _, hdepth => by cases hdepth
  | depth + 1, tokens, hdepth => by
    obtain ⟨t, ts, rfl, -, hclose⟩ := hrow
    have hread := h depth tokens (by
      rw [List.length_cons] at hdepth
      omega)
    rw [List.cons_append] at hread
    rw [List.cons_append, List.cons_append, readValue?_object hclose, hread]
    rfl

theorem Reads.lastItem {row : List Token} {item : Json} (h : Reads readValue? row item) :
    Reads readItems? (row ++ [.closeBracket]) [item]
  | 0, _, hdepth => by simp at hdepth
  | depth + 1, tokens, hdepth => by
    simp only [List.length_append, List.length_singleton] at hdepth
    have hitem := h depth (.closeBracket :: tokens) (by omega)
    simp [readItems?, hitem]

theorem Reads.moreItems {row row' : List Token} {item : Json} {items : List Json} (h : Reads readValue? row item)
    (h' : Reads readItems? row' items) : Reads readItems? (row ++ .comma :: row') (item :: items)
  | 0, _, hdepth => by simp at hdepth
  | depth + 1, tokens, hdepth => by
    simp only [List.length_append, List.length_cons] at hdepth
    -- the comma takes up a token of its own, so one call less is enough for each side
    have hitem := h depth (.comma :: (row' ++ tokens)) (by omega)
    have hitems := h' depth tokens (by omega)
    simp [readItems?, hitem, hitems]

theorem Reads.lastMember {row : List Token} {key : Text} {value : Json} (h : Reads readValue? row value) :
    Reads readMembers? ([.string key] ++ .colon :: (row ++ [.closeBrace])) [(key, value)]
  | 0, _, hdepth => by cases hdepth
  | depth + 1, tokens, hdepth => by
    simp only [List.length_append, List.length_cons, List.length_nil] at hdepth
    have hvalue := h depth (.closeBrace :: tokens) (by omega)
    simp [readMembers?, hvalue]

theorem Reads.moreMembers {row row' : List Token} {key : Text} {value : Json} {pairs : List (Text × Json)}
    (h : Reads readValue? row value) (h' : Reads readMembers? row' pairs) :
    Reads readMembers? ([.string key] ++ .colon :: (row ++ .comma :: row')) ((key, value) :: pairs)
  | 0, _, hdepth => by cases hdepth
  | depth + 1, tokens, hdepth => by
    simp only [List.length_append, List.length_cons, List.length_nil] at hdepth
    have hvalue := h depth (.comma :: (row' ++ tokens)) (by omega)
    have hmembers := h' depth tokens (by omega)
    simp [readMembers?, hvalue, hmembers]

theorem opening_tokens (j : Json) : Opening j.tokens := by
  cases j with
  | number x =>
    refine ⟨ofNumber x, [], rfl, ?_⟩
    rw [ofNumber]
    split <;> simp
  | _ => simp [Opening, tokens]

/-- What stands first among several opens all of them. -/
theorem Opening.intercalate {row : List Token} (h : Opening row) (rows : List (List Token)) :
    Opening ([Token.comma].intercalate (row :: rows)) := by
  cases rows with
  | nil => rwa [List.intercalate_singleton]
  | cons row' rows =>
    rw [List.intercalate_cons_cons, List.append_assoc]
    exact h.append _

mutual

theorem reads_tokens : ∀ j : Json, Reads readValue? j.tokens j.reread
  | .null => reads_of_succ (List.cons_ne_nil _ _) fun _ _ => rfl
  | .bool b => reads_of_succ (List.cons_ne_nil _ _) fun _ _ => rfl
  | .number x => by
    rw [tokens, reread, ofNumber]
    refine reads_of_succ (List.cons_ne_nil _ _) fun _ _ => ?_
    cases Numeral.read? (numberText x).chars <;> rfl
  | .string s => reads_of_succ (List.cons_ne_nil _ _) fun _ _ => rfl
  | .array [] => reads_of_succ (List.cons_ne_nil _ _) fun _ _ => rfl
  | .array (item :: items) => by
    rw [tokens, reread]
    have hitems := reads_itemTokens (item :: items) (List.cons_ne_nil _ _)
    exact hitems.array ((item.opening_tokens.intercalate (itemTokens items)).append _)
  | .object [] => reads_of_succ (List.cons_ne_nil _ _) fun _ _ => rfl
  | .object ((key, value) :: members) => by
    rw [tokens, reread]
    have hmembers := reads_memberTokens ((key, value) :: members) (List.cons_ne_nil _ _)
    have hkey : Opening (.string key :: .colon :: value.tokens) := opening_cons (by simp) _
    exact hmembers.object ((hkey.intercalate (memberTokens members)).append _)

theorem reads_itemTokens : ∀ items : List Json, items ≠ [] →
    Reads readItems? ([Token.comma].intercalate (itemTokens items) ++ [.closeBracket]) (rereadItems items)
  | [], hne => absurd rfl hne
  | [item], _ => by
    rw [itemTokens, itemTokens, List.intercalate_singleton, rereadItems, rereadItems]
    exact (reads_tokens item).lastItem
  | item :: next :: items, _ => by
    have hitems := reads_itemTokens (next :: items) (List.cons_ne_nil _ _)
    rw [itemTokens, List.intercalate_cons_of_ne_nil (by simp [itemTokens]), rereadItems, List.append_assoc,
      List.append_assoc]
    exact (reads_tokens item).moreItems hitems

theorem reads_memberTokens : ∀ members : List (Text × Json), members ≠ [] →
    Reads readMembers? ([Token.comma].intercalate (memberTokens members) ++ [.closeBrace]) (rereadMembers members)
  | [], hne => absurd rfl hne
  | [(key, value)], _ => by
    rw [memberTokens, memberTokens, List.intercalate_singleton, rereadMembers, rereadMembers]
    exact (reads_tokens value).lastMember
  | (key, value) :: next :: members, _ => by
    have hmembers := reads_memberTokens (next :: members) (List.cons_ne_nil _ _)
    rw [memberTokens, List.intercalate_cons_of_ne_nil (by simp [memberTokens]), rereadMembers, List.append_assoc,
      List.append_assoc]
    exact (reads_tokens value).moreMembers hmembers

end

/-- A value that is written is read back. -/
theorem parse?_text (j : Json) : parse? (j.text ++ "\n") = some j.reread := by
  have hlexes : Lexes (j.text ++ "\n").chars j.tokens := by
    have h := spells_textAt 0 j ['\n'] [] (Numeral.stops_cons (by decide) []) (.blank rfl .done)
    simpa [text, Text.chars_ofString] using h
  have hread := j.reads_tokens (2 * j.tokens.length) [] (Nat.le_refl _)
  rw [List.append_nil] at hread
  rw [parse?, hlexes.ofText?_eq, Option.bind_some, ofTokens?, hread]

end ConstFold.Json
