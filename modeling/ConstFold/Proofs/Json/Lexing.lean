import ConstFold.Json.Lexer
import ConstFold.Proofs.Json.Numerals
import ConstFold.Proofs.Json.Strings

/-!
# Texts and their tokens

`Token.Lexes s tokens` says that a text is a row of tokens with blanks between them, without a bound on their
number.  Each token takes up a character (`length_of_first?`), so the bound of `Token.ofText?` is never
met and the row is what it gives (`Lexes.ofText?_eq`), and it gives nothing else (`lexes_of_ofText?`).
-/

namespace ConstFold.Json.Token

/-- A text with the tokens that stand in it. -/
inductive Lexes : List Char → List Token → Prop
  | done : Lexes [] []
  | blank {c : Char} {s : List Char} {tokens : List Token} :
      isBlank c = true → Lexes s tokens → Lexes (c :: s) tokens
  | token {s rest : List Char} {t : Token} {tokens : List Token} :
      first? s = some (t, rest) → Lexes rest tokens → Lexes s (t :: tokens)

/-- The token of a number as it is written, which is `null` for one that is not finite. -/
def ofNumber (x : Float) : Token :=
  match Numeral.read? (numberText x).chars with
  | some (numeral, _) => .number numeral.value
  | none => .null

/-! ## One token -/

/-- Signs and digits start numerals and nothing else. -/
theorem first?_numeral {c : Char} (h : c = '-' ∨ c.isDigit = true) (s : List Char) :
    first? (c :: s) = (Numeral.read? (c :: s)).map fun (numeral, rest) => (.number numeral.value, rest) := by
  unfold first?
  split
  case h_11 => rfl
  all_goals
    rename_i heq
    cases heq
    exact absurd h (by decide)

theorem first?_blank {c : Char} (h : isBlank c = true) (s : List Char) : first? (c :: s) = none := by
  simp only [isBlank, Bool.or_eq_true, beq_iff_eq] at h
  rcases h with ((rfl | rfl) | rfl) | rfl <;> rfl

/-- A token takes up at least a character. -/
theorem length_of_first? {s rest : List Char} {t : Token} (h : first? s = some (t, rest)) :
    rest.length < s.length := by
  unfold first? at h
  split at h
  case h_10 s =>
    obtain ⟨⟨text, r⟩, hread, hr⟩ := Option.map_eq_some_iff.1 h
    cases hr
    exact Nat.lt_succ_of_lt (Quoted.length_of_read? hread)
  case h_11 =>
    obtain ⟨⟨numeral, r⟩, hread, hr⟩ := Option.map_eq_some_iff.1 h
    cases hr
    exact Numeral.length_of_read? hread
  all_goals
    cases h
    simp only [List.length_cons]
    omega

theorem first?_write (s : Text) (rest : List Char) :
    first? ((Quoted.write s).chars ++ rest) = some (.string s, rest) := by
  rw [Quoted.write, Text.chars_append, Text.chars_append, List.append_assoc, List.append_assoc]
  show (Quoted.read? ((Quoted.spell s.units).chars ++ '"' :: rest)).map _ = _
  rw [Quoted.read?_spell, Option.map_some]

theorem first?_written {s rest : List Char} {n : Numeral} (h : Numeral.Written s n) (hrest : Numeral.Stops rest) :
    first? (s ++ rest) = some (.number n.value, rest) := by
  have hread := h.read?_eq hrest
  obtain ⟨c, cs, rfl, hc⟩ := h.head
  rw [List.cons_append] at hread ⊢
  rw [first?_numeral hc, hread]
  rfl

theorem first?_numberText (x : Float) {rest : List Char} (h : Numeral.Stops rest) :
    first? ((numberText x).chars ++ rest) = some (ofNumber x, rest) := by
  rw [ofNumber]
  unfold numberText
  split
  · rename_i negative m q _
    obtain ⟨n, hn⟩ := (Decimal.spelled_text negative m q).exists_written
    have hread := hn.read?_eq Numeral.stops_nil
    rw [List.append_nil] at hread
    simp only [hread]
    exact first?_written hn h
  · rfl

/-! ## Rows of tokens -/

theorem Lexes.length_le {s : List Char} {tokens : List Token} (h : Lexes s tokens) :
    tokens.length ≤ s.length := by
  induction h with
  | done => exact Nat.le_refl _
  | blank _ _ ih => exact Nat.le_succ_of_le ih
  | token hfirst _ ih => exact Nat.lt_of_le_of_lt ih (length_of_first? hfirst)

theorem upTo_blank {c : Char} (h : isBlank c = true) (limit : Nat) (s : List Char) :
    upTo limit (c :: s) = upTo limit s := by
  rw [upTo.eq_def, upTo.eq_def limit s]
  simp only [List.dropWhile_cons_of_pos h]

theorem upTo_of_first? {s rest : List Char} {t : Token} (h : first? s = some (t, rest)) (limit : Nat) :
    upTo (limit + 1) s = (upTo limit rest).map (t :: ·) := by
  cases s with
  | nil => cases h
  | cons c s =>
    have hc : isBlank c ≠ true := by
      intro hc
      rw [first?_blank hc] at h
      cases h
    rw [upTo.eq_def]
    simp only [List.dropWhile_cons_of_neg hc, h, Option.bind_eq_bind, Option.bind_some]
    cases upTo limit rest <;> rfl

theorem Lexes.upTo_eq {s : List Char} {tokens : List Token} (h : Lexes s tokens) {limit : Nat}
    (hle : tokens.length ≤ limit) : upTo limit s = some tokens := by
  induction h generalizing limit with
  | done => cases limit <;> rfl
  | blank hc _ ih =>
    rw [upTo_blank hc]
    exact ih hle
  | token hfirst _ ih =>
    cases limit with
    | zero => cases hle
    | succ limit =>
      rw [upTo_of_first? hfirst, ih (Nat.le_of_succ_le_succ hle)]
      rfl

theorem Lexes.ofText?_eq {s : List Char} {tokens : List Token} (h : Lexes s tokens) :
    ofText? s = some tokens :=
  h.upTo_eq h.length_le

theorem Lexes.blanks {s : List Char} {tokens : List Token} (h : Lexes s tokens) {blanks : List Char}
    (hblanks : ∀ c ∈ blanks, isBlank c = true) : Lexes (blanks ++ s) tokens := by
  induction blanks with
  | nil => exact h
  | cons c cs ih =>
    exact .blank (hblanks c List.mem_cons_self) (ih fun x hx => hblanks x (List.mem_cons_of_mem c hx))

theorem Lexes.of_dropWhile {s : List Char} {tokens : List Token} (h : Lexes (s.dropWhile isBlank) tokens) :
    Lexes s tokens := by
  rw [← List.takeWhile_append_dropWhile (p := isBlank) (l := s)]
  exact h.blanks (List.all_eq_true.1 List.all_takeWhile)

theorem lexes_of_upTo {limit : Nat} {s : List Char} {tokens : List Token} (h : upTo limit s = some tokens) :
    Lexes s tokens := by
  induction limit generalizing s tokens with
  | zero =>
    apply Lexes.of_dropWhile
    rw [upTo.eq_def] at h
    dsimp only at h
    split at h
    · rename_i hnil
      cases h
      exact hnil ▸ .done
    · cases h
  | succ limit ih =>
    apply Lexes.of_dropWhile
    rw [upTo.eq_def] at h
    dsimp only at h
    split at h
    · rename_i hnil
      cases h
      exact hnil ▸ .done
    · rename_i c rest hcons
      obtain ⟨⟨t, rest'⟩, hfirst, h⟩ := Option.bind_eq_some_iff.1 h
      obtain ⟨tokens', htokens, h⟩ := Option.bind_eq_some_iff.1 h
      cases h
      exact hcons ▸ .token hfirst (ih htokens)

theorem lexes_of_ofText? {s : List Char} {tokens : List Token} (h : ofText? s = some tokens) : Lexes s tokens :=
  lexes_of_upTo h

end ConstFold.Json.Token
