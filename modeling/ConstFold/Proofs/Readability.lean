import ConstFold.Expr
import ConstFold.Proofs.Interchange

/-!
# Reading expressions from their text

Nothing in the text of an expression tells the kind of an identifier, and everything else in the tree is told: two
expressions whose names are identifiers have one text exactly if they are one tree but for the kinds of identifiers
(`Expr.text_eq_iff_sameTree`).

The text is that of a phrase, a tree of words that knows no kinds (`Expr.chars_text`).  A text that begins with a
phrase tells which one it is and where it ends (`Phrase.append_inj`): a word ends where another character stands, an
opening bracket after a word begins arguments, and one without a word begins an operation, or a choice if the word `if`
comes next, which is no operand.  The words then tell numbers, truth values and identifiers apart
(`FieldExpr.sameTree_of_phrase`).
-/

namespace ConstFold

/-! ## Names -/

/-- Letters, digits and underscores. -/
def isWordChar (c : Char) : Bool := c.isAlphanum || c == '_'

def keywords : List Text := ["true", "false", "if", "then", "else", "fi"]

/-- A letter or an underscore, then letters, digits and underscores; no keyword. -/
def isIdentifier (x : Text) : Bool :=
  match x.chars with
  | [] => false
  | c :: cs => (c.isAlpha || c == '_') && cs.all isWordChar && !keywords.contains x

mutual

/-- The names of variables and functions in an expression, from left to right. -/
def FieldExpr.names : FieldExpr → List Text
  | .number _ => []
  | .ident x => [x]
  | .binary _ a b => a.names ++ b.names
  | .ifElse c a b => c.names ++ (a.names ++ b.names)
  | .call f args => f :: Expr.namesAll args

def BoolExpr.names : BoolExpr → List Text
  | .value _ => []
  | .ident x => [x]
  | .comparison _ a b => a.names ++ b.names

def Expr.names : Expr → List Text
  | .field e => e.names
  | .bool e => e.names

def Expr.namesAll : List Expr → List Text
  | [] => []
  | e :: es => e.names ++ Expr.namesAll es

end

/-! ## Trees without kinds -/

mutual

/-- Two expressions are one tree but for the kinds of identifiers. -/
inductive FieldExpr.SameTree : FieldExpr → FieldExpr → Prop
  | number (v : Scalar) : FieldExpr.SameTree (.number v) (.number v)
  | ident (x : Text) : FieldExpr.SameTree (.ident x) (.ident x)
  | binary (op : ArithOp) {a a' b b' : FieldExpr} : FieldExpr.SameTree a a' → FieldExpr.SameTree b b' →
      FieldExpr.SameTree (.binary op a b) (.binary op a' b')
  | ifElse {c c' : BoolExpr} {a a' b b' : FieldExpr} : BoolExpr.SameTree c c' → FieldExpr.SameTree a a' →
      FieldExpr.SameTree b b' → FieldExpr.SameTree (.ifElse c a b) (.ifElse c' a' b')
  | call (callee : Text) {args args' : List Expr} : Expr.SameTrees args args' →
      FieldExpr.SameTree (.call callee args) (.call callee args')

inductive BoolExpr.SameTree : BoolExpr → BoolExpr → Prop
  | value (b : Bool) : BoolExpr.SameTree (.value b) (.value b)
  | ident (x : Text) : BoolExpr.SameTree (.ident x) (.ident x)
  | comparison (op : CompareOp) {a a' b b' : FieldExpr} : FieldExpr.SameTree a a' → FieldExpr.SameTree b b' →
      BoolExpr.SameTree (.comparison op a b) (.comparison op a' b')

inductive Expr.SameTree : Expr → Expr → Prop
  | field {e e' : FieldExpr} : FieldExpr.SameTree e e' → Expr.SameTree (.field e) (.field e')
  | bool {e e' : BoolExpr} : BoolExpr.SameTree e e' → Expr.SameTree (.bool e) (.bool e')
  | fieldBool (x : Text) : Expr.SameTree (.field (.ident x)) (.bool (.ident x))
  | boolField (x : Text) : Expr.SameTree (.bool (.ident x)) (.field (.ident x))

inductive Expr.SameTrees : List Expr → List Expr → Prop
  | nil : Expr.SameTrees [] []
  | cons {e e' : Expr} {es es' : List Expr} : Expr.SameTree e e' → Expr.SameTrees es es' →
      Expr.SameTrees (e :: es) (e' :: es')

end

/-! ## Phrases -/

/-- What is read from a text: words, and how brackets hold them together. -/
inductive Phrase where
  | word (w : Text)
  | call (callee : Text) (args : List Phrase)
  | operation (symbol : Text) (left right : Phrase)
  | choice (condition consequence alternative : Phrase)

namespace Phrase

mutual

def chars : Phrase → List Char
  | .word w => w.chars
  | .call f args => f.chars ++ '(' :: items args
  | .operation symbol a b => '(' :: (a.chars ++ ' ' :: (symbol.chars ++ ' ' :: (b.chars ++ [')'])))
  | .choice c a b =>
    '(' :: 'i' :: 'f' :: ' ' :: (c.chars ++ ' ' :: 't' :: 'h' :: 'e' :: 'n' :: ' ' ::
      (a.chars ++ ' ' :: 'e' :: 'l' :: 's' :: 'e' :: ' ' :: (b.chars ++ [' ', 'f', 'i', ')'])))

/-- Arguments with commas between them, up to the closing bracket. -/
def items : List Phrase → List Char
  | [] => [')']
  | p :: ps => p.chars ++ moreItems ps

def moreItems : List Phrase → List Char
  | [] => [')']
  | p :: ps => ',' :: ' ' :: (p.chars ++ moreItems ps)

end

def IsWord (w : Text) : Prop := w.chars ≠ [] ∧ ∀ c ∈ w.chars, isWordChar c = true

mutual

/-- Words are words, no operation has a blank in its symbol, and none begins as a choice does. -/
def Proper : Phrase → Prop
  | .word w => IsWord w
  | .call f args => IsWord f ∧ AllProper args
  | .operation symbol a b => (' ' ∉ symbol.chars ∧ a ≠ .word "if") ∧ a.Proper ∧ b.Proper
  | .choice c a b => c.Proper ∧ a.Proper ∧ b.Proper

def AllProper : List Phrase → Prop
  | [] => True
  | p :: ps => p.Proper ∧ AllProper ps

end

/-- What can follow a phrase: nothing, or a character that neither goes on with a word nor begins arguments. -/
def Ends (rest : List Char) : Prop := ∀ c ∈ rest.head?, isWordChar c = false ∧ c ≠ '('

theorem ends_nil : Ends [] := by
  intro c hc
  cases hc

theorem ends_cons {c : Char} (h : isWordChar c = false ∧ c ≠ '(') (rest : List Char) : Ends (c :: rest) := by
  intro x hx
  cases hx
  exact h

theorem ends_blank (rest : List Char) : Ends (' ' :: rest) := ends_cons (by decide) rest

theorem ends_bracket (rest : List Char) : Ends (')' :: rest) := ends_cons (by decide) rest

theorem ends_moreItems (ps : List Phrase) (rest : List Char) : Ends (moreItems ps ++ rest) := by
  cases ps with
  | nil => exact ends_bracket rest
  | cons p ps => exact ends_cons (by decide) _

/-! ## Telling phrases apart -/

/-- What stands before the first character that is not of a sort is told. -/
theorem append_inj_of_stop (sort : Char → Bool) {w w' r s : List Char} (hw : ∀ c ∈ w, sort c = true)
    (hw' : ∀ c ∈ w', sort c = true) (hr : ∀ c ∈ r.head?, sort c = false) (hs : ∀ c ∈ s.head?, sort c = false)
    (h : w ++ r = w' ++ s) : w = w' ∧ r = s := by
  have hstop {u t : List Char} (hu : ∀ c ∈ u, sort c = true) (ht : ∀ c ∈ t.head?, sort c = false) :
      (u ++ t).takeWhile sort = u := by
    rw [List.takeWhile_append_of_pos hu]
    cases t with
    | nil => simp
    | cons c t => simp [ht c rfl]
  have hwords : w = w' := by rw [← hstop hw hr, h, hstop hw' hs]
  subst hwords
  exact ⟨rfl, List.append_cancel_left h⟩

theorem symbol_append_inj {u u' : Text} (hu : ' ' ∉ u.chars) (hu' : ' ' ∉ u'.chars) {r s : List Char}
    (h : u.chars ++ ' ' :: r = u'.chars ++ ' ' :: s) : u = u' ∧ r = s := by
  have hsort {x : Text} (hx : ' ' ∉ x.chars) : ∀ c ∈ x.chars, (c != ' ') = true :=
    fun c hc => bne_iff_ne.2 fun hblank => hx (hblank ▸ hc)
  obtain ⟨hsymbols, hrest⟩ := append_inj_of_stop (· != ' ') (hsort hu) (hsort hu') (by simp) (by simp) h
  exact ⟨Text.chars_inj.1 hsymbols, (List.cons.inj hrest).2⟩

/-- The word that a phrase begins with, if it begins with one. -/
def lead : Phrase → List Char
  | .word w => w.chars
  | .call f _ => f.chars
  | _ => []

/-- What comes after that word. -/
def tail : Phrase → List Char
  | .word _ => []
  | .call _ args => '(' :: items args
  | p => p.chars

theorem chars_eq (p : Phrase) : p.chars = p.lead ++ p.tail := by
  cases p <;> simp [chars, lead, tail]

theorem Proper.lead_isWord {p : Phrase} (hp : p.Proper) : ∀ c ∈ p.lead, isWordChar c = true := by
  cases p with
  | word w => exact hp.2
  | call f args => exact hp.1.2
  | operation symbol a b => simp [lead]
  | choice c a b => simp [lead]

theorem tail_stops (p : Phrase) {rest : List Char} (hrest : Ends rest) :
    ∀ c ∈ (p.tail ++ rest).head?, isWordChar c = false := by
  cases p with
  | word w => exact fun c hc => (hrest c hc).1
  | _ =>
    intro c hc
    cases hc
    decide

/-- Two texts that begin with phrases begin with one word. -/
theorem lead_inj {p q : Phrase} (hp : p.Proper) (hq : q.Proper) {r s : List Char} (hr : Ends r) (hs : Ends s)
    (h : p.chars ++ r = q.chars ++ s) : p.lead = q.lead ∧ p.tail ++ r = q.tail ++ s := by
  rw [chars_eq p, chars_eq q, List.append_assoc, List.append_assoc] at h
  exact append_inj_of_stop isWordChar hp.lead_isWord hq.lead_isWord (p.tail_stops hr) (q.tail_stops hs) h

/-- A phrase that begins as a word does is that word. -/
theorem word_append_inj {w : Text} {q : Phrase} (hw : IsWord w) (hq : q.Proper) {r s : List Char} (hr : Ends r)
    (hs : Ends s) (h : w.chars ++ r = q.chars ++ s) : q = .word w ∧ r = s := by
  have hproper : (Phrase.word w).Proper := hw
  obtain ⟨hlead, htail⟩ := lead_inj hproper hq hr hs h
  cases q with
  | word w' => exact ⟨congrArg word (Text.chars_inj.1 hlead).symm, htail⟩
  | call f args =>
    have hbracket : r = '(' :: (items args ++ s) := htail
    exact absurd rfl (hr '(' (by rw [hbracket]; rfl)).2
  | operation symbol a b => exact absurd hlead hw.1
  | choice c a b => exact absurd hlead hw.1

theorem isWord_of_chars {w : Text} {c : Char} {cs : List Char} (hw : w.chars = c :: cs)
    (h : (c :: cs).all isWordChar = true) : IsWord w := by
  rw [IsWord, hw]
  exact ⟨List.cons_ne_nil c cs, List.all_eq_true.1 h⟩

/-- What begins an operation is no beginning of a choice. -/
theorem operation_ne_choice {a : Phrase} (ha : a.Proper) (hif : a ≠ .word "if") {r s : List Char} (hr : Ends r) :
    a.chars ++ r ≠ 'i' :: 'f' :: ' ' :: s := by
  intro h
  have hchars : ("if" : Text).chars = ['i', 'f'] := rfl
  have hword : IsWord "if" := isWord_of_chars hchars (by decide)
  exact hif (word_append_inj hword ha (ends_blank s) hr h.symm).1

/-- A phrase does not begin with a closing bracket. -/
theorem chars_ne_bracket {p : Phrase} (hp : p.Proper) {r : List Char} (hr : Ends r) (s : List Char) :
    p.chars ++ r ≠ ')' :: s := by
  intro h
  rw [chars_eq, List.append_assoc, ← List.nil_append (')' :: s)] at h
  obtain ⟨hlead, htail⟩ := append_inj_of_stop isWordChar hp.lead_isWord (by simp) (p.tail_stops hr)
    (fun c hc => (ends_bracket s c hc).1) h
  cases p with
  | word w => exact hp.1 hlead
  | call f args => exact hp.1.1 hlead
  | operation symbol a b => cases htail
  | choice c a b => cases htail

mutual

/-- **A text that begins with a phrase begins with no other.** -/
theorem append_inj : ∀ {p q : Phrase}, p.Proper → q.Proper → ∀ {r s : List Char}, Ends r → Ends s →
    p.chars ++ r = q.chars ++ s → p = q ∧ r = s
  -- by induction on the one phrase, with the other one and what follows the two left open
  | .word w, q, hp, hq, r, s, hr, hs, h => by
    obtain ⟨hword, hrest⟩ := word_append_inj hp hq hr hs h
    exact ⟨hword.symm, hrest⟩
  | .call f args, q, hp, hq, r, s, hr, hs, h => by
    obtain ⟨hlead, htail⟩ := lead_inj hp hq hr hs h
    cases q with
    | word w =>
      obtain ⟨hword, -⟩ := word_append_inj hq hp hs hr h.symm
      cases hword
    | call f' args' =>
      obtain ⟨hargs, hrest⟩ := items_inj hp.2 hq.2 (List.cons.inj htail).2
      exact ⟨by rw [Text.chars_inj.1 hlead, hargs], hrest⟩
    | operation symbol a b => exact absurd hlead hp.1.1
    | choice c a b => exact absurd hlead hp.1.1
  | .operation symbol a b, q, hp, hq, r, s, hr, hs, h => by
    obtain ⟨hlead, -⟩ := lead_inj hp hq hr hs h
    cases q with
    | word w => exact absurd hlead.symm hq.1
    | call f args => exact absurd hlead.symm hq.1.1
    | operation symbol' a' b' =>
      obtain ⟨⟨hsymbol, -⟩, ha, hb⟩ := hp
      obtain ⟨⟨hsymbol', -⟩, ha', hb'⟩ := hq
      simp only [chars, List.cons_append, List.append_assoc, List.cons.injEq, true_and, List.nil_append] at h
      obtain ⟨hleft, hrest⟩ := append_inj ha ha' (ends_blank _) (ends_blank _) h
      obtain ⟨hsymbols, hrest⟩ := symbol_append_inj hsymbol hsymbol' (List.cons.inj hrest).2
      obtain ⟨hright, hrest⟩ := append_inj hb hb' (ends_bracket _) (ends_bracket _) hrest
      exact ⟨by rw [hleft, hsymbols, hright], (List.cons.inj hrest).2⟩
    | choice c' a' b' =>
      -- the left operand would have to be the word that a choice begins with
      simp only [chars, List.cons_append, List.append_assoc, List.cons.injEq, true_and] at h
      exact absurd h (operation_ne_choice hp.2.1 hp.1.2 (ends_blank _))
  | .choice c a b, q, hp, hq, r, s, hr, hs, h => by
    obtain ⟨hlead, -⟩ := lead_inj hp hq hr hs h
    cases q with
    | word w => exact absurd hlead.symm hq.1
    | call f args => exact absurd hlead.symm hq.1.1
    | operation symbol' a' b' =>
      simp only [chars, List.cons_append, List.append_assoc, List.cons.injEq, true_and] at h
      exact absurd h.symm (operation_ne_choice hq.2.1 hq.1.2 (ends_blank _))
    | choice c' a' b' =>
      obtain ⟨hc, ha, hb⟩ := hp
      obtain ⟨hc', ha', hb'⟩ := hq
      simp only [chars, List.cons_append, List.append_assoc, List.cons.injEq, true_and, List.nil_append] at h
      obtain ⟨hcondition, hthen⟩ := append_inj hc hc' (ends_blank _) (ends_blank _) h
      simp only [List.cons.injEq, true_and] at hthen
      obtain ⟨hconsequence, helse⟩ := append_inj ha ha' (ends_blank _) (ends_blank _) hthen
      simp only [List.cons.injEq, true_and] at helse
      obtain ⟨halternative, hfi⟩ := append_inj hb hb' (ends_blank _) (ends_blank _) helse
      simp only [List.cons.injEq, true_and] at hfi
      exact ⟨by rw [hcondition, hconsequence, halternative], hfi⟩

theorem items_inj : ∀ {ps qs : List Phrase}, AllProper ps → AllProper qs → ∀ {r s : List Char},
    items ps ++ r = items qs ++ s → ps = qs ∧ r = s
  | [], [], _, _, r, s, h => ⟨rfl, (List.cons.inj h).2⟩
  | [], q :: qs, _, hq, r, s, h => by
    simp only [items, List.append_assoc] at h
    exact absurd h.symm (chars_ne_bracket hq.1 (ends_moreItems qs s) _)
  | p :: ps, [], hp, _, r, s, h => by
    simp only [items, List.append_assoc] at h
    exact absurd h (chars_ne_bracket hp.1 (ends_moreItems ps r) _)
  | p :: ps, q :: qs, hp, hq, r, s, h => by
    simp only [items, List.append_assoc] at h
    obtain ⟨hfirst, hmore⟩ := append_inj hp.1 hq.1 (ends_moreItems ps r) (ends_moreItems qs s) h
    obtain ⟨hothers, hrest⟩ := moreItems_inj hp.2 hq.2 hmore
    exact ⟨by rw [hfirst, hothers], hrest⟩

theorem moreItems_inj : ∀ {ps qs : List Phrase}, AllProper ps → AllProper qs → ∀ {r s : List Char},
    moreItems ps ++ r = moreItems qs ++ s → ps = qs ∧ r = s
  | [], [], _, _, r, s, h => ⟨rfl, (List.cons.inj h).2⟩
  | [], q :: qs, _, _, r, s, h => by cases h
  | p :: ps, [], _, _, r, s, h => by cases h
  | p :: ps, q :: qs, hp, hq, r, s, h => by
    simp only [moreItems, List.cons_append, List.append_assoc, List.cons.injEq, true_and] at h
    obtain ⟨hfirst, hmore⟩ := append_inj hp.1 hq.1 (ends_moreItems ps r) (ends_moreItems qs s) h
    obtain ⟨hothers, hrest⟩ := moreItems_inj hp.2 hq.2 hmore
    exact ⟨by rw [hfirst, hothers], hrest⟩

end

end Phrase

/-! ## Words -/

theorem isIdentifier_iff {x : Text} : isIdentifier x = true ↔
    ∃ c cs, x.chars = c :: cs ∧ (c.isAlpha = true ∨ c = '_') ∧ (∀ d ∈ cs, isWordChar d = true) ∧ x ∉ keywords := by
  unfold isIdentifier
  cases hx : x.chars with
  | nil => simp
  | cons c cs => simp [and_assoc]

example : isIdentifier "_x1" = true ∧ isIdentifier "then_" = true ∧ isIdentifier "then" = false ∧
    isIdentifier "1x" = false ∧ isIdentifier "é" = false ∧ isIdentifier "" = false := by
  decide

theorem Phrase.isWord_of_isIdentifier {x : Text} (h : isIdentifier x = true) : IsWord x := by
  obtain ⟨c, cs, hx, hc, hcs, -⟩ := isIdentifier_iff.1 h
  refine ⟨by simp [hx], fun d hd => ?_⟩
  rw [hx] at hd
  rcases List.mem_cons.1 hd with rfl | hd
  · rcases hc with hc | rfl
    · simp [isWordChar, Char.isAlphanum, hc]
    · decide
  · exact hcs d hd

theorem not_isDigit_of_isAlpha {c : Char} (h : c.isAlpha = true) : c.isDigit = false := by
  have hletter : ('A'.val ≤ c.val ∧ c.val ≤ 'Z'.val) ∨ ('a'.val ≤ c.val ∧ c.val ≤ 'z'.val) := by
    rcases Bool.or_eq_true_iff.1 h with hupper | hlower
    · exact Or.inl (of_decide_eq_true hupper)
    · obtain ⟨hfrom, hto⟩ := Bool.and_eq_true_iff.1 hlower
      exact Or.inr ⟨of_decide_eq_true hfrom, of_decide_eq_true hto⟩
  show (decide ('0'.val ≤ c.val) && decide (c.val ≤ '9'.val)) = false
  simp only [UInt32.le_iff_toNat_le] at hletter
  simp only [Bool.and_eq_false_iff, decide_eq_false_iff_not, UInt32.le_iff_toNat_le]
  have hA : 'A'.val.toNat = 65 := rfl
  have ha : 'a'.val.toNat = 97 := rfl
  have hnine : '9'.val.toNat = 57 := rfl
  omega

theorem Scalar.isDigit_of_mem_text {v : Scalar} {c : Char} (h : c ∈ v.text.chars) : c.isDigit = true := by
  rw [text, Text.chars_toString] at h
  exact Nat.isDigit_of_mem_toDigits (by decide) (by decide) h

theorem Scalar.chars_text_ne_nil (v : Scalar) : v.text.chars ≠ [] := by
  rw [text, Text.chars_toString]
  exact Nat.toDigits_ne_nil

theorem Scalar.isWord_text (v : Scalar) : Phrase.IsWord v.text :=
  ⟨v.chars_text_ne_nil, fun c hc => by simp [isWordChar, Char.isAlphanum, isDigit_of_mem_text hc]⟩

/-- What does not begin with a digit is not the text of a number. -/
theorem Scalar.text_ne {x : Text} {c : Char} {cs : List Char} (hx : x.chars = c :: cs) (hc : c.isDigit = false)
    (v : Scalar) : v.text ≠ x := by
  rintro rfl
  have hdigit : c.isDigit = true := isDigit_of_mem_text (by rw [hx]; exact List.mem_cons_self)
  rw [hc] at hdigit
  cases hdigit

theorem Scalar.text_ne_of_isIdentifier {x : Text} (h : isIdentifier x = true) (v : Scalar) : v.text ≠ x := by
  obtain ⟨c, cs, hx, hc, -⟩ := isIdentifier_iff.1 h
  apply Scalar.text_ne hx
  rcases hc with hc | rfl
  · exact not_isDigit_of_isAlpha hc
  · decide

theorem Scalar.text_injective {v w : Scalar} (h : v.text = w.text) : v = w := by
  have hread := congrArg ofText? h
  simpa using hread

theorem ArithOp.symbol_injective {op op' : ArithOp} (h : op.symbol = op'.symbol) : op = op' := by
  have hread := congrArg ofSymbol? h
  simpa using hread

theorem CompareOp.symbol_injective {op op' : CompareOp} (h : op.symbol = op'.symbol) : op = op' := by
  have hread := congrArg ofSymbol? h
  simpa using hread

theorem ArithOp.symbol_ne (op : ArithOp) (op' : CompareOp) : op.symbol ≠ op'.symbol := by
  cases op <;> cases op' <;> decide

/-! ## Phrases of expressions -/

mutual

def FieldExpr.phrase : FieldExpr → Phrase
  | .number v => .word v.text
  | .ident x => .word x
  | .binary op a b => .operation op.symbol a.phrase b.phrase
  | .ifElse c a b => .choice c.phrase a.phrase b.phrase
  | .call f args => .call f (Expr.phrases args)

def BoolExpr.phrase : BoolExpr → Phrase
  | .value b => .word (if b then "true" else "false")
  | .ident x => .word x
  | .comparison op a b => .operation op.symbol a.phrase b.phrase

def Expr.phrase : Expr → Phrase
  | .field e => e.phrase
  | .bool e => e.phrase

def Expr.phrases : List Expr → List Phrase
  | [] => []
  | e :: es => e.phrase :: Expr.phrases es

end

mutual

theorem FieldExpr.chars_text : ∀ e : FieldExpr, e.text.chars = e.phrase.chars
  | .number _ => rfl
  | .ident _ => rfl
  | .binary op a b => by
    simp only [FieldExpr.text, FieldExpr.phrase, Phrase.chars, Text.chars_append, List.append_assoc, a.chars_text,
      b.chars_text]
    rfl
  | .ifElse c a b => by
    simp only [FieldExpr.text, FieldExpr.phrase, Phrase.chars, Text.chars_append, List.append_assoc, a.chars_text,
      b.chars_text, c.chars_text]
    rfl
  | .call f args => by
    rw [FieldExpr.phrase, Phrase.chars, ← Expr.chars_commaList args]
    simp only [FieldExpr.text, Text.chars_append, List.append_assoc]
    rfl

theorem BoolExpr.chars_text : ∀ e : BoolExpr, e.text.chars = e.phrase.chars
  | .value _ => rfl
  | .ident _ => rfl
  | .comparison op a b => by
    simp only [BoolExpr.text, BoolExpr.phrase, Phrase.chars, Text.chars_append, List.append_assoc, a.chars_text,
      b.chars_text]
    rfl

theorem Expr.chars_text : ∀ e : Expr, e.text.chars = e.phrase.chars
  | .field e => e.chars_text
  | .bool e => e.chars_text

theorem Expr.chars_commaList : ∀ es : List Expr,
    (commaList (Expr.texts es)).chars ++ [')'] = Phrase.items (Expr.phrases es)
  | [] => rfl
  | [e] => by
    simp [commaList, Expr.texts, Expr.phrases, Phrase.items, Phrase.moreItems, e.chars_text]
  | e :: e' :: es => by
    have hmore := Expr.chars_commaList (e' :: es)
    rw [Expr.phrases, Phrase.items, Expr.phrases, Phrase.moreItems, ← e.chars_text]
    rw [Expr.phrases, Phrase.items] at hmore
    rw [← hmore, commaList, Expr.texts, Expr.texts, Text.intercalate_cons_cons, ← Expr.texts, ← commaList]
    simp only [Text.chars_append, List.append_assoc]
    rfl

end

/-! ## Properness -/

def AllIdentifiers (names : List Text) : Prop := ∀ x ∈ names, isIdentifier x = true

theorem FieldExpr.phrase_ne_if {e : FieldExpr} (h : AllIdentifiers e.names) : e.phrase ≠ .word "if" := by
  intro hif
  cases e with
  | number v =>
    have hchars : ("if" : Text).chars = ['i', 'f'] := rfl
    exact v.text_ne hchars rfl (Phrase.word.inj hif)
  | ident x =>
    obtain ⟨-, -, -, -, -, hkeyword⟩ := isIdentifier_iff.1 (h x List.mem_cons_self)
    have hx : x = "if" := Phrase.word.inj hif
    exact hkeyword (by simp [hx, keywords])
  | binary op a b => cases hif
  | ifElse c a b => cases hif
  | call f args => cases hif

theorem BoolExpr.chars_valueText (b : Bool) : (if b then ("true" : Text) else "false").chars =
    (if b then 't' else 'f') :: (if b then ['r', 'u', 'e'] else ['a', 'l', 's', 'e']) := by
  cases b <;> rfl

theorem ArithOp.blank_notMem_symbol (op : ArithOp) : ' ' ∉ op.symbol.chars := by
  cases op <;> decide

theorem CompareOp.blank_notMem_symbol (op : CompareOp) : ' ' ∉ op.symbol.chars := by
  cases op <;> decide

mutual

theorem FieldExpr.proper_phrase : ∀ {e : FieldExpr}, AllIdentifiers e.names → e.phrase.Proper
  | .number v, _ => v.isWord_text
  | .ident x, h => Phrase.isWord_of_isIdentifier (h x List.mem_cons_self)
  | .binary op a b, h => by
    obtain ⟨ha, hb⟩ := List.forall_mem_append.1 h
    exact ⟨⟨op.blank_notMem_symbol, FieldExpr.phrase_ne_if ha⟩, FieldExpr.proper_phrase ha, FieldExpr.proper_phrase hb⟩
  | .ifElse c a b, h => by
    obtain ⟨hc, hbranches⟩ := List.forall_mem_append.1 h
    obtain ⟨ha, hb⟩ := List.forall_mem_append.1 hbranches
    exact ⟨BoolExpr.proper_phrase hc, FieldExpr.proper_phrase ha, FieldExpr.proper_phrase hb⟩
  | .call f args, h => by
    obtain ⟨hf, hargs⟩ := List.forall_mem_cons.1 h
    exact ⟨Phrase.isWord_of_isIdentifier hf, Expr.allProper_phrases hargs⟩

theorem BoolExpr.proper_phrase : ∀ {e : BoolExpr}, AllIdentifiers e.names → e.phrase.Proper
  | .value true, _ => Phrase.isWord_of_chars (BoolExpr.chars_valueText true) (by decide)
  | .value false, _ => Phrase.isWord_of_chars (BoolExpr.chars_valueText false) (by decide)
  | .ident x, h => Phrase.isWord_of_isIdentifier (h x List.mem_cons_self)
  | .comparison op a b, h => by
    obtain ⟨ha, hb⟩ := List.forall_mem_append.1 h
    exact ⟨⟨op.blank_notMem_symbol, FieldExpr.phrase_ne_if ha⟩, FieldExpr.proper_phrase ha, FieldExpr.proper_phrase hb⟩

theorem Expr.proper_phrase : ∀ {e : Expr}, AllIdentifiers e.names → e.phrase.Proper
  | .field _, h => FieldExpr.proper_phrase h
  | .bool _, h => BoolExpr.proper_phrase h

theorem Expr.allProper_phrases : ∀ {es : List Expr}, AllIdentifiers (Expr.namesAll es) →
    Phrase.AllProper (Expr.phrases es)
  | [], _ => trivial
  | e :: es, h => by
    obtain ⟨he, hes⟩ := List.forall_mem_append.1 h
    exact ⟨Expr.proper_phrase he, Expr.allProper_phrases hes⟩

end

/-! ## From phrases to trees -/

theorem BoolExpr.valueText_ne {x : Text} (h : isIdentifier x = true) (b : Bool) :
    (if b then ("true" : Text) else "false") ≠ x := by
  rintro rfl
  cases b <;> cases h

/-- Only identifiers are written alike in the two kinds. -/
theorem FieldExpr.ident_of_phrase {e : FieldExpr} {e' : BoolExpr} (h : AllIdentifiers e.names)
    (h' : AllIdentifiers e'.names) (hphrase : e.phrase = e'.phrase) : ∃ x, e = .ident x ∧ e' = .ident x := by
  cases e' with
  | value b =>
    cases e with
    | number v =>
      refine absurd (Phrase.word.inj hphrase) (Scalar.text_ne (BoolExpr.chars_valueText b) ?_ v)
      cases b <;> decide
    | ident x => exact absurd (Phrase.word.inj hphrase).symm (BoolExpr.valueText_ne (h x List.mem_cons_self) b)
    | _ => cases hphrase
  | ident x =>
    cases e with
    | number v => exact absurd (Phrase.word.inj hphrase) (v.text_ne_of_isIdentifier (h' x List.mem_cons_self))
    | ident y => exact ⟨y, rfl, congrArg BoolExpr.ident (Phrase.word.inj hphrase).symm⟩
    | _ => cases hphrase
  | comparison op a b =>
    cases e with
    | binary op' a' b' => exact absurd (Phrase.operation.inj hphrase).1 (op'.symbol_ne op)
    | _ => cases hphrase

mutual

/-- Expressions of one phrase are one tree but for the kinds of identifiers. -/
theorem FieldExpr.sameTree_of_phrase : ∀ {e e' : FieldExpr}, AllIdentifiers e.names → AllIdentifiers e'.names →
    e.phrase = e'.phrase → FieldExpr.SameTree e e'
  | .number v, e', _, h', hphrase => by
    cases e' with
    | number w =>
      obtain rfl := Scalar.text_injective (Phrase.word.inj hphrase)
      exact .number v
    | ident x => exact absurd (Phrase.word.inj hphrase) (v.text_ne_of_isIdentifier (h' x List.mem_cons_self))
    | _ => cases hphrase
  | .ident x, e', h, _, hphrase => by
    cases e' with
    | number w => exact absurd (Phrase.word.inj hphrase).symm (w.text_ne_of_isIdentifier (h x List.mem_cons_self))
    | ident y =>
      obtain rfl := Phrase.word.inj hphrase
      exact .ident x
    | _ => cases hphrase
  | .binary op a b, e', h, h', hphrase => by
    cases e' with
    | binary op' a' b' =>
      obtain ⟨ha, hb⟩ := List.forall_mem_append.1 h
      obtain ⟨ha', hb'⟩ := List.forall_mem_append.1 h'
      obtain ⟨hop, hleft, hright⟩ := Phrase.operation.inj hphrase
      obtain rfl := ArithOp.symbol_injective hop
      exact .binary op (FieldExpr.sameTree_of_phrase ha ha' hleft) (FieldExpr.sameTree_of_phrase hb hb' hright)
    | _ => cases hphrase
  | .ifElse c a b, e', h, h', hphrase => by
    cases e' with
    | ifElse c' a' b' =>
      obtain ⟨hc, hbranches⟩ := List.forall_mem_append.1 h
      obtain ⟨ha, hb⟩ := List.forall_mem_append.1 hbranches
      obtain ⟨hc', hbranches'⟩ := List.forall_mem_append.1 h'
      obtain ⟨ha', hb'⟩ := List.forall_mem_append.1 hbranches'
      obtain ⟨hcondition, hconsequence, halternative⟩ := Phrase.choice.inj hphrase
      exact .ifElse (BoolExpr.sameTree_of_phrase hc hc' hcondition)
        (FieldExpr.sameTree_of_phrase ha ha' hconsequence) (FieldExpr.sameTree_of_phrase hb hb' halternative)
    | _ => cases hphrase
  | .call f args, e', h, h', hphrase => by
    cases e' with
    | call f' args' =>
      obtain ⟨hf, hargs⟩ := Phrase.call.inj hphrase
      subst hf
      exact .call f (Expr.sameTrees_of_phrases (List.forall_mem_cons.1 h).2 (List.forall_mem_cons.1 h').2 hargs)
    | _ => cases hphrase

theorem BoolExpr.sameTree_of_phrase : ∀ {e e' : BoolExpr}, AllIdentifiers e.names → AllIdentifiers e'.names →
    e.phrase = e'.phrase → BoolExpr.SameTree e e'
  | .value b, e', _, h', hphrase => by
    cases e' with
    | value b' =>
      have hb : b = b' := by
        have hword := Phrase.word.inj hphrase
        cases b <;> cases b' <;> simp at hword <;> rfl
      exact hb ▸ .value b
    | ident x => exact absurd (Phrase.word.inj hphrase) (BoolExpr.valueText_ne (h' x List.mem_cons_self) b)
    | comparison op a b => cases hphrase
  | .ident x, e', h, _, hphrase => by
    cases e' with
    | value b => exact absurd (Phrase.word.inj hphrase).symm (BoolExpr.valueText_ne (h x List.mem_cons_self) b)
    | ident y =>
      obtain rfl := Phrase.word.inj hphrase
      exact .ident x
    | comparison op a b => cases hphrase
  | .comparison op a b, e', h, h', hphrase => by
    cases e' with
    | comparison op' a' b' =>
      obtain ⟨ha, hb⟩ := List.forall_mem_append.1 h
      obtain ⟨ha', hb'⟩ := List.forall_mem_append.1 h'
      obtain ⟨hop, hleft, hright⟩ := Phrase.operation.inj hphrase
      obtain rfl := CompareOp.symbol_injective hop
      exact .comparison op (FieldExpr.sameTree_of_phrase ha ha' hleft) (FieldExpr.sameTree_of_phrase hb hb' hright)
    | _ => cases hphrase

theorem Expr.sameTree_of_phrase : ∀ {e e' : Expr}, AllIdentifiers e.names → AllIdentifiers e'.names →
    e.phrase = e'.phrase → Expr.SameTree e e'
  | .field e, .field e', h, h', hphrase => .field (FieldExpr.sameTree_of_phrase h h' hphrase)
  | .bool e, .bool e', h, h', hphrase => .bool (BoolExpr.sameTree_of_phrase h h' hphrase)
  | .field e, .bool e', h, h', hphrase => by
    obtain ⟨x, rfl, rfl⟩ := FieldExpr.ident_of_phrase h h' hphrase
    exact .fieldBool x
  | .bool e, .field e', h, h', hphrase => by
    obtain ⟨x, rfl, rfl⟩ := FieldExpr.ident_of_phrase h' h hphrase.symm
    exact .boolField x

theorem Expr.sameTrees_of_phrases : ∀ {es es' : List Expr}, AllIdentifiers (Expr.namesAll es) →
    AllIdentifiers (Expr.namesAll es') → Expr.phrases es = Expr.phrases es' → Expr.SameTrees es es'
  | [], [], _, _, _ => .nil
  | [], _ :: _, _, _, hphrases => by cases hphrases
  | _ :: _, [], _, _, hphrases => by cases hphrases
  | e :: es, e' :: es', h, h', hphrases => by
    obtain ⟨he, hes⟩ := List.forall_mem_append.1 h
    obtain ⟨he', hes'⟩ := List.forall_mem_append.1 h'
    obtain ⟨hfirst, hothers⟩ := List.cons.inj hphrases
    exact .cons (Expr.sameTree_of_phrase he he' hfirst) (Expr.sameTrees_of_phrases hes hes' hothers)

end

mutual

theorem FieldExpr.SameTree.phrase_eq {e e' : FieldExpr} : FieldExpr.SameTree e e' → e.phrase = e'.phrase
  | .number _ => rfl
  | .ident _ => rfl
  | .binary _ ha hb => by simp only [FieldExpr.phrase, ha.phrase_eq, hb.phrase_eq]
  | .ifElse hc ha hb => by simp only [FieldExpr.phrase, hc.phrase_eq, ha.phrase_eq, hb.phrase_eq]
  | .call _ hargs => by simp only [FieldExpr.phrase, hargs.phrases_eq]

theorem BoolExpr.SameTree.phrase_eq {e e' : BoolExpr} : BoolExpr.SameTree e e' → e.phrase = e'.phrase
  | .value _ => rfl
  | .ident _ => rfl
  | .comparison _ ha hb => by simp only [BoolExpr.phrase, ha.phrase_eq, hb.phrase_eq]

theorem Expr.SameTree.phrase_eq {e e' : Expr} : Expr.SameTree e e' → e.phrase = e'.phrase
  | .field h => h.phrase_eq
  | .bool h => h.phrase_eq
  | .fieldBool _ => rfl
  | .boolField _ => rfl

theorem Expr.SameTrees.phrases_eq {es es' : List Expr} : Expr.SameTrees es es' → Expr.phrases es = Expr.phrases es'
  | .nil => rfl
  | .cons h hs => by simp only [Expr.phrases, h.phrase_eq, hs.phrases_eq]

end

/-! ## Top theorem -/

/-- **The text of an expression is unambiguous.**  Two expressions whose variables and functions have identifiers for
names are written alike exactly if they are one tree but for the kinds of identifiers. -/
theorem Expr.text_eq_iff_sameTree {e e' : Expr} (h : ∀ x ∈ e.names, isIdentifier x = true)
    (h' : ∀ x ∈ e'.names, isIdentifier x = true) : e.text = e'.text ↔ e.SameTree e' := by
  rw [← Text.chars_inj, e.chars_text, e'.chars_text]
  constructor
  · intro hchars
    have hphrase := (Phrase.append_inj (Expr.proper_phrase h) (Expr.proper_phrase h') Phrase.ends_nil
      Phrase.ends_nil (congrArg (· ++ []) hchars)).1
    exact Expr.sameTree_of_phrase h h' hphrase
  · intro hsame
    rw [hsame.phrase_eq]

/-- `(if (x <= 3) then f(y, b) else (x ** 2) fi)`, with arguments of the kinds given. -/
def guarded (y b : Expr) : Expr :=
  .field (.ifElse (.comparison .le (.ident "x") (.number (.ofNat 3))) (.call "f" [y, b])
    (.binary .pow (.ident "x") (.number (.ofNat 2))))

theorem guarded_sameTree :
    (∀ x ∈ (guarded (.field (.ident "y")) (.bool (.ident "b"))).names, isIdentifier x = true) ∧
    (∀ x ∈ (guarded (.bool (.ident "y")) (.field (.ident "b"))).names, isIdentifier x = true) ∧
    (guarded (.field (.ident "y")) (.bool (.ident "b"))).text = "(if (x <= 3) then f(y, b) else (x ** 2) fi)" ∧
    (guarded (.field (.ident "y")) (.bool (.ident "b"))).SameTree
      (guarded (.bool (.ident "y")) (.field (.ident "b"))) :=
  ⟨by decide, by decide, by decide, (Expr.text_eq_iff_sameTree (by decide) (by decide)).1 (by decide)⟩

end ConstFold
