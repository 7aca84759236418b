import ConstFold.Proofs.Json.Stable
import Mathlib.Data.List.Induction

/-!
# The grammar of JSON

A document is a value with blanks around it (`Json.DocumentOf`).  The grammar derives texts together with their
values and knows of no tokens: each rule says which characters stand where.

A text that it derives covers a row of tokens, whatever follows it (`Token.Covers`), and the row is read as the
value (`Json.Reads`).  Conversely a row that the reader takes covers a text that the grammar derives.  So
the documents are exactly what is read (`Json.parse?_eq_some_iff`).
-/

namespace ConstFold

/-! ## Repeated keys -/

namespace Keyed

variable {κ α : Type} [DecidableEq κ]

/-- Pairs as an object keeps them: each key where it stands first, with the value that it has last. -/
structure LastWins (pairs kept : List (κ × α)) : Prop where
  keys : kept.map Prod.fst = (pairs.map Prod.fst).eraseDups
  values : ∀ key, kept.lookup key = pairs.reverse.lookup key

theorem keys_put (key : κ) (value : α) (list : List (κ × α)) : (put key value list).map Prod.fst =
    if key ∈ list.map Prod.fst then list.map Prod.fst else list.map Prod.fst ++ [key] := by
  induction list with
  | nil => rfl
  | cons pair rest ih =>
    obtain ⟨k, v⟩ := pair
    by_cases hk : key = k
    · simp [put, hk]
    · rw [put, if_neg hk, List.map_cons, ih]
      simp only [List.map_cons, List.mem_cons, hk, false_or]
      split <;> rfl

theorem ofPairs_concat (pairs : List (κ × α)) (pair : κ × α) :
    ofPairs (pairs ++ [pair]) = put pair.1 pair.2 (ofPairs pairs) := by
  rw [ofPairs, List.foldl_append]
  rfl

theorem lastWins_ofPairs (pairs : List (κ × α)) : LastWins pairs (ofPairs pairs) := by
  induction pairs using List.reverseRecOn with
  | nil => exact ⟨rfl, fun _ => rfl⟩
  | append_singleton pairs pair ih =>
    obtain ⟨key, value⟩ := pair
    constructor
    · rw [ofPairs_concat, keys_put, ih.keys, List.map_append, List.eraseDups_append]
      by_cases hkey : key ∈ pairs.map Prod.fst
      · simp [hkey, List.removeAll]
      · simp [hkey, List.removeAll, List.eraseDups_cons]
    · intro other
      rw [ofPairs_concat, lookup_put, ih.values, List.reverse_append, List.reverse_singleton,
        List.singleton_append, lookup_cons_eq_ite]

theorem nodup_keys_ofPairs (pairs : List (κ × α)) : ((ofPairs pairs).map Prod.fst).Nodup := by
  induction pairs using List.reverseRecOn with
  | nil => exact List.nodup_nil
  | append_singleton pairs pair ih =>
    rw [ofPairs_concat, keys_put]
    split
    · exact ih
    · rename_i hkey
      refine List.nodup_append.2 ⟨ih, by simp, ?_⟩
      rintro k hk _ hmem rfl
      exact hkey (List.mem_singleton.1 hmem ▸ hk)

theorem lookup_of_notMem {key : κ} {list : List (κ × α)} (h : key ∉ list.map Prod.fst) : list.lookup key = none := by
  rw [List.lookup_eq_none_iff]
  intro pair hpair
  simpa using fun hkey : key = pair.1 => h (hkey ▸ List.mem_map_of_mem hpair)

/-- A list without repeated keys is told by its keys and what is found under them. -/
theorem eq_of_lookup {list list' : List (κ × α)} (hnodup : (list.map Prod.fst).Nodup)
    (hkeys : list'.map Prod.fst = list.map Prod.fst) (hvalues : ∀ key, list'.lookup key = list.lookup key) :
    list' = list := by
  induction list generalizing list' with
  | nil => exact List.map_eq_nil_iff.1 hkeys
  | cons pair rest ih =>
    obtain ⟨k, v⟩ := pair
    cases list' with
    | nil => cases hkeys
    | cons pair' rest' =>
      obtain ⟨k', v'⟩ := pair'
      obtain ⟨rfl, hrest⟩ : k' = k ∧ rest'.map Prod.fst = rest.map Prod.fst := by simpa using hkeys
      obtain ⟨hk, hrestNodup⟩ : k' ∉ rest.map Prod.fst ∧ (rest.map Prod.fst).Nodup := List.nodup_cons.1 hnodup
      obtain rfl : v' = v := by simpa using hvalues k'
      congr 1
      refine ih hrestNodup hrest fun key => ?_
      by_cases hkey : key = k'
      · rw [hkey, lookup_of_notMem hk, lookup_of_notMem (hrest ▸ hk)]
      · simpa [lookup_cons_eq_ite, hkey] using hvalues key

theorem lastWins_iff (pairs kept : List (κ × α)) : LastWins pairs kept ↔ kept = ofPairs pairs := by
  constructor
  · intro h
    have hpairs := lastWins_ofPairs pairs
    exact eq_of_lookup (nodup_keys_ofPairs pairs) (h.keys.trans hpairs.keys.symm) fun key =>
      (h.values key).trans (hpairs.values key).symm
  · rintro rfl
    exact lastWins_ofPairs pairs

end Keyed

namespace Json

open Token

/-! ## Grammar -/

def Blanks (s : List Char) : Prop := ∀ c ∈ s, c = ' ' ∨ c = '\t' ∨ c = '\n' ∨ c = '\r'

/-- A key of an object, with blanks around it. -/
inductive Name : List Char → Text → Prop
  | mk {b s b' : List Char} {us : List CodeUnit} : Blanks b → Quoted.Written s us → Blanks b' →
      Name (b ++ '"' :: (s ++ b')) ⟨us⟩

mutual

inductive Value : List Char → Json → Prop
  | null : Value ['n', 'u', 'l', 'l'] .null
  | true : Value ['t', 'r', 'u', 'e'] (.bool true)
  | false : Value ['f', 'a', 'l', 's', 'e'] (.bool false)
  | number {s : List Char} {n : Numeral} : Numeral.Written s n → Value s (.number n.value)
  | string {s : List Char} {us : List CodeUnit} : Quoted.Written s us → Value ('"' :: s) (.string ⟨us⟩)
  | noItems {b : List Char} : Blanks b → Value ('[' :: (b ++ [']'])) (.array [])
  | array {s : List Char} {items : List Json} : Items s items → Value ('[' :: s) (.array items)
  | noMembers {b : List Char} : Blanks b → Value ('\x7b' :: (b ++ ['\x7d'])) (.object [])
  | object {s : List Char} {pairs members : List (Text × Json)} : Members s pairs →
      Keyed.LastWins pairs members → Value ('\x7b' :: s) (.object members)

/-- A value with blanks around it. -/
inductive Element : List Char → Json → Prop
  | mk {b s b' : List Char} {j : Json} : Blanks b → Value s j → Blanks b' → Element (b ++ (s ++ b')) j

/-- One or more values with commas between them, up to the closing bracket. -/
inductive Items : List Char → List Json → Prop
  | last {s : List Char} {item : Json} : Element s item → Items (s ++ [']']) [item]
  | more {s t : List Char} {item : Json} {items : List Json} : Element s item → Items t items →
      Items (s ++ ',' :: t) (item :: items)

/-- One or more members with commas between them, up to the closing brace. -/
inductive Members : List Char → List (Text × Json) → Prop
  | last {k s : List Char} {key : Text} {value : Json} : Name k key → Element s value →
      Members (k ++ ':' :: (s ++ ['\x7d'])) [(key, value)]
  | more {k s t : List Char} {key : Text} {value : Json} {pairs : List (Text × Json)} : Name k key →
      Element s value → Members t pairs → Members (k ++ ':' :: (s ++ ',' :: t)) ((key, value) :: pairs)

end

/-- A text that is a document with the given value. -/
def DocumentOf (source : Text) (j : Json) : Prop := Element source.chars j

/-! ## Tokens -/

namespace Token

/-- The characters that a token takes up. -/
inductive Spelling : List Char → Token → Prop
  | null : Spelling ['n', 'u', 'l', 'l'] .null
  | true : Spelling ['t', 'r', 'u', 'e'] (.bool true)
  | false : Spelling ['f', 'a', 'l', 's', 'e'] (.bool false)
  | number {s : List Char} {n : Numeral} : Numeral.Written s n → Spelling s (.number n.value)
  | string {s : List Char} {us : List CodeUnit} : Quoted.Written s us → Spelling ('"' :: s) (.string ⟨us⟩)
  | openBracket : Spelling ['['] .openBracket
  | closeBracket : Spelling [']'] .closeBracket
  | openBrace : Spelling ['\x7b'] .openBrace
  | closeBrace : Spelling ['\x7d'] .closeBrace
  | comma : Spelling [','] .comma
  | colon : Spelling [':'] .colon

theorem Spelling.first?_eq {s rest : List Char} {t : Token} (h : Spelling s t) (hrest : Numeral.Stops rest) :
    first? (s ++ rest) = some (t, rest) := by
  cases h with
  | number h => exact first?_written h hrest
  | string h =>
    rw [List.cons_append, first?, h.read?_eq]
    rfl
  | _ => rfl

theorem spelling_of_first? {s rest : List Char} {t : Token} (h : first? s = some (t, rest)) :
    ∃ u, s = u ++ rest ∧ Spelling u t := by
  unfold first? at h
  split at h
  case h_10 =>
    obtain ⟨⟨text, r⟩, hread, hr⟩ := Option.map_eq_some_iff.1 h
    cases hr
    obtain ⟨u, us, rfl, hu, rfl⟩ := Quoted.written_of_read? hread
    exact ⟨_, rfl, .string hu⟩
  case h_11 =>
    obtain ⟨⟨n, r⟩, hread, hr⟩ := Option.map_eq_some_iff.1 h
    cases hr
    obtain ⟨u, rfl, hu⟩ := Numeral.written_of_read? hread
    exact ⟨u, rfl, .number hu⟩
  all_goals
    cases h
    exact ⟨_, rfl, by constructor⟩

theorem isBlank_iff (c : Char) : isBlank c = true ↔ c = ' ' ∨ c = '\t' ∨ c = '\n' ∨ c = '\r' := by
  simp [isBlank, or_assoc]

theorem Lexes.blanks_of_nil {s : List Char} (h : Lexes s []) : Blanks s := by
  generalize htokens : [] = tokens at h
  induction h with
  | done => simp [Blanks]
  | blank hc _ ih => exact List.forall_mem_cons.2 ⟨(isBlank_iff _).1 hc, ih htokens⟩
  | token => cases htokens

/-- In front of a token stand blanks. -/
theorem Lexes.of_cons {s : List Char} {t : Token} {tokens : List Token} (h : Lexes s (t :: tokens)) :
    ∃ b u s', s = b ++ (u ++ s') ∧ Blanks b ∧ Spelling u t ∧ Lexes s' tokens := by
  generalize htokens : t :: tokens = row at h
  induction h with
  | done => cases htokens
  | blank hc _ ih =>
    obtain ⟨b, u, s', rfl, hb, hu, hs'⟩ := ih htokens
    exact ⟨_ :: b, u, s', rfl, List.forall_mem_cons.2 ⟨(isBlank_iff _).1 hc, hb⟩, hu, hs'⟩
  | token hfirst hrest =>
    cases htokens
    obtain ⟨u, rfl, hu⟩ := spelling_of_first? hfirst
    exact ⟨[], u, _, rfl, by simp [Blanks], hu, hrest⟩

/-- A text is made of the given tokens, whatever may follow it. -/
def Covers (s : List Char) (row : List Token) : Prop :=
  ∀ rest tokens, Numeral.Stops rest → Lexes rest tokens → Lexes (s ++ rest) (row ++ tokens)

theorem covers_nil : Covers [] [] := fun _ _ _ h => h

theorem Spelling.covers {s : List Char} {t : Token} (h : Spelling s t) : Covers s [t] :=
  fun _ _ hrest hlexes => .token (h.first?_eq hrest) hlexes

/-- A numeral does not run on into blanks. -/
theorem stops_blanks {b rest : List Char} (hb : Blanks b) (hrest : Numeral.Stops rest) :
    Numeral.Stops (b ++ rest) := by
  cases b with
  | nil => exact hrest
  | cons c b =>
    refine Numeral.stops_cons ?_ _
    rcases hb c List.mem_cons_self with rfl | rfl | rfl | rfl <;> decide

theorem lexes_blanks {b rest : List Char} {tokens : List Token} (hb : Blanks b) (h : Lexes rest tokens) :
    Lexes (b ++ rest) tokens :=
  h.blanks fun c hc => (isBlank_iff c).2 (hb c hc)

theorem covers_blanks {b : List Char} (hb : Blanks b) : Covers b [] := fun _ _ _ h => lexes_blanks hb h

theorem Covers.pad {b s b' : List Char} {row : List Token} (hs : Covers s row) (hb : Blanks b) (hb' : Blanks b') :
    Covers (b ++ (s ++ b')) row := by
  intro rest tokens hrest hlexes
  have h := hs _ _ (stops_blanks hb' hrest) (lexes_blanks hb' hlexes)
  simpa using lexes_blanks hb h

/-- A character between two texts that is a token by itself. -/
theorem Covers.mark {s t : List Char} {row row' : List Token} {c : Char} {p : Token} (hs : Covers s row)
    (hc : ∀ s, first? (c :: s) = some (p, s)) (hstop : c.isDigit = false ∧ c ≠ '.' ∧ c ≠ 'e' ∧ c ≠ 'E')
    (ht : Covers t row') : Covers (s ++ c :: t) (row ++ p :: row') := by
  intro rest tokens hrest hlexes
  have hmark := Lexes.token (hc (t ++ rest)) (ht rest tokens hrest hlexes)
  simpa using hs _ _ (Numeral.stops_cons hstop _) hmark

end Token

/-! ## What is derived is read -/

/-- A text covers tokens that a reader takes for a result. -/
def Taken {α : Type} (read? : Nat → List Token → Option (α × List Token)) (s : List Char) (a : α) : Prop :=
  ∃ row, Opening row ∧ Covers s row ∧ Reads read? row a

theorem taken_token {s : List Char} {t : Token} {j : Json} (hs : Spelling s t)
    (ht : t ≠ .closeBracket ∧ t ≠ .closeBrace)
    (h : ∀ depth tokens, readValue? (depth + 1) (t :: tokens) = some (j, tokens)) : Taken readValue? s j :=
  ⟨[t], opening_cons ht [], hs.covers, reads_of_succ (List.cons_ne_nil _ _) h⟩

theorem Name.covers {s : List Char} {key : Text} (h : Name s key) : Covers s [.string key] := by
  obtain ⟨hb, hs, hb'⟩ := h
  exact (Spelling.string hs).covers.pad hb hb'

mutual

theorem Value.taken {s : List Char} {j : Json} : Value s j → Taken readValue? s j
  | .null => taken_token .null (by simp) fun _ _ => rfl
  | .true => taken_token .true (by simp) fun _ _ => rfl
  | .false => taken_token .false (by simp) fun _ _ => rfl
  | .number h => taken_token (.number h) (by simp) fun _ _ => rfl
  | .string h => taken_token (.string h) (by simp) fun _ _ => rfl
  | .noItems hb => by
    have hclose := (covers_blanks hb).mark (c := ']') (p := .closeBracket) (fun _ => rfl) (by decide) covers_nil
    exact ⟨[.openBracket, .closeBracket], opening_cons (by simp) _,
      covers_nil.mark (fun _ => rfl) (by decide) hclose, reads_of_succ (by simp) fun _ _ => rfl⟩
  | .array h => by
    obtain ⟨row, hrow, hcovers, hreads⟩ := h.taken
    refine ⟨_, opening_cons (by simp) row, ?_, hreads.array hrow⟩
    exact covers_nil.mark (fun _ => rfl) (by decide) hcovers
  | .noMembers hb => by
    have hclose := (covers_blanks hb).mark (c := '\x7d') (p := .closeBrace) (fun _ => rfl) (by decide) covers_nil
    exact ⟨[.openBrace, .closeBrace], opening_cons (by simp) _,
      covers_nil.mark (fun _ => rfl) (by decide) hclose, reads_of_succ (by simp) fun _ _ => rfl⟩
  | .object h hlast => by
    obtain ⟨row, hrow, hcovers, hreads⟩ := h.taken
    rw [(Keyed.lastWins_iff _ _).1 hlast]
    refine ⟨_, opening_cons (by simp) row, ?_, hreads.object hrow⟩
    exact covers_nil.mark (fun _ => rfl) (by decide) hcovers

theorem Element.taken {s : List Char} {j : Json} : Element s j → Taken readValue? s j
  | .mk hb h hb' => by
    obtain ⟨row, hrow, hcovers, hreads⟩ := h.taken
    exact ⟨row, hrow, hcovers.pad hb hb', hreads⟩

theorem Items.taken {s : List Char} {items : List Json} : Items s items → Taken readItems? s items
  | .last h => by
    obtain ⟨row, hrow, hcovers, hreads⟩ := h.taken
    exact ⟨_, hrow.append _, hcovers.mark (fun _ => rfl) (by decide) covers_nil, hreads.lastItem⟩
  | .more h h' => by
    obtain ⟨row, hrow, hcovers, hreads⟩ := h.taken
    obtain ⟨row', -, hcovers', hreads'⟩ := h'.taken
    exact ⟨_, hrow.append _, hcovers.mark (fun _ => rfl) (by decide) hcovers', hreads.moreItems hreads'⟩

theorem Members.taken {s : List Char} {pairs : List (Text × Json)} : Members s pairs → Taken readMembers? s pairs
  | .last hkey h => by
    obtain ⟨row, -, hcovers, hreads⟩ := h.taken
    have hvalue := hcovers.mark (c := '\x7d') (p := .closeBrace) (fun _ => rfl) (by decide) covers_nil
    exact ⟨_, opening_cons (by simp) _, hkey.covers.mark (fun _ => rfl) (by decide) hvalue, hreads.lastMember⟩
  | .more hkey h h' => by
    obtain ⟨row, -, hcovers, hreads⟩ := h.taken
    obtain ⟨row', -, hcovers', hreads'⟩ := h'.taken
    have hvalue := hcovers.mark (c := ',') (p := .comma) (fun _ => rfl) (by decide) hcovers'
    exact ⟨_, opening_cons (by simp) _, hkey.covers.mark (fun _ => rfl) (by decide) hvalue,
      hreads.moreMembers hreads'⟩

end

/-! ## What is read is derived -/

/-- A value that has been read, and a mark after it. -/
theorem element_of_lexes {b u s : List Char} {j : Json} {t : Token} {tokens : List Token} (hb : Blanks b)
    (hu : Value u j) (hs : Lexes s (t :: tokens)) :
    ∃ e m s', b ++ (u ++ s) = e ++ (m ++ s') ∧ Element e j ∧ Spelling m t ∧ Lexes s' tokens := by
  obtain ⟨b', m, s', rfl, hb', hm, hs'⟩ := hs.of_cons
  exact ⟨_, m, s', by simp, .mk hb hu hb', hm, hs'⟩

/-- A key, and the colon after it. -/
theorem name_of_lexes {s : List Char} {key : Text} {tokens : List Token}
    (h : Lexes s (.string key :: .colon :: tokens)) : ∃ k s', s = k ++ ':' :: s' ∧ Name k key ∧ Lexes s' tokens := by
  obtain ⟨b, _, s', rfl, hb, hspelling, hs'⟩ := h.of_cons
  cases hspelling with
  | string hk =>
    obtain ⟨b', _, s'', rfl, hb', ⟨⟩, hs''⟩ := hs'.of_cons
    exact ⟨_, s'', by simp, .mk hb hk hb', hs''⟩

mutual

theorem value_of_readValue? : ∀ (depth : Nat) {tokens rest : List Token} {j : Json} {s : List Char},
    readValue? depth tokens = some (j, rest) → Lexes s tokens →
      ∃ b u s', s = b ++ (u ++ s') ∧ Blanks b ∧ Value u j ∧ Lexes s' rest
  | 0, _, _, _, _, h, _ => by cases h
  | depth + 1, tokens, rest, j, s, h, hlexes => by
    unfold readValue? at h
    split at h
    · cases h
      obtain ⟨b, _, s', rfl, hb, ⟨⟩, hs'⟩ := hlexes.of_cons
      exact ⟨b, _, s', rfl, hb, .null, hs'⟩
    · cases h
      obtain ⟨b, _, s', rfl, hb, ⟨⟩ | ⟨⟩, hs'⟩ := hlexes.of_cons
      · exact ⟨b, _, s', rfl, hb, .true, hs'⟩
      · exact ⟨b, _, s', rfl, hb, .false, hs'⟩
    · cases h
      obtain ⟨b, _, s', rfl, hb, hspelling, hs'⟩ := hlexes.of_cons
      cases hspelling with
      | number hn => exact ⟨b, _, s', rfl, hb, .number hn, hs'⟩
    · cases h
      obtain ⟨b, _, s', rfl, hb, hspelling, hs'⟩ := hlexes.of_cons
      cases hspelling with
      | string hu => exact ⟨b, _, s', rfl, hb, .string hu, hs'⟩
    · cases h
      obtain ⟨b, _, s', rfl, hb, ⟨⟩, hs'⟩ := hlexes.of_cons
      obtain ⟨b', _, s'', rfl, hb', ⟨⟩, hs''⟩ := hs'.of_cons
      exact ⟨b, '[' :: (b' ++ [']']), s'', by simp, hb, .noItems hb', hs''⟩
    · obtain ⟨⟨items, rest'⟩, hitems, h⟩ := Option.bind_eq_some_iff.1 h
      cases h
      obtain ⟨b, _, s', rfl, hb, ⟨⟩, hs'⟩ := hlexes.of_cons
      obtain ⟨u, s'', rfl, hu, hs''⟩ := items_of_readItems? depth hitems hs'
      exact ⟨b, '[' :: u, s'', rfl, hb, .array hu, hs''⟩
    · cases h
      obtain ⟨b, _, s', rfl, hb, ⟨⟩, hs'⟩ := hlexes.of_cons
      obtain ⟨b', _, s'', rfl, hb', ⟨⟩, hs''⟩ := hs'.of_cons
      exact ⟨b, '\x7b' :: (b' ++ ['\x7d']), s'', by simp, hb, .noMembers hb', hs''⟩
    · obtain ⟨⟨pairs, rest'⟩, hpairs, h⟩ := Option.bind_eq_some_iff.1 h
      cases h
      obtain ⟨b, _, s', rfl, hb, ⟨⟩, hs'⟩ := hlexes.of_cons
      obtain ⟨u, s'', rfl, hu, hs''⟩ := members_of_readMembers? depth hpairs hs'
      exact ⟨b, '\x7b' :: u, s'', rfl, hb, .object hu (Keyed.lastWins_ofPairs pairs), hs''⟩
    · cases h

theorem items_of_readItems? : ∀ (depth : Nat) {tokens rest : List Token} {items : List Json} {s : List Char},
    readItems? depth tokens = some (items, rest) → Lexes s tokens →
      ∃ u s', s = u ++ s' ∧ Items u items ∧ Lexes s' rest
  | 0, _, _, _, _, h, _ => by cases h
  | depth + 1, tokens, rest, items, s, h, hlexes => by
    unfold readItems? at h
    obtain ⟨⟨item, rest'⟩, hitem, h⟩ := Option.bind_eq_some_iff.1 h
    obtain ⟨b, u, s', rfl, hb, hu, hs'⟩ := value_of_readValue? depth hitem hlexes
    dsimp only at h
    split at h
    · obtain ⟨⟨items', rest''⟩, hitems, h⟩ := Option.bind_eq_some_iff.1 h
      cases h
      obtain ⟨e, _, s'', heq, he, ⟨⟩, hs''⟩ := element_of_lexes hb hu hs'
      obtain ⟨u', s₃, rfl, hu', hs₃⟩ := items_of_readItems? depth hitems hs''
      exact ⟨_, s₃, by simp [heq], .more he hu', hs₃⟩
    · cases h
      obtain ⟨e, _, s'', heq, he, ⟨⟩, hs''⟩ := element_of_lexes hb hu hs'
      exact ⟨_, s'', by simp [heq], .last he, hs''⟩
    · cases h

theorem members_of_readMembers? : ∀ (depth : Nat) {tokens rest : List Token} {pairs : List (Text × Json)}
    {s : List Char}, readMembers? depth tokens = some (pairs, rest) → Lexes s tokens →
      ∃ u s', s = u ++ s' ∧ Members u pairs ∧ Lexes s' rest
  | 0, _, _, _, _, h, _ => by cases h
  | depth + 1, tokens, rest, pairs, s, h, hlexes => by
    unfold readMembers? at h
    split at h
    · rename_i key tokens
      obtain ⟨⟨value, rest'⟩, hvalue, h⟩ := Option.bind_eq_some_iff.1 h
      obtain ⟨k, s', rfl, hk, hs'⟩ := name_of_lexes hlexes
      obtain ⟨b, u, s'', rfl, hb, hu, hs''⟩ := value_of_readValue? depth hvalue hs'
      dsimp only at h
      split at h
      · obtain ⟨⟨pairs', rest''⟩, hpairs, h⟩ := Option.bind_eq_some_iff.1 h
        cases h
        obtain ⟨e, _, s₃, heq, he, ⟨⟩, hs₃⟩ := element_of_lexes hb hu hs''
        obtain ⟨u', s₄, rfl, hu', hs₄⟩ := members_of_readMembers? depth hpairs hs₃
        exact ⟨_, s₄, by simp [heq], .more hk he hu', hs₄⟩
      · cases h
        obtain ⟨e, _, s₃, heq, he, ⟨⟩, hs₃⟩ := element_of_lexes hb hu hs''
        exact ⟨_, s₃, by simp [heq], .last hk he, hs₃⟩
      · cases h
    · cases h

end

/-! ## Top theorem -/

theorem DocumentOf.parse?_eq {source : Text} {j : Json} (h : DocumentOf source j) : parse? source = some j := by
  obtain ⟨row, -, hcovers, hreads⟩ := Element.taken h
  have hlexes := hcovers [] [] Numeral.stops_nil .done
  have hread := hreads (2 * row.length) [] (Nat.le_refl _)
  rw [List.append_nil, List.append_nil] at hlexes
  rw [List.append_nil] at hread
  rw [parse?, hlexes.ofText?_eq, Option.bind_some, ofTokens?, hread]

theorem documentOf_of_parse? {source : Text} {j : Json} (h : parse? source = some j) : DocumentOf source j := by
  obtain ⟨row, hrow, h⟩ := Option.bind_eq_some_iff.1 h
  unfold ofTokens? at h
  split at h
  · rename_i hread
    cases h
    obtain ⟨b, u, s', hs, hb, hu, hs'⟩ := value_of_readValue? _ hread (lexes_of_ofText? hrow)
    rw [DocumentOf, hs]
    exact .mk hb hu hs'.blanks_of_nil
  · cases h

/-- The documents are what is read. -/
theorem parse?_eq_some_iff {source : Text} {j : Json} : parse? source = some j ↔ DocumentOf source j :=
  ⟨documentOf_of_parse?, DocumentOf.parse?_eq⟩

end Json

end ConstFold
