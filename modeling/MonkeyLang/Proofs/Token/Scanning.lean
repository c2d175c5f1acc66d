import MonkeyLang.Proofs.Token.Lexeme

/-!
Scanning a text that is put together from blanks and the spellings of tokens, from its end to its
front.
-/

namespace MonkeyLang.Token

def Scans (text : List Char) (tokens : List Token) : Prop :=
  ∀ bound, text.length ≤ bound → takeTokens bound text = tokens

theorem Scans.ofText_eq {text : String} {tokens : List Token} (h : Scans text.toList tokens) :
    ofText text = tokens := h _ le_rfl

theorem scans_nil : Scans [] [] := by
  intro bound _
  cases bound <;> rfl

/-- Nothing in front of a text that is not blank makes a token longer that ends there. -/
def Fresh (text : List Char) : Prop :=
  ∀ c ∈ text.head?, isLetter c = false ∧ isDigit c = false ∧ c ≠ '='

namespace Scans

variable {text rest : List Char} {tokens : List Token} {token : Token}

theorem of_next (hnext : next text = (token, rest)) (hkind : token.kind ≠ .eof)
    (hlen : rest.length < text.length) (h : Scans rest tokens) :
    Scans text (token :: tokens) := by
  intro bound hbound
  obtain ⟨kind, literal⟩ := token
  cases bound with
  | zero => omega
  | succ bound =>
    rw [takeTokens, hnext]
    split
    · next he => cases he; exact absurd rfl hkind
    · next he => cases he; rw [h bound (by omega)]

theorem blank {c : Char} (hc : isBlank c = true) (h : Scans text tokens) :
    Scans (c :: text) tokens := by
  intro bound hbound
  rw [List.length_cons] at hbound
  cases bound with
  | zero => omega
  | succ bound =>
    have he := h (bound + 1) (by omega)
    rw [takeTokens] at he ⊢
    rw [next_blank hc]
    exact he

theorem symbol {c : Char} {kind : Kind} (hc : Kind.ofSymbol? c = some kind)
    (h : Scans text tokens) : Scans (c :: text) (⟨kind, c.toString⟩ :: tokens) :=
  h.of_next (next_symbol hc text) (isLexeme_symbol hc).kind_ne_eof (by simp)

theorem word {word : String} (hw : IsWord word) (hfresh : Fresh text) (h : Scans text tokens) :
    Scans (word.toList ++ text) (⟨Kind.ofWord word, word⟩ :: tokens) := by
  refine h.of_next (next_word hw fun c hc ↦ (hfresh c hc).1) (isLexeme_word hw).kind_ne_eof ?_
  have hpos := List.length_pos_iff.mpr hw.1
  rw [List.length_append]
  omega

theorem numeral {digits : String} (hd : IsNumeral digits) (hfresh : Fresh text)
    (h : Scans text tokens) : Scans (digits.toList ++ text) (⟨.int, digits⟩ :: tokens) := by
  refine h.of_next (next_numeral hd fun c hc ↦ (hfresh c hc).2.1) (by simp) ?_
  have hpos := List.length_pos_iff.mpr hd.1
  rw [List.length_append]
  omega

theorem string {content : String} (hc : '"' ∉ content.toList) (h : Scans text tokens) :
    Scans ('"' :: (content.toList ++ '"' :: text)) (⟨.string, content⟩ :: tokens) :=
  h.of_next (next_string hc text) (by simp) (by simp; omega)

end Scans

/-- The text spells the tokens in front of every text that makes no token longer. -/
def Spells (text : String) (tokens : List Token) : Prop :=
  ∀ rest others, Fresh rest → Scans rest others → Scans (text.toList ++ rest) (tokens ++ others)

/-- The text spells the tokens in front of every text. -/
def Closes (text : String) (tokens : List Token) : Prop :=
  ∀ rest others, Scans rest others → Scans (text.toList ++ rest) (tokens ++ others)

/-- The text makes no token in front of it longer. -/
def Apart (text : String) : Prop := ∀ rest, Fresh (text.toList ++ rest)

variable {a b : String} {s t : List Token}

theorem Apart.append (h : Apart a) (b : String) : Apart (a ++ b) := by
  intro rest
  rw [String.toList_append, List.append_assoc]
  exact h _

theorem Closes.spells (h : Closes a s) : Spells a s := fun rest others _ ↦ h rest others

theorem Closes.append (h : Closes a s) (h' : Closes b t) : Closes (a ++ b) (s ++ t) := by
  intro rest others hrest
  rw [String.toList_append, List.append_assoc, List.append_assoc]
  exact h _ _ (h' _ _ hrest)

theorem Closes.append_spells (h : Closes a s) (h' : Spells b t) : Spells (a ++ b) (s ++ t) := by
  intro rest others hfresh hrest
  rw [String.toList_append, List.append_assoc, List.append_assoc]
  exact h _ _ (h' _ _ hfresh hrest)

theorem Spells.append (h : Spells a s) (h' : Closes b t) (hb : Apart b) :
    Closes (a ++ b) (s ++ t) := by
  intro rest others hrest
  rw [String.toList_append, List.append_assoc, List.append_assoc]
  exact h _ _ (hb rest) (h' _ _ hrest)

theorem closes_empty : Closes "" [] := fun _ _ h ↦ h

theorem closes_blank : Closes " " [] := fun _ _ h ↦ h.blank rfl

theorem closes_symbol {c : Char} {kind : Kind} (h : Kind.ofSymbol? c = some kind) :
    Closes c.toString [⟨kind, c.toString⟩] := by
  intro rest others hrest
  rw [show c.toString.toList = [c] by simp]
  exact hrest.symbol h

theorem closes_string {content : String} (h : '"' ∉ content.toList) :
    Closes ("\"" ++ content ++ "\"") [⟨.string, content⟩] := by
  intro rest others hrest
  have hscan := hrest.string h
  rw [String.toList_append, String.toList_append, List.append_assoc, List.append_assoc]
  exact hscan

theorem spells_word {word : String} (h : IsWord word) : Spells word [⟨Kind.ofWord word, word⟩] :=
  fun _ _ hfresh hrest ↦ hrest.word h hfresh

theorem spells_numeral {digits : String} (h : IsNumeral digits) : Spells digits [⟨.int, digits⟩] :=
  fun _ _ hfresh hrest ↦ hrest.numeral h hfresh

theorem fresh_cons {c : Char} (h : (isLetter c || isDigit c || c == '=') = false)
    (rest : List Char) : Fresh (c :: rest) := by
  simp only [Bool.or_eq_false_iff, beq_eq_false_iff_ne] at h
  rintro d hd
  cases hd
  exact ⟨h.1.1, h.1.2, h.2⟩

theorem fresh_nil : Fresh [] := fun _ hc ↦ by cases hc

end MonkeyLang.Token
