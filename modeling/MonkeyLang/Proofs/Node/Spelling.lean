import MonkeyLang.Node.Text
import MonkeyLang.Proofs.Grammar.Compose
import MonkeyLang.Proofs.Token.Scanning

/-!
Tokens that pieces of canonical text spell: words, operators, numbers, and lists with commas.
-/

namespace MonkeyLang

open Token

/-- The tokens up to `rest` spell an atom with trailers. -/
def Trailed (node : Node) (tokens rest : List Token) : Prop :=
  ∃ atom mid, Nonempty (Derivation (.atom atom) tokens mid) ∧
    Nonempty (Derivation (.trailers atom node) mid rest)

theorem Trailed.of_atom {node : Node} {tokens rest : List Token}
    (d : Derivation (.atom node) tokens rest) : Trailed node tokens rest :=
  ⟨node, rest, ⟨d⟩, ⟨.trailersEnd⟩⟩

theorem Trailed.append {left node : Node} {tokens mid rest : List Token}
    (h : Trailed left tokens mid) (e : Derivation (.trailers left node) mid rest) :
    Trailed node tokens rest := by
  obtain ⟨atom, start, hd, ⟨d⟩⟩ := h
  exact ⟨atom, start, hd, ⟨d.trailersAppend e⟩⟩

theorem Trailed.expr {node : Node} {tokens rest : List Token} (h : Trailed node tokens rest)
    (tier : Tier) : Nonempty (Derivation (.expr tier node) tokens rest) := by
  obtain ⟨_, _, ⟨d⟩, ⟨e⟩⟩ := h
  exact (Derivation.trailed d e).loosen (by cases tier <;> decide)

/-- The text does not make an operator in front of it longer. -/
def Separate (text : String) : Prop := ∃ c rest, text.toList = c :: rest ∧ c ≠ '='

theorem Separate.append {a : String} (h : Separate a) (b : String) : Separate (a ++ b) := by
  obtain ⟨c, rest, ha, hc⟩ := h
  exact ⟨c, rest ++ b.toList, by rw [String.toList_append, ha, List.cons_append], hc⟩

theorem Separate.of_forall {text : String} (hne : text.toList ≠ [])
    (h : ∀ c ∈ text.toList, c ≠ '=') : Separate text := by
  obtain ⟨c, rest, hc⟩ := List.exists_cons_of_ne_nil hne
  exact ⟨c, rest, hc, h c (by simp [hc])⟩

theorem IsWord.separate {word : String} (h : IsWord word) : Separate word :=
  .of_forall h.1 fun c hc ↦ isLetter_ne (h.2 c hc) (by decide)

theorem IsNumeral.separate {digits : String} (h : IsNumeral digits) : Separate digits :=
  .of_forall h.1 fun c hc ↦ isDigit_ne (h.2 c hc) (by decide)

section Lists

/-- The texts of the items behind the first one of a list, each behind a comma. -/
def othersText : List String → String
  | [] => ""
  | text :: others => ", " ++ text ++ othersText others

theorem commaSeparated_cons (text : String) (others : List String) :
    commaSeparated (text :: others) = text ++ othersText others := by
  induction others generalizing text with
  | nil => rw [commaSeparated, String.intercalate_singleton, othersText, String.append_empty]
  | cons other others ih =>
    have hother := ih other
    rw [commaSeparated] at hother ⊢
    rw [String.intercalate_cons_cons, hother, othersText]
    simp only [String.append_assoc]

variable {α β : Type} {text : α → String} {r : α → β → Prop} {f : β → Item} {sort : Item.Sort}
  {bracket : Bracket} {c : Char} {items : List α}

/-- Items that are spelled one by one are spelled behind each other with commas between them. -/
theorem others_spelled (hc : Kind.ofSymbol? c = some bracket.close)
    (hfresh : (isLetter c || isDigit c || c == '=') = false)
    (h : ∀ a ∈ items, ∃ (tokens : List Token) (b : β), r a b ∧ Spells (text a) tokens ∧
      ∀ others, Nonempty (Derivation (.item sort (f b)) (tokens ++ others) others)) :
    ∃ (tokens : List Token) (bs : List β), List.Forall₂ r items bs ∧
      Closes (othersText (items.map text) ++ c.toString) tokens ∧
      Apart (othersText (items.map text) ++ c.toString) ∧
      ∀ others, Nonempty
        (Derivation (.others sort bracket (bs.map f)) (tokens ++ others) others) := by
  induction items with
  | nil =>
    refine ⟨[⟨bracket.close, c.toString⟩], [], .nil, ?_, fun rest ↦ ?_, fun others ↦ ?_⟩
    · exact closes_empty.append (closes_symbol hc)
    · rw [List.map_nil, othersText, String.empty_append, show c.toString.toList = [c] by simp]
      exact fresh_cons hfresh rest
    · exact ⟨.noOthers rfl⟩
  | cons a items ih =>
    obtain ⟨tokens, b, hb, hspell, hd⟩ := h a (List.mem_cons_self ..)
    obtain ⟨tokens', bs, hbs, hclose, hfresh', hd'⟩ := ih fun a ha ↦ h a (List.mem_cons_of_mem _ ha)
    have hcomma : Closes ", " [⟨.comma, ","⟩] :=
      fun _ _ hrest ↦ (hrest.blank rfl).symbol (c := ',') rfl
    refine ⟨[⟨.comma, ","⟩] ++ (tokens ++ tokens'), b :: bs, .cons hb hbs, ?_, ?_, fun others ↦ ?_⟩
    · rw [List.map_cons, othersText, String.append_assoc, String.append_assoc]
      exact hcomma.append (hspell.append hclose hfresh')
    · rw [List.map_cons, othersText, String.append_assoc, String.append_assoc]
      have hapart : Apart ", " := fun _ ↦ fresh_cons rfl _
      exact hapart.append _
    · obtain ⟨d⟩ := hd (tokens' ++ others)
      obtain ⟨e⟩ := hd' others
      simp only [List.cons_append, List.nil_append, List.append_assoc, List.map_cons]
      exact ⟨.others rfl d e⟩

theorem list_spelled (hc : Kind.ofSymbol? c = some bracket.close)
    (hfresh : (isLetter c || isDigit c || c == '=') = false)
    (h : ∀ a ∈ items, ∃ (tokens : List Token) (b : β), r a b ∧ Spells (text a) tokens ∧
      ∀ others, Nonempty (Derivation (.item sort (f b)) (tokens ++ others) others)) :
    ∃ (tokens : List Token) (bs : List β), List.Forall₂ r items bs ∧
      Closes (commaSeparated (items.map text) ++ c.toString) tokens ∧
      ∀ others, Nonempty
        (Derivation (.list sort bracket (bs.map f)) (tokens ++ others) others) := by
  cases items with
  | nil =>
    refine ⟨[⟨bracket.close, c.toString⟩], [], .nil, ?_, fun others ↦ ⟨.emptyList rfl⟩⟩
    exact closes_empty.append (closes_symbol hc)
  | cons a items =>
    obtain ⟨tokens, b, hb, hspell, hd⟩ := h a (List.mem_cons_self ..)
    obtain ⟨tokens', bs, hbs, hclose, hfresh', hd'⟩ :=
      others_spelled hc hfresh fun a ha ↦ h a (List.mem_cons_of_mem _ ha)
    refine ⟨tokens ++ tokens', b :: bs, .cons hb hbs, ?_, fun others ↦ ?_⟩
    · rw [List.map_cons, commaSeparated_cons, String.append_assoc]
      exact hspell.append hclose hfresh'
    · obtain ⟨d⟩ := hd (tokens' ++ others)
      obtain ⟨e⟩ := hd' others
      rw [List.append_assoc, List.map_cons]
      exact ⟨.list d e⟩

end Lists

section Words

theorem closes_semicolon : Closes ";" [⟨.semicolon, ";"⟩] := closes_symbol (c := ';') rfl

theorem closes_lparen : Closes "(" [⟨.lparen, "("⟩] := closes_symbol (c := '(') rfl

theorem closes_rparen : Closes ")" [⟨.rparen, ")"⟩] := closes_symbol (c := ')') rfl

theorem closes_lbrace : Closes "\x7b" [⟨.lbrace, "\x7b"⟩] := closes_symbol (c := '{') rfl

theorem closes_rbrace : Closes "\x7d" [⟨.rbrace, "\x7d"⟩] := closes_symbol (c := '}') rfl

theorem closes_lbracket : Closes "[" [⟨.lbracket, "["⟩] := closes_symbol (c := '[') rfl

theorem closes_rbracket : Closes "]" [⟨.rbracket, "]"⟩] := closes_symbol (c := ']') rfl

theorem apart_semicolon : Apart ";" := fun _ ↦ fresh_cons rfl _

theorem apart_lparen : Apart "(" := fun _ ↦ fresh_cons rfl _

theorem apart_rparen : Apart ")" := fun _ ↦ fresh_cons rfl _

theorem apart_lbracket : Apart "[" := fun _ ↦ fresh_cons rfl _

theorem apart_blank : Apart " " := fun _ ↦ fresh_cons rfl _

theorem apart_colon : Apart ": " := fun _ ↦ fresh_cons rfl _

/-- A key and what belongs to it are spelled with a colon between them. -/
theorem spells_pair {key value : String} {tokens tokens' : List Token} (h : Spells key tokens)
    (h' : Spells value tokens') :
    Spells (key ++ ": " ++ value) (tokens ++ [⟨.colon, ":"⟩] ++ tokens') := by
  have hcolon : Closes ": " [⟨.colon, ":"⟩] := (closes_symbol (c := ':') rfl).append closes_blank
  exact (h.append hcolon apart_colon).append_spells h'

theorem closes_word (word : String) (h : IsWord word) :
    Closes (word ++ " ") [⟨Kind.ofWord word, word⟩] :=
  (spells_word h).append closes_blank fun _ ↦ fresh_cons rfl _

theorem closes_word_paren (word : String) (h : IsWord word) :
    Closes (word ++ "(") [⟨Kind.ofWord word, word⟩, ⟨.lparen, "("⟩] :=
  (spells_word h).append closes_lparen fun _ ↦ fresh_cons rfl _

theorem closes_let : Closes "let " [⟨.kwLet, "let"⟩] :=
  closes_word "let" (by decide)

theorem closes_return : Closes "return " [⟨.kwReturn, "return"⟩] :=
  closes_word "return" (by decide)

theorem closes_if : Closes "if (" [⟨.kwIf, "if"⟩, ⟨.lparen, "("⟩] :=
  (closes_word "if" (by decide)).append closes_lparen

theorem closes_else : Closes " else " [⟨.kwElse, "else"⟩] :=
  closes_blank.append (closes_word "else" (by decide))

theorem closes_fn : Closes "fn(" [⟨.kwFn, "fn"⟩, ⟨.lparen, "("⟩] :=
  closes_word_paren "fn" (by decide)

theorem closes_noStatements : Closes "\x7b \x7d" [⟨.lbrace, "\x7b"⟩, ⟨.rbrace, "\x7d"⟩] :=
  closes_lbrace.append (closes_blank.append closes_rbrace)

theorem closes_opening : Closes "\x7b " [⟨.lbrace, "\x7b"⟩] := closes_lbrace.append closes_blank

theorem closes_closing : Closes " \x7d" [⟨.rbrace, "\x7d"⟩] := closes_blank.append closes_rbrace

theorem apart_closing : Apart " \x7d" := fun _ ↦ fresh_cons rfl _

theorem closes_rparen_blank : Closes ") " [⟨.rparen, ")"⟩] := closes_rparen.append closes_blank

theorem apart_rparen_blank : Apart ") " := fun _ ↦ fresh_cons rfl _

theorem closes_assign : Closes " = " [⟨.assign, "="⟩] := by
  intro rest others hrest
  exact .blank rfl (.of_next rfl (by decide) (by simp) (hrest.blank rfl))

theorem closes_bang {text : String} {tokens : List Token} (hs : Separate text)
    (h : Closes text tokens) : Closes ("!" ++ text) (⟨.bang, "!"⟩ :: tokens) := by
  intro rest others hrest
  obtain ⟨c, cs, hc, hne⟩ := hs
  have hscan := h rest others hrest
  have hnext : next ('!' :: (text.toList ++ rest)) = (⟨.bang, "!"⟩, text.toList ++ rest) := by
    rw [hc]
    refine withEqualSign_of_ne ?_
    rintro d hd
    cases hd
    exact hne
  rw [String.toList_append]
  exact hscan.of_next hnext (by decide) (by simp)

theorem closes_prefixOp {op text : String} {tokens : List Token} (hop : op ∈ ["!", "-"])
    (hs : Separate text) (h : Closes text tokens) :
    ∃ kind, (kind = .bang ∨ kind = .minus) ∧ Closes (op ++ text) (⟨kind, op⟩ :: tokens) := by
  simp only [List.mem_cons, List.not_mem_nil, or_false] at hop
  rcases hop with rfl | rfl
  · exact ⟨.bang, .inl rfl, closes_bang hs h⟩
  · exact ⟨.minus, .inr rfl, (closes_symbol (c := '-') rfl).append h⟩

theorem closes_infixOp {op : String} (hop : op ∈ ["+", "-", "*", "/", "<", ">", "==", "!="]) :
    ∃ kind tier inner, kind ∈ Tier.operators tier ∧ tier.tighter? = some inner ∧
      Closes (op ++ " ") [⟨kind, op⟩] := by
  simp only [List.mem_cons, List.not_mem_nil, or_false] at hop
  rcases hop with rfl | rfl | rfl | rfl | rfl | rfl | rfl | rfl
  · exact ⟨.plus, .sum, .product, by decide, rfl,
      (closes_symbol (c := '+') rfl).append closes_blank⟩
  · exact ⟨.minus, .sum, .product, by decide, rfl,
      (closes_symbol (c := '-') rfl).append closes_blank⟩
  · exact ⟨.asterisk, .product, .unary, by decide, rfl,
      (closes_symbol (c := '*') rfl).append closes_blank⟩
  · exact ⟨.slash, .product, .unary, by decide, rfl,
      (closes_symbol (c := '/') rfl).append closes_blank⟩
  · exact ⟨.lt, .comparison, .sum, by decide, rfl,
      (closes_symbol (c := '<') rfl).append closes_blank⟩
  · exact ⟨.gt, .comparison, .sum, by decide, rfl,
      (closes_symbol (c := '>') rfl).append closes_blank⟩
  · exact ⟨.eq, .equality, .comparison, by decide, rfl,
      fun _ _ hrest ↦ .of_next rfl (by decide) (by simp) (hrest.blank rfl)⟩
  · exact ⟨.notEq, .equality, .comparison, by decide, rfl,
      fun _ _ hrest ↦ .of_next rfl (by decide) (by simp) (hrest.blank rfl)⟩

/-- A number is spelled by digits that have its value. -/
theorem isNumeral_repr (n : Nat) : IsNumeral n.repr ∧ Reader.decimal n.repr = n := by
  have hdigits : n.repr.toList = Nat.toDigits 10 n := by simp [Nat.repr]
  refine ⟨⟨?_, fun c hc ↦ ?_⟩, ?_⟩
  · rw [hdigits]
    exact Nat.toDigits_ne_nil
  · rw [hdigits] at hc
    have hdigit := Nat.isDigit_of_mem_toDigits (by decide) (by decide) hc
    simpa [Char.isDigit, isDigit, Char.le_def] using hdigit
  · rw [Reader.decimal, hdigits]
    exact Nat.ofDigitChars_ten_toDigits

end Words

end MonkeyLang
