import MonkeyLang.Token.Scan
import Mathlib.Data.List.TakeWhile
import Mathlib.Tactic.Common

/-!
Tokens and the text that spells them: which tokens scanning gives, and that it takes a token off
the front of a text that spells the token, unless the text behind makes the token longer.
-/

namespace MonkeyLang

/-- The kinds whose tokens are words. -/
def Kind.isWord : Kind → Bool
  | .ident | .kwFn | .kwLet | .kwTrue | .kwFalse | .kwIf | .kwElse | .kwReturn => true
  | _ => false

/-- A word of letters that is not empty. -/
def IsWord (text : String) : Prop := text.toList ≠ [] ∧ ∀ c ∈ text.toList, isLetter c

instance : DecidablePred IsWord := fun text ↦
  decidable_of_iff (text.toList ≠ [] ∧ text.toList.all isLetter = true)
    (and_congr_right' List.all_eq_true)

/-- A run of digits that is not empty. -/
def IsNumeral (text : String) : Prop := text.toList ≠ [] ∧ ∀ c ∈ text.toList, isDigit c

/-- A character that begins no token of another kind and is not skipped. -/
def IsIllegal (c : Char) : Prop :=
  isBlank c = false ∧ isLetter c = false ∧ isDigit c = false ∧ c ∉ ['=', '!', '"'] ∧
    Kind.ofSymbol? c = none

namespace Token

/-- The tokens that are spelled by some text. -/
def IsLexeme (token : Token) : Prop :=
  match token.kind with
  | .eof => False
  | .illegal => ∃ c, IsIllegal c ∧ token.literal = c.toString
  | .int => IsNumeral token.literal
  | .string => '"' ∉ token.literal.toList
  | kind => if kind.isWord then IsWord token.literal ∧ Kind.ofWord token.literal = kind
    else token.literal = kind.display

/-- The text that spells a token. -/
def raw (token : Token) : List Char :=
  if token.kind = .string then '"' :: token.literal.toList ++ ['"'] else token.literal.toList

/-- The text behind a token does not make it longer. -/
def Stops (token : Token) (rest : List Char) : Prop :=
  ∀ c ∈ rest.head?, (token.kind.isWord → isLetter c = false) ∧
    (token.kind = .int → isDigit c = false) ∧
    (token.kind = .assign ∨ token.kind = .bang → c ≠ '=')

end Token

theorem ofSymbol?_eq_none_of_isLetter {c : Char} (h : isLetter c = true) :
    Kind.ofSymbol? c = none := by
  unfold Kind.ofSymbol?
  split <;> first | rfl | exact absurd h (by decide)

theorem ofSymbol?_eq_none_of_isDigit {c : Char} (h : isDigit c = true) :
    Kind.ofSymbol? c = none := by
  unfold Kind.ofSymbol?
  split <;> first | rfl | exact absurd h (by decide)

theorem isBlank_eq_false_of_ofSymbol? {c : Char} (h : Kind.ofSymbol? c ≠ none) :
    isBlank c = false := by
  unfold Kind.ofSymbol? at h
  split at h <;> first | rfl | exact absurd rfl h

theorem isLetter_ne {c d : Char} (h : isLetter c = true) (hd : isLetter d = false) : c ≠ d := by
  rintro rfl
  rw [h] at hd
  cases hd

theorem isDigit_ne {c d : Char} (h : isDigit c = true) (hd : isDigit d = false) : c ≠ d := by
  rintro rfl
  rw [h] at hd
  cases hd

theorem isBlank_eq_false {c : Char} (hs : c ≠ ' ') (ht : c ≠ '\t') (hn : c ≠ '\n')
    (hr : c ≠ '\r') : isBlank c = false := by
  simp [isBlank, hs, ht, hn, hr]

theorem isBlank_eq_false_of_isLetter {c : Char} (h : isLetter c = true) : isBlank c = false :=
  isBlank_eq_false (isLetter_ne h (by decide)) (isLetter_ne h (by decide))
    (isLetter_ne h (by decide)) (isLetter_ne h (by decide))

theorem isBlank_eq_false_of_isDigit {c : Char} (h : isDigit c = true) : isBlank c = false :=
  isBlank_eq_false (isDigit_ne h (by decide)) (isDigit_ne h (by decide))
    (isDigit_ne h (by decide)) (isDigit_ne h (by decide))

theorem isLetter_eq_false_of_isBlank {c : Char} (h : isBlank c = true) : isLetter c = false := by
  by_contra hl
  rw [Bool.not_eq_false] at hl
  rw [isBlank_eq_false_of_isLetter hl] at h
  cases h

theorem isDigit_eq_false_of_isBlank {c : Char} (h : isBlank c = true) : isDigit c = false := by
  by_contra hd
  rw [Bool.not_eq_false] at hd
  rw [isBlank_eq_false_of_isDigit hd] at h
  cases h

theorem isDigit_eq_false_of_isLetter {c : Char} (h : isLetter c = true) : isDigit c = false := by
  simp only [isLetter, Bool.or_eq_true, Bool.and_eq_true, decide_eq_true_eq, beq_iff_eq] at h
  rw [isDigit, Bool.and_eq_false_iff, decide_eq_false_iff_not, decide_eq_false_iff_not]
  refine .inr ?_
  rcases h with (h | h) | rfl
  · exact fun hle ↦ absurd (Char.le_trans h.1 hle) (by decide)
  · exact fun hle ↦ absurd (Char.le_trans h.1 hle) (by decide)
  · decide

theorem isLetter_eq_false_of_isDigit {c : Char} (h : isDigit c = true) : isLetter c = false := by
  by_contra hl
  rw [Bool.not_eq_false] at hl
  exact absurd (isDigit_eq_false_of_isLetter hl) (by simp [h])

theorem ofWord_isWord (word : String) : (Kind.ofWord word).isWord = true := by
  unfold Kind.ofWord
  split <;> rfl

theorem takeWhile_dropWhile_of_stop {p : Char → Bool} (text rest : List Char)
    (h : ∀ c ∈ text, p c = true) (hrest : ∀ c ∈ rest.head?, p c = false) :
    (text ++ rest).takeWhile p = text ∧ (text ++ rest).dropWhile p = rest := by
  have htake : rest.takeWhile p = [] := by
    cases rest with
    | nil => rfl
    | cons c rest => simp [hrest c rfl]
  have hdrop : rest.dropWhile p = rest := by
    cases rest with
    | nil => rfl
    | cons c rest => simp [hrest c rfl]
  rw [List.takeWhile_append_of_pos h, List.dropWhile_append_of_pos h, htake, hdrop, List.append_nil]
  exact ⟨rfl, rfl⟩

namespace Token

theorem next_cons {c : Char} {rest : List Char} (h : isBlank c = false) :
    next (c :: rest) = lexeme c rest := by
  simp only [next, List.dropWhile_cons, h, Bool.false_eq_true, if_false]

theorem next_blank {c : Char} {rest : List Char} (h : isBlank c = true) :
    next (c :: rest) = next rest := by
  simp only [next, List.dropWhile_cons, h, if_true]

theorem lexeme_symbol {c : Char} {rest : List Char} {kind : Kind}
    (h : Kind.ofSymbol? c = some kind) : lexeme c rest = (⟨kind, c.toString⟩, rest) := by
  have he : c ≠ '=' := by rintro rfl; cases h
  have hb : c ≠ '!' := by rintro rfl; cases h
  simp [lexeme, he, hb, h]

theorem lexeme_letter {c : Char} {rest : List Char} (h : isLetter c = true) :
    lexeme c rest =
      (⟨Kind.ofWord (String.ofList (c :: rest.takeWhile isLetter)),
        String.ofList (c :: rest.takeWhile isLetter)⟩, rest.dropWhile isLetter) := by
  have he : c ≠ '=' := isLetter_ne h (by decide)
  have hb : c ≠ '!' := isLetter_ne h (by decide)
  have hq : c ≠ '"' := isLetter_ne h (by decide)
  simp [lexeme, he, hb, hq, ofSymbol?_eq_none_of_isLetter h, h]

theorem lexeme_digit {c : Char} {rest : List Char} (h : isDigit c = true) :
    lexeme c rest =
      (⟨.int, String.ofList (c :: rest.takeWhile isDigit)⟩, rest.dropWhile isDigit) := by
  have he : c ≠ '=' := isDigit_ne h (by decide)
  have hb : c ≠ '!' := isDigit_ne h (by decide)
  have hq : c ≠ '"' := isDigit_ne h (by decide)
  simp [lexeme, he, hb, hq, ofSymbol?_eq_none_of_isDigit h, h, isLetter_eq_false_of_isDigit h]

theorem lexeme_illegal {c : Char} {rest : List Char} (h : IsIllegal c) :
    lexeme c rest = (⟨.illegal, c.toString⟩, rest) := by
  obtain ⟨_, hl, hd, hm, hs⟩ := h
  simp only [List.mem_cons, List.not_mem_nil, or_false, not_or] at hm
  simp [lexeme, hm, hs, hl, hd]

theorem lexeme_quote (rest : List Char) :
    lexeme '"' rest = (⟨.string, String.ofList (rest.takeWhile (· != '"'))⟩,
      (rest.dropWhile (· != '"')).drop 1) := rfl

theorem withEqualSign_of_ne {short long : Token} {rest : List Char}
    (h : ∀ c ∈ rest.head?, c ≠ '=') : withEqualSign short long rest = (short, rest) := by
  unfold withEqualSign
  split
  · exact absurd rfl (h '=' rfl)
  · rfl

theorem next_word {word : String} {rest : List Char} (h : IsWord word)
    (hstop : ∀ c ∈ rest.head?, isLetter c = false) :
    next (word.toList ++ rest) = (⟨Kind.ofWord word, word⟩, rest) := by
  obtain ⟨hne, hletters⟩ := h
  obtain ⟨c, cs, hcs⟩ := List.exists_cons_of_ne_nil hne
  have hc : isLetter c = true := hletters c (by simp [hcs])
  obtain ⟨htake, hdrop⟩ := takeWhile_dropWhile_of_stop cs rest
    (fun d hd ↦ hletters d (by simp [hcs, hd])) hstop
  have hword : String.ofList (c :: cs) = word := by rw [← hcs, String.ofList_toList]
  rw [hcs, List.cons_append, next_cons (isBlank_eq_false_of_isLetter hc), lexeme_letter hc, htake,
    hdrop, hword]

theorem next_numeral {digits : String} {rest : List Char} (h : IsNumeral digits)
    (hstop : ∀ c ∈ rest.head?, isDigit c = false) :
    next (digits.toList ++ rest) = (⟨.int, digits⟩, rest) := by
  obtain ⟨hne, hdigits⟩ := h
  obtain ⟨c, cs, hcs⟩ := List.exists_cons_of_ne_nil hne
  have hc : isDigit c = true := hdigits c (by simp [hcs])
  obtain ⟨htake, hdrop⟩ := takeWhile_dropWhile_of_stop cs rest
    (fun d hd ↦ hdigits d (by simp [hcs, hd])) hstop
  have hnumeral : String.ofList (c :: cs) = digits := by rw [← hcs, String.ofList_toList]
  rw [hcs, List.cons_append, next_cons (isBlank_eq_false_of_isDigit hc), lexeme_digit hc, htake,
    hdrop, hnumeral]

theorem next_string {text : String} (h : '"' ∉ text.toList) (rest : List Char) :
    next ('"' :: (text.toList ++ '"' :: rest)) = (⟨.string, text⟩, rest) := by
  obtain ⟨htake, hdrop⟩ := takeWhile_dropWhile_of_stop text.toList ('"' :: rest)
    (fun c hc ↦ (bne_iff_ne (b := '"')).mpr fun he ↦ h (he ▸ hc)) (by simp)
  rw [next_cons (by decide), lexeme_quote, htake, hdrop, String.ofList_toList]
  rfl

theorem next_symbol {c : Char} {kind : Kind} (h : Kind.ofSymbol? c = some kind)
    (rest : List Char) : next (c :: rest) = (⟨kind, c.toString⟩, rest) := by
  rw [next_cons (isBlank_eq_false_of_ofSymbol? (by simp [h])), lexeme_symbol h]

/-- Scanning takes a token off the front of the text that spells it. -/
theorem next_raw {token : Token} {rest : List Char} (h : token.IsLexeme)
    (hstop : token.Stops rest) : next (token.raw ++ rest) = (token, rest) := by
  obtain ⟨kind, literal⟩ := token
  cases kind with
  | eof => exact h.elim
  | illegal =>
    obtain ⟨c, hc, rfl⟩ := h
    have hn : next (c :: rest) = (⟨.illegal, c.toString⟩, rest) :=
      (next_cons hc.1).trans (lexeme_illegal hc)
    simpa [raw] using hn
  | int => exact next_numeral h fun c hc ↦ (hstop c hc).2.1 rfl
  | string =>
    have hn := next_string h rest
    simpa [raw] using hn
  | ident | kwFn | kwLet | kwTrue | kwFalse | kwIf | kwElse | kwReturn =>
    have hn := next_word h.1 fun c hc ↦ (hstop c hc).1 rfl
    rw [h.2] at hn
    exact hn
  | assign | bang =>
    simp only [IsLexeme, Kind.isWord, Bool.false_eq_true, if_false] at h
    subst h
    exact withEqualSign_of_ne fun c hc ↦ (hstop c hc).2.2 (by simp)
  | eq | notEq | plus | minus | asterisk | slash | lt | gt | comma | semicolon | colon | lparen
  | rparen | lbrace | rbrace | lbracket | rbracket =>
    simp only [IsLexeme, Kind.isWord, Bool.false_eq_true, if_false] at h
    subst h
    rfl

theorem isLexeme_word {word : String} (h : IsWord word) : IsLexeme ⟨Kind.ofWord word, word⟩ := by
  have hw := ofWord_isWord word
  generalize hk : Kind.ofWord word = kind at hw
  cases kind <;> first | exact ⟨h, hk⟩ | cases hw

theorem isLexeme_symbol {c : Char} {kind : Kind} (h : Kind.ofSymbol? c = some kind) :
    IsLexeme ⟨kind, c.toString⟩ := by
  unfold Kind.ofSymbol? at h
  split at h <;> cases h <;> rfl

/-- What a character that is not blank may begin. -/
@[elab_as_elim]
theorem first_cases {motive : Char → Prop} {c : Char} (h : isBlank c = false)
    (equal : motive '=') (bang : motive '!') (quote : motive '"')
    (symbol : ∀ {c kind}, Kind.ofSymbol? c = some kind → motive c)
    (letter : ∀ {c}, isLetter c = true → motive c) (digit : ∀ {c}, isDigit c = true → motive c)
    (illegal : ∀ {c}, IsIllegal c → motive c) : motive c := by
  by_cases he : c = '='
  · rwa [he]
  by_cases hb : c = '!'
  · rwa [hb]
  by_cases hq : c = '"'
  · rwa [hq]
  cases hs : Kind.ofSymbol? c with
  | some kind => exact symbol hs
  | none =>
    by_cases hl : isLetter c = true
    · exact letter hl
    by_cases hd : isDigit c = true
    · exact digit hd
    · exact illegal ⟨h, by simpa using hl, by simpa using hd, by simp [he, hb, hq], hs⟩

theorem withEqualSign_cases (short long : Token) (rest : List Char) :
    (withEqualSign short long rest).1 = short ∧ (withEqualSign short long rest).2 = rest ∨
      (withEqualSign short long rest).1 = long ∧
        rest = '=' :: (withEqualSign short long rest).2 := by
  unfold withEqualSign
  split
  · exact .inr ⟨rfl, rfl⟩
  · exact .inl ⟨rfl, rfl⟩

theorem lexeme_isLexeme {c : Char} {rest : List Char} (h : isBlank c = false) :
    (lexeme c rest).1.IsLexeme := by
  refine first_cases h ?equal ?bang ?quote ?symbol ?letter ?digit ?illegal
  case equal =>
    rcases withEqualSign_cases ⟨.assign, "="⟩ ⟨.eq, "=="⟩ rest with ⟨he, -⟩ | ⟨he, -⟩ <;>
      exact he ▸ rfl
  case bang =>
    rcases withEqualSign_cases ⟨.bang, "!"⟩ ⟨.notEq, "!="⟩ rest with ⟨he, -⟩ | ⟨he, -⟩ <;>
      exact he ▸ rfl
  case quote =>
    rw [lexeme_quote]
    intro hm
    rw [String.toList_ofList] at hm
    exact absurd (List.mem_takeWhile_imp hm) (by decide)
  case symbol =>
    intro c kind hs
    rw [lexeme_symbol hs]
    exact isLexeme_symbol hs
  case letter =>
    intro c hl
    rw [lexeme_letter hl]
    refine isLexeme_word ⟨by simp, fun d hd ↦ ?_⟩
    rw [String.toList_ofList, List.mem_cons] at hd
    exact hd.elim (fun he ↦ he ▸ hl) List.mem_takeWhile_imp
  case digit =>
    intro c hd
    rw [lexeme_digit hd]
    refine ⟨by simp, fun d hm ↦ ?_⟩
    rw [String.toList_ofList, List.mem_cons] at hm
    exact hm.elim (fun he ↦ he ▸ hd) List.mem_takeWhile_imp
  case illegal =>
    intro c hill
    rw [lexeme_illegal hill]
    exact ⟨c, hill, rfl⟩

/-- What scanning takes off the front of a text is the end, or a token that has a spelling. -/
theorem next_isLexeme (text : List Char) :
    (next text).1 = eof ∧ (next text).2 = [] ∨ (next text).1.IsLexeme := by
  unfold next
  split
  · exact .inl ⟨rfl, rfl⟩
  · next c rest hdrop =>
    refine .inr ?_
    have hhead := List.head?_dropWhile_not isBlank text
    rw [hdrop] at hhead
    exact lexeme_isLexeme (by simpa using hhead)

theorem IsLexeme.kind_ne_eof {token : Token} (h : token.IsLexeme) : token.kind ≠ .eof := by
  intro hk
  rw [IsLexeme, hk] at h
  exact h

theorem takeTokens_isLexeme (bound : Nat) (text : List Char) :
    ∀ token ∈ takeTokens bound text, token.IsLexeme := by
  induction bound generalizing text with
  | zero => intro token ht; simp [takeTokens] at ht
  | succ bound ih =>
    intro token ht
    rw [takeTokens] at ht
    split at ht
    · simp at ht
    · next first rest hne hnext =>
      rcases List.mem_cons.mp ht with rfl | ht
      · rcases next_isLexeme text with ⟨he, _⟩ | hlex
        · rw [hnext] at he
          exact absurd he (hne _)
        · rwa [hnext] at hlex
      · exact ih rest token ht

end Token

end MonkeyLang
