import MonkeyLang.Proofs.Token.Concatenation

/-!
Tokens at the front of a text: which characters stand at the ends of a token, which text makes it
longer, and that scanning splits every text into the spelling of a token and the rest.
-/

namespace MonkeyLang

/-- The reserved words, each with its kind. -/
def Kind.reserved : List (String × Kind) :=
  [("fn", kwFn), ("let", kwLet), ("true", kwTrue), ("false", kwFalse), ("if", kwIf),
    ("else", kwElse), ("return", kwReturn)]

theorem Kind.ofWord_eq_iff {word : String} {kind : Kind} (h : (word, kind) ∈ reserved)
    (other : String) : ofWord other = kind ↔ other = word := by
  simp only [reserved, List.mem_cons, Prod.mk.injEq, List.not_mem_nil, or_false] at h
  unfold ofWord
  rcases h with ⟨rfl, rfl⟩ | ⟨rfl, rfl⟩ | ⟨rfl, rfl⟩ | ⟨rfl, rfl⟩ | ⟨rfl, rfl⟩ | ⟨rfl, rfl⟩ |
    ⟨rfl, rfl⟩ <;> split <;> simp_all

/-- The character may stand at an end of a token of the kind. Its class tells whether that is a
word, and whether it is a number. -/
def Kind.Outer (kind : Kind) (c : Char) : Prop :=
  isBlank c = false ∧ isLetter c = kind.isWord ∧ isDigit c = decide (kind = .int)

instance (kind : Kind) : DecidablePred kind.Outer := fun _ ↦ inferInstanceAs (Decidable (_ ∧ _))

namespace Token

variable {token : Token} {c : Char} {text rest : List Char}

theorem IsLexeme.ofWord_eq (h : token.IsLexeme) (hword : token.kind.isWord = true) :
    IsWord token.literal ∧ Kind.ofWord token.literal = token.kind := by
  obtain ⟨kind, literal⟩ := token
  cases kind <;> first | exact h | cases hword

theorem IsLexeme.reserved_iff (h : token.IsLexeme) (hword : token.kind.isWord = true)
    {word : String} {kind : Kind} (hm : (word, kind) ∈ Kind.reserved) :
    token.kind = kind ↔ token.literal = word := by
  rw [← (h.ofWord_eq hword).2]
  exact Kind.ofWord_eq_iff hm token.literal

theorem raw_of_ne_string (h : token.kind ≠ .string) : token.raw = token.literal.toList := if_neg h

/-- Both ends of a token are there and tell its kind. -/
theorem IsLexeme.outer (h : token.IsLexeme) :
    (∃ c ∈ token.raw.head?, token.kind.Outer c) ∧ ∃ c ∈ token.raw.getLast?, token.kind.Outer c := by
  have hends : ∀ {text : List Char}, text ≠ [] → (∀ c ∈ text, token.kind.Outer c) →
      (∃ c ∈ text.head?, token.kind.Outer c) ∧ ∃ c ∈ text.getLast?, token.kind.Outer c :=
    fun hne hall ↦ ⟨⟨_, List.head?_eq_some_head hne, hall _ (List.head_mem hne)⟩,
      _, List.getLast?_eq_some_getLast hne, hall _ (List.getLast_mem hne)⟩
  obtain ⟨kind, literal⟩ := token
  cases kind with
  | eof => exact h.elim
  | illegal =>
    obtain ⟨c, ⟨hblank, hletter, hdigit, -⟩, rfl⟩ := h
    refine hends (by simp [raw]) fun d hd ↦ ?_
    obtain rfl : d = c := by simpa [raw] using hd
    exact ⟨hblank, hletter, hdigit⟩
  | int =>
    refine hends h.1 fun c hc ↦ ?_
    have hdigit := h.2 c hc
    exact ⟨isBlank_eq_false_of_isDigit hdigit, isLetter_eq_false_of_isDigit hdigit, hdigit⟩
  | string =>
    have hquote : Kind.Outer .string '"' := by decide
    exact ⟨⟨_, rfl, hquote⟩, _, List.getLast?_concat, hquote⟩
  | ident | kwFn | kwLet | kwTrue | kwFalse | kwIf | kwElse | kwReturn =>
    refine hends h.1.1 fun c hc ↦ ?_
    have hletter := h.1.2 c hc
    exact ⟨isBlank_eq_false_of_isLetter hletter, hletter, isDigit_eq_false_of_isLetter hletter⟩
  | _ =>
    simp only [IsLexeme, Kind.isWord, Bool.false_eq_true, if_false] at h
    subst h
    exact ⟨⟨_, rfl, by decide⟩, _, rfl, by decide⟩

theorem stops_nil (token : Token) : token.Stops [] := fun c hc ↦ by cases hc

/-- A character that makes an illegal token begins no other one. -/
theorem IsLexeme.head?_ne_of_illegal (h : token.IsLexeme) (hkind : token.kind ≠ .illegal)
    (hc : IsIllegal c) : token.raw.head? ≠ some c := by
  intro hhead
  obtain ⟨cs, hraw⟩ := List.head?_eq_some_iff.mp hhead
  have hnext := next_raw h token.stops_nil
  rw [hraw, List.cons_append, next_cons hc.1, lexeme_illegal hc] at hnext
  exact hkind (congrArg (Token.kind ∘ Prod.fst) hnext).symm

theorem IsLexeme.exists_illegal (h : token.IsLexeme) (hkind : token.kind = .illegal) :
    ∃ c, token.literal = c.toString ∧ isBlank c = false ∧ ∀ other : Token, other.IsLexeme →
      other.kind ≠ .illegal → other.raw.head? ≠ some c := by
  obtain ⟨kind, literal⟩ := token
  obtain rfl : kind = .illegal := hkind
  obtain ⟨c, hc, hliteral⟩ := h
  exact ⟨c, hliteral, hc.1, fun _ hother hne ↦ hother.head?_ne_of_illegal hne hc⟩

/-- The characters in front of the rest spell the token, which the rest does not make longer. A
string need not be closed where there is no rest. -/
structure Spelled (token : Token) (spelling rest : List Char) : Prop where
  lexeme : token.IsLexeme
  spelling : spelling = token.raw ∨
    token.kind = .string ∧ rest = [] ∧ spelling = '"' :: token.literal.toList
  stops : token.Stops rest

variable {spelling : List Char}

theorem Spelled.next_eq (h : token.Spelled spelling rest) :
    next (spelling ++ rest) = (token, rest) := by
  obtain ⟨hlexeme, rfl | ⟨hkind, rfl, rfl⟩, hstops⟩ := h
  · exact next_raw hlexeme hstops
  · obtain ⟨kind, literal⟩ := token
    obtain rfl : kind = .string := hkind
    obtain ⟨htake, hdrop⟩ := takeWhile_dropWhile_of_stop literal.toList []
      (p := (· != '"')) (fun c hc ↦ bne_iff_ne.mpr fun he ↦ hlexeme (he ▸ hc)) (by simp)
    rw [List.append_nil] at htake hdrop
    rw [List.append_nil, next_cons (by decide), lexeme_quote, htake, hdrop, String.ofList_toList]
    rfl

theorem Spelled.head (h : token.Spelled spelling rest) :
    ∃ c ∈ spelling.head?, token.kind.Outer c := by
  obtain ⟨hlexeme, rfl | ⟨hkind, -, rfl⟩, -⟩ := h
  · exact hlexeme.outer.1
  · rw [hkind]
    exact ⟨_, rfl, by decide⟩

theorem stops_iff : token.Stops rest ↔
    (token.kind.isWord = true → ∀ c ∈ rest.head?, isLetter c = false) ∧
      (token.kind = .int → ∀ c ∈ rest.head?, isDigit c = false) ∧
      (token.kind = .assign ∨ token.kind = .bang → rest.head? ≠ some '=') := by
  constructor
  · intro h
    exact ⟨fun hword c hc ↦ (h c hc).1 hword, fun hint c hc ↦ (h c hc).2.1 hint,
      fun hsign he ↦ (h '=' he).2.2 hsign rfl⟩
  · intro ⟨hword, hint, hsign⟩ c hc
    exact ⟨fun h ↦ hword h c hc, fun h ↦ hint h c hc, fun h he ↦ hsign h (he ▸ hc)⟩

variable {kind : Kind} {literal : String}

/-- A token that more text makes longer is a word, a number or one of the two signs. -/
theorem stops_of_fixed (hword : kind.isWord = false) (hkind : kind ∉ [.int, .assign, .bang])
    (rest : List Char) : Stops ⟨kind, literal⟩ rest := by
  simp only [List.mem_cons, List.not_mem_nil, or_false, not_or] at hkind
  rw [stops_iff, hword]
  exact ⟨nofun, fun h ↦ absurd h hkind.1, fun h ↦ absurd h (not_or.mpr hkind.2)⟩

theorem stops_of_sign (hkind : kind = .assign ∨ kind = .bang) (hrest : rest.head? ≠ some '=') :
    Stops ⟨kind, literal⟩ rest := by
  rw [stops_iff]
  rcases hkind with rfl | rfl <;> exact ⟨nofun, nofun, fun _ ↦ hrest⟩

theorem stops_of_word (hword : kind.isWord = true) (hrest : ∀ c ∈ rest.head?, isLetter c = false) :
    Stops ⟨kind, literal⟩ rest := by
  refine stops_iff.mpr ⟨fun _ ↦ hrest, fun h ↦ ?_, fun h ↦ ?_⟩
  · obtain rfl : kind = .int := h
    cases hword
  · obtain rfl | rfl : kind = .assign ∨ kind = .bang := h <;> cases hword

theorem stops_of_int (hrest : ∀ c ∈ rest.head?, isDigit c = false) : Stops ⟨.int, literal⟩ rest :=
  stops_iff.mpr ⟨fun h ↦ (Bool.false_ne_true h).elim, fun _ ↦ hrest, by simp⟩

theorem spelled_withEqualSign {short long : Token} (hshort : short.IsLexeme)
    (hlong : long.IsLexeme) (hraw : short.raw = [c]) (hraw' : long.raw = [c, '='])
    (hstops : rest.head? ≠ some '=' → short.Stops rest) (hstops' : ∀ rest, long.Stops rest) :
    ∃ spelling, spelling ++ (withEqualSign short long rest).2 = c :: rest ∧
      (withEqualSign short long rest).1.Spelled spelling (withEqualSign short long rest).2 := by
  by_cases hhead : rest.head? = some '='
  · obtain ⟨others, rfl⟩ := List.head?_eq_some_iff.mp hhead
    exact ⟨[c, '='], rfl, hlong, .inl hraw'.symm, hstops' others⟩
  · rw [withEqualSign_of_ne fun d hd he ↦ hhead (he ▸ hd)]
    exact ⟨[c], rfl, hshort, .inl hraw.symm, hstops hhead⟩

theorem kind_of_ofSymbol? (h : Kind.ofSymbol? c = some kind) :
    kind.isWord = false ∧ kind ∉ [.int, .assign, .bang] ∧ kind ≠ .string := by
  unfold Kind.ofSymbol? at h
  split at h <;> cases h <;> decide

theorem head_dropWhile {p : Char → Bool} (text : List Char) :
    ∀ c ∈ (text.dropWhile p).head?, p c = false := by
  have hhead := List.head?_dropWhile_not p text
  intro c hc
  rw [hc] at hhead
  simpa using hhead

/-- A text that does not begin with a blank is the spelling of its first token, and the rest. -/
theorem lexeme_spelled (h : isBlank c = false) (rest : List Char) : ∃ spelling,
    spelling ++ (lexeme c rest).2 = c :: rest ∧
      (lexeme c rest).1.Spelled spelling (lexeme c rest).2 := by
  have hlexeme : (lexeme c rest).1.IsLexeme := lexeme_isLexeme h
  revert hlexeme
  refine first_cases h ?equal ?bang ?quote ?symbol ?letter ?digit ?illegal
  case equal | bang =>
    intro _
    exact spelled_withEqualSign rfl rfl rfl rfl (stops_of_sign (by decide))
      (stops_of_fixed rfl (by decide))
  case quote =>
    intro hlexeme
    rw [lexeme_quote] at hlexeme ⊢
    have hsplit := List.takeWhile_append_dropWhile (p := (· != '"')) (l := rest)
    have hstops : ∀ behind, Stops ⟨.string, String.ofList (rest.takeWhile (· != '"'))⟩ behind :=
      stops_of_fixed rfl (by decide)
    cases hdrop : rest.dropWhile (· != '"') with
    | nil =>
      rw [hdrop, List.append_nil] at hsplit
      refine ⟨'"' :: rest, List.append_nil _, hlexeme, .inr ⟨rfl, rfl, ?_⟩, hstops _⟩
      rw [String.toList_ofList, hsplit]
    | cons quote behind =>
      have hquote := List.head?_dropWhile_not (· != '"') rest
      rw [hdrop] at hquote
      obtain rfl : quote = '"' := by simpa using hquote
      rw [hdrop] at hsplit
      refine ⟨_, ?_, hlexeme, .inl rfl, hstops _⟩
      simp [raw, hsplit]
  case symbol =>
    intro c kind hs hlexeme
    rw [lexeme_symbol hs] at hlexeme ⊢
    obtain ⟨hword, hkind, hstring⟩ := kind_of_ofSymbol? hs
    refine ⟨[c], rfl, hlexeme, .inl ?_, stops_of_fixed hword hkind _⟩
    rw [raw_of_ne_string hstring]
    simp
  case letter =>
    intro c hl hlexeme
    rw [lexeme_letter hl] at hlexeme ⊢
    have hword := ofWord_isWord (String.ofList (c :: rest.takeWhile isLetter))
    refine ⟨c :: rest.takeWhile isLetter, by simp, hlexeme, .inl ?_, ?_⟩
    · rw [raw_of_ne_string, String.toList_ofList]
      intro hk
      rw [show Kind.ofWord _ = .string from hk] at hword
      cases hword
    · exact stops_of_word hword (head_dropWhile rest)
  case digit =>
    intro c hd hlexeme
    rw [lexeme_digit hd] at hlexeme ⊢
    refine ⟨c :: rest.takeWhile isDigit, by simp, hlexeme, .inl ?_, ?_⟩
    · rw [raw_of_ne_string (by simp), String.toList_ofList]
    · exact stops_of_int (head_dropWhile rest)
  case illegal =>
    intro c hill hlexeme
    rw [lexeme_illegal hill] at hlexeme ⊢
    refine ⟨[c], rfl, hlexeme, .inl ?_, stops_of_fixed rfl (by decide) _⟩
    rw [raw_of_ne_string (by simp)]
    simp

/-- The calls of `next` skip blanks and go on for ever behind the end. -/
theorem nexts_blanks {blanks : List Char} (h : ∀ c ∈ blanks, isBlank c = true) (n : Nat)
    (text : List Char) : nexts n (blanks ++ text) = nexts n text := by
  cases n with
  | zero => rfl
  | succ n =>
    have hnext : next (blanks ++ text) = next text := by
      rw [next, List.dropWhile_append_of_pos h]
      rfl
    rw [nexts, hnext]
    rfl

theorem nexts_nil (n : Nat) : nexts n [] = List.replicate n eof := by
  induction n with
  | zero => rfl
  | succ n ih =>
    rw [List.replicate_succ, ← ih]
    rfl

end Token

end MonkeyLang
