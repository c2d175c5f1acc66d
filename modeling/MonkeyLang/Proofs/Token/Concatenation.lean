import MonkeyLang.Proofs.Token.Scanning

/-!
Scanning texts that are joined without anything between them. A token in the first text may reach
into the second one only if it is the last of the first text; a semicolon never does.
-/

namespace MonkeyLang

/-- The last token is a semicolon. -/
def Terminated (tokens : List Token) : Prop := ∃ token ∈ tokens.getLast?, token.kind = .semicolon

instance : DecidablePred Terminated := fun tokens ↦
  inferInstanceAs (Decidable (∃ token ∈ tokens.getLast?, token.kind = .semicolon))

theorem not_terminated_nil : ¬ Terminated [] := by
  rintro ⟨token, ht, -⟩
  cases ht

theorem terminated_singleton {token : Token} : Terminated [token] ↔ token.kind = .semicolon := by
  constructor
  · rintro ⟨_, ⟨⟩, hk⟩
    exact hk
  · intro hk
    exact ⟨token, rfl, hk⟩

theorem Terminated.tail {token : Token} {tokens : List Token} (h : Terminated (token :: tokens))
    (hk : token.kind ≠ .semicolon) : Terminated tokens := by
  cases tokens with
  | nil => exact absurd (terminated_singleton.mp h) hk
  | cons => exact h

/-- Which token is the last one does not depend on what stands before. -/
theorem terminated_of_suffix {tokens others : List Token} (hsuffix : others <:+ tokens)
    (hne : others ≠ []) : Terminated tokens ↔ Terminated others := by
  obtain ⟨before, rfl⟩ := hsuffix
  rw [Terminated, Terminated, List.getLast?_append, List.getLast?_eq_some_getLast hne,
    Option.some_or]

variable {text : List Char} {p : Char → Bool}

theorem takeWhile_append_of_stopped (h : text.dropWhile p ≠ []) (more : List Char) :
    (text ++ more).takeWhile p = text.takeWhile p := by
  obtain ⟨c, others, hdrop⟩ := List.exists_cons_of_ne_nil h
  have hsplit := List.takeWhile_append_dropWhile (p := p) (l := text)
  have hlen : (text.takeWhile p).length ≠ text.length := by
    have hlength := congrArg List.length hsplit
    rw [List.length_append, hdrop, List.length_cons] at hlength
    omega
  rw [List.takeWhile_append, if_neg hlen]

theorem dropWhile_append_of_stopped (h : text.dropWhile p ≠ []) (more : List Char) :
    (text ++ more).dropWhile p = text.dropWhile p ++ more := by
  rw [List.dropWhile_append, if_neg (by simpa using h)]

namespace Token

variable {c : Char} {text rest : List Char} {token : Token} {tokens : List Token} {bound : Nat}

theorem withEqualSign_append {short long : Token} (h : rest ≠ []) (more : List Char) :
    withEqualSign short long (rest ++ more) =
      ((withEqualSign short long rest).1, (withEqualSign short long rest).2 ++ more) := by
  obtain ⟨d, others, rfl⟩ := List.exists_cons_of_ne_nil h
  by_cases hd : d = '='
  · subst hd
    rfl
  · have hne : ∀ others : List Char, ∀ e ∈ (d :: others).head?, e ≠ '=' := by
      rintro others e ⟨⟩
      exact hd
    rw [withEqualSign_of_ne (hne others), List.cons_append, withEqualSign_of_ne (hne _)]

/-- A token that ends before its text does stays the same in front of more text, and a token of one
character that begins no longer one does so anyway. -/
theorem lexeme_append (hblank : isBlank c = false)
    (h : (lexeme c rest).2 ≠ [] ∨ Kind.ofSymbol? c ≠ none) (more : List Char) :
    lexeme c (rest ++ more) = ((lexeme c rest).1, (lexeme c rest).2 ++ more) := by
  revert h
  refine first_cases hblank ?equal ?bang ?quote ?symbol ?letter ?digit ?illegal
  case equal =>
    intro h
    have hrest := h.resolve_right (by decide)
    exact withEqualSign_append (by rintro rfl; exact hrest rfl) more
  case bang =>
    intro h
    have hrest := h.resolve_right (by decide)
    exact withEqualSign_append (by rintro rfl; exact hrest rfl) more
  case quote =>
    intro h
    have hrest := h.resolve_right (by decide)
    rw [lexeme_quote] at hrest ⊢
    have hdrop : rest.dropWhile (· != '"') ≠ [] := by
      intro hnil
      rw [hnil] at hrest
      exact hrest rfl
    obtain ⟨quote, others, hcons⟩ := List.exists_cons_of_ne_nil hdrop
    rw [lexeme_quote, takeWhile_append_of_stopped hdrop, dropWhile_append_of_stopped hdrop, hcons]
    rfl
  case symbol =>
    intro c kind hs _
    rw [lexeme_symbol hs, lexeme_symbol hs]
  case letter =>
    intro c hl h
    have hrest := h.resolve_right (not_not_intro (ofSymbol?_eq_none_of_isLetter hl))
    rw [lexeme_letter hl] at hrest ⊢
    rw [lexeme_letter hl, takeWhile_append_of_stopped hrest, dropWhile_append_of_stopped hrest]
  case digit =>
    intro c hd h
    have hrest := h.resolve_right (not_not_intro (ofSymbol?_eq_none_of_isDigit hd))
    rw [lexeme_digit hd] at hrest ⊢
    rw [lexeme_digit hd, takeWhile_append_of_stopped hrest, dropWhile_append_of_stopped hrest]
  case illegal =>
    intro c hill _
    rw [lexeme_illegal hill, lexeme_illegal hill]

theorem lexeme_length_le (hblank : isBlank c = false) :
    (lexeme c rest).2.length ≤ rest.length := by
  refine first_cases hblank ?equal ?bang ?quote ?symbol ?letter ?digit ?illegal
  case equal | bang =>
    rcases withEqualSign_cases _ _ rest with ⟨-, he⟩ | ⟨-, he⟩
    · exact (congrArg List.length he).le
    · rw [he]
      exact Nat.le_succ _
  case quote =>
    rw [lexeme_quote, List.length_drop]
    exact (Nat.sub_le ..).trans (List.length_dropWhile_le ..)
  case symbol =>
    intro c kind hs
    rw [lexeme_symbol hs]
  case letter =>
    intro c hl
    rw [lexeme_letter hl]
    exact List.length_dropWhile_le ..
  case digit =>
    intro c hd
    rw [lexeme_digit hd]
    exact List.length_dropWhile_le ..
  case illegal =>
    intro c hill
    rw [lexeme_illegal hill]

/-- A semicolon is a token of one character. -/
theorem ofSymbol?_of_semicolon (hblank : isBlank c = false)
    (h : (lexeme c rest).1.kind = .semicolon) : Kind.ofSymbol? c ≠ none := by
  revert h
  refine first_cases hblank ?equal ?bang ?quote ?symbol ?letter ?digit ?illegal
  case equal | bang =>
    intro h
    rcases withEqualSign_cases _ _ rest with ⟨he, -⟩ | ⟨he, -⟩ <;>
      cases (congrArg Token.kind he).symm.trans h
  case quote =>
    intro h
    cases h
  case symbol =>
    intro c kind hs _
    rw [hs]
    exact Option.some_ne_none kind
  case letter =>
    intro c hl h
    have hword := ofWord_isWord (String.ofList (c :: rest.takeWhile isLetter))
    rw [lexeme_letter hl] at h
    rw [show Kind.ofWord _ = .semicolon from h] at hword
    cases hword
  case digit =>
    intro c hd h
    rw [lexeme_digit hd] at h
    cases h
  case illegal =>
    intro c hill h
    rw [lexeme_illegal hill] at h
    cases h

theorem isBlank_head_dropWhile (h : text.dropWhile isBlank = c :: rest) : isBlank c = false := by
  have hhead := List.head?_dropWhile_not isBlank text
  rw [h] at hhead
  simpa using hhead

theorem next_of_dropWhile (h : text.dropWhile isBlank = c :: rest) : next text = lexeme c rest := by
  rw [next, h]

theorem next_length_lt (h : (next text).1.kind ≠ .eof) : (next text).2.length < text.length := by
  cases hdrop : text.dropWhile isBlank with
  | nil => exact absurd (by rw [next, hdrop]; rfl) h
  | cons c rest =>
    have hlen := List.length_dropWhile_le isBlank text
    have hrest : (lexeme c rest).2.length ≤ rest.length :=
      lexeme_length_le (isBlank_head_dropWhile hdrop)
    rw [hdrop, List.length_cons] at hlen
    rw [next_of_dropWhile hdrop]
    omega

theorem next_append (h : (next text).1.kind ≠ .eof)
    (hend : (next text).2 ≠ [] ∨ (next text).1.kind = .semicolon) (more : List Char) :
    next (text ++ more) = ((next text).1, (next text).2 ++ more) := by
  cases hdrop : text.dropWhile isBlank with
  | nil => exact absurd (by rw [next, hdrop]; rfl) h
  | cons c rest =>
    have hblank := isBlank_head_dropWhile hdrop
    have hmore : (text ++ more).dropWhile isBlank = c :: (rest ++ more) := by
      rw [dropWhile_append_of_stopped (by simp [hdrop]), hdrop, List.cons_append]
    rw [next_of_dropWhile hdrop] at hend ⊢
    rw [next_of_dropWhile hmore]
    exact lexeme_append hblank (hend.imp_right (ofSymbol?_of_semicolon hblank)) more

/-- Scanning stops only where nothing but blanks is left. -/
theorem blank_of_next_eof (h : (next text).1.kind = .eof) : ∀ c ∈ text, isBlank c = true := by
  cases hdrop : text.dropWhile isBlank with
  | nil => exact List.dropWhile_eq_nil_iff.mp hdrop
  | cons c rest =>
    rw [next_of_dropWhile hdrop] at h
    exact absurd h (lexeme_isLexeme (isBlank_head_dropWhile hdrop)).kind_ne_eof

theorem takeTokens_succ (bound : Nat) (text : List Char) :
    takeTokens (bound + 1) text =
      if (next text).1.kind = .eof then []
      else (next text).1 :: takeTokens bound (next text).2 := by
  rw [takeTokens]
  split
  · next literal rest hnext => rw [hnext, if_pos rfl]
  · next token rest hne hnext =>
    rw [hnext, if_neg]
    intro hk
    rcases next_isLexeme text with ⟨he, -⟩ | hlex
    · rw [hnext] at he
      exact hne "" he
    · rw [hnext] at hlex
      exact hlex.kind_ne_eof hk

theorem Scans.blanks {blanks : List Char} (h : Scans text tokens)
    (hblanks : ∀ c ∈ blanks, isBlank c = true) : Scans (blanks ++ text) tokens := by
  induction blanks with
  | nil => exact h
  | cons c blanks ih =>
    obtain ⟨hc, hblanks⟩ := List.forall_mem_cons.mp hblanks
    exact (ih hblanks).blank hc

theorem scans_takeTokens (h : text.length ≤ bound) : Scans text (takeTokens bound text) := by
  induction bound generalizing text with
  | zero =>
    obtain rfl := List.length_eq_zero_iff.mp (Nat.le_zero.mp h)
    exact scans_nil
  | succ bound ih =>
    rw [takeTokens_succ]
    split
    · next hk =>
      have hscan := scans_nil.blanks (blank_of_next_eof hk)
      rwa [List.append_nil] at hscan
    · next hk =>
      have hlen := next_length_lt hk
      have hrest : Scans (next text).2 (takeTokens bound (next text).2) := ih (by omega)
      exact hrest.of_next rfl hk hlen

theorem blank_of_takeTokens_eq_nil (h : text.length ≤ bound) (hnil : takeTokens bound text = []) :
    ∀ c ∈ text, isBlank c = true := by
  cases bound with
  | zero =>
    obtain rfl := List.length_eq_zero_iff.mp (Nat.le_zero.mp h)
    exact fun c hc ↦ by cases hc
  | succ bound =>
    rw [takeTokens_succ] at hnil
    split at hnil
    · next hk => exact blank_of_next_eof hk
    · cases hnil

theorem ne_nil_of_takeTokens (h : takeTokens bound text ≠ []) : text ≠ [] := by
  rintro rfl
  cases bound <;> exact h rfl

/-- A text that ends with a semicolon, up to blanks, is scanned by itself whatever follows. -/
theorem scans_append {more : List Char} {others : List Token} (h : text.length ≤ bound)
    (hend : Terminated (takeTokens bound text)) (hmore : Scans more others) :
    Scans (text ++ more) (takeTokens bound text ++ others) := by
  induction bound generalizing text with
  | zero => exact absurd hend not_terminated_nil
  | succ bound ih =>
    rw [takeTokens_succ] at hend ⊢
    by_cases hk : (next text).1.kind = .eof
    · rw [if_pos hk] at hend
      exact absurd hend not_terminated_nil
    · rw [if_neg hk] at hend ⊢
      have hlen := next_length_lt hk
      have hlen' : ((next text).2 ++ more).length < (text ++ more).length := by
        rw [List.length_append, List.length_append]
        omega
      by_cases hrest : takeTokens bound (next text).2 = []
      · -- the token is the last one, so that it is the semicolon and only blanks are left
        rw [hrest] at hend ⊢
        have hblank := blank_of_takeTokens_eq_nil (by omega) hrest
        have hnext := next_append hk (.inr (terminated_singleton.mp hend)) more
        exact (hmore.blanks hblank).of_next hnext hk hlen'
      · have hend' := (terminated_of_suffix (List.suffix_cons ..) hrest).mp hend
        have hnext := next_append hk (.inl (ne_nil_of_takeTokens hrest)) more
        exact (ih (by omega) hend').of_next hnext hk hlen'

theorem ofText_append {text : String} (h : Terminated (ofText text)) (more : String) :
    ofText (text ++ more) = ofText text ++ ofText more := by
  refine Scans.ofText_eq ?_
  rw [String.toList_append]
  exact scans_append le_rfl h (scans_takeTokens le_rfl)

end Token

end MonkeyLang
