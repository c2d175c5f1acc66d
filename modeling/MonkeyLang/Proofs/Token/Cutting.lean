import MonkeyLang.Proofs.Token.Spelled

/-!
How a text is cut into tokens and blanks. Every text can be cut so that nothing is lost and every
token is the longest one at its place; there is only one such cutting, and scanning lists its
tokens.
-/

namespace MonkeyLang

/-- A token as it stands in a text: the characters that spell it and the blanks behind them. -/
@[ext]
structure Piece where
  token : Token
  spelling : List Char
  blanks : List Char

def Piece.text (piece : Piece) : List Char := piece.spelling ++ piece.blanks

/-- The piece is right with regard to the text behind its spelling. -/
structure Piece.Leads (piece : Piece) (behind : List Char) : Prop where
  spelled : piece.token.Spelled piece.spelling behind
  blank : ∀ c ∈ piece.blanks, isBlank c = true

/-- Every piece is right with regard to what stands behind its spelling. -/
inductive Leading : List Piece → Prop
  | nil : Leading []
  | cons {piece : Piece} {others : List Piece} :
      piece.Leads (piece.blanks ++ others.flatMap Piece.text) → Leading others →
      Leading (piece :: others)

namespace Leading

variable {pieces others : List Piece} {piece : Piece}

theorem text_cons (piece : Piece) (others : List Piece) : (piece :: others).flatMap Piece.text =
    piece.spelling ++ (piece.blanks ++ others.flatMap Piece.text) := by
  rw [List.flatMap_cons, Piece.text, List.append_assoc]

theorem head (h : Leading (piece :: others)) :
    ∃ c ∈ ((piece :: others).flatMap Piece.text).head?, piece.token.kind.Outer c := by
  cases h with
  | cons hleads _ =>
    obtain ⟨c, hc, houter⟩ := hleads.spelled.head
    refine ⟨c, ?_, houter⟩
    rw [text_cons, List.head?_append, hc]
    rfl

theorem not_blank (h : Leading pieces) :
    ∀ c ∈ (pieces.flatMap Piece.text).head?, isBlank c = false := by
  intro c hc
  cases pieces with
  | nil => cases hc
  | cons piece others =>
    obtain ⟨d, hd, houter⟩ := h.head
    obtain rfl := Option.some.inj (hc.symm.trans hd)
    exact houter.1

theorem next_eq (h : Leading (piece :: others)) :
    Token.next ((piece :: others).flatMap Piece.text) =
      (piece.token, piece.blanks ++ others.flatMap Piece.text) := by
  cases h with
  | cons hleads _ =>
    rw [text_cons]
    exact hleads.spelled.next_eq

theorem scans (h : Leading pieces) :
    Token.Scans (pieces.flatMap Piece.text) (pieces.map Piece.token) := by
  induction h with
  | nil => exact Token.scans_nil
  | @cons piece others hleads hothers ih =>
    have hnext := (Leading.cons hleads hothers).next_eq
    have hkind := hleads.spelled.lexeme.kind_ne_eof
    refine (ih.blanks hleads.blank).of_next hnext hkind ?_
    have hlen := Token.next_length_lt (by rwa [hnext])
    rwa [hnext] at hlen

theorem nexts (h : Leading pieces) (n : Nat) :
    Token.nexts (pieces.length + n) (pieces.flatMap Piece.text) =
      pieces.map Piece.token ++ List.replicate n Token.eof := by
  induction h with
  | nil => exact (congrArg (Token.nexts · []) (Nat.zero_add n)).trans (Token.nexts_nil n)
  | @cons piece others hleads hothers ih =>
    rw [List.length_cons, Nat.add_right_comm, Token.nexts, (Leading.cons hleads hothers).next_eq,
      Token.nexts_blanks hleads.blank, ih]
    rfl

/-- Every text that does not begin with a blank is made of such pieces. -/
theorem exists_pieces (text : List Char) (h : ∀ c ∈ text.head?, isBlank c = false) :
    ∃ pieces, Leading pieces ∧ pieces.flatMap Piece.text = text := by
  -- by induction on the length, which every token makes shorter
  induction hn : text.length using Nat.strong_induction_on generalizing text with
  | h n ih =>
    cases text with
    | nil => exact ⟨[], .nil, rfl⟩
    | cons c rest =>
      have hblank := h c rfl
      obtain ⟨spelling, hsplit, hspelled⟩ := Token.lexeme_spelled hblank rest
      have hlen : (Token.lexeme c rest).2.length ≤ rest.length := Token.lexeme_length_le hblank
      generalize Token.lexeme c rest = cut at hsplit hspelled hlen
      obtain ⟨token, behind⟩ := cut
      dsimp only at hsplit hspelled hlen
      have hdrop := List.length_dropWhile_le isBlank behind
      rw [List.length_cons] at hn
      obtain ⟨others, hothers, htext⟩ := ih _ (by omega) (behind.dropWhile isBlank)
        (Token.head_dropWhile behind) rfl
      have hbehind : behind.takeWhile isBlank ++ others.flatMap Piece.text = behind := by
        rw [htext, List.takeWhile_append_dropWhile]
      refine ⟨⟨token, spelling, behind.takeWhile isBlank⟩ :: others, .cons ⟨?_, ?_⟩ hothers, ?_⟩
      · rwa [hbehind]
      · exact fun c hc ↦ List.mem_takeWhile_imp hc
      · rw [text_cons, hbehind, hsplit]

/-- A text is made of such pieces in one way only. -/
theorem unique {pieces' : List Piece} (h : Leading pieces) (h' : Leading pieces')
    (htext : pieces.flatMap Piece.text = pieces'.flatMap Piece.text) : pieces = pieces' := by
  induction h generalizing pieces' with
  | nil =>
    cases pieces' with
    | nil => rfl
    | cons piece others =>
      obtain ⟨c, hc, -⟩ := h'.head
      rw [← htext] at hc
      cases hc
  | @cons piece others hleads hothers ih =>
    cases pieces' with
    | nil =>
      obtain ⟨c, hc, -⟩ := (Leading.cons hleads hothers).head
      rw [htext] at hc
      cases hc
    | cons piece' others' =>
      have hnext := (Leading.cons hleads hothers).next_eq
      rw [htext, h'.next_eq, Prod.mk.injEq] at hnext
      obtain ⟨htoken, hbehind⟩ := hnext
      rw [text_cons, text_cons, hbehind] at htext
      have hspelling := List.append_cancel_right htext
      cases h' with
      | cons hleads' hothers' =>
        obtain ⟨hblanks, hrest⟩ :=
          takeWhile_dropWhile_of_stop _ _ hleads.blank hothers.not_blank
        obtain ⟨hblanks', hrest'⟩ :=
          takeWhile_dropWhile_of_stop _ _ hleads'.blank hothers'.not_blank
        rw [hbehind] at hblanks' hrest'
        rw [ih hothers' (hrest.symm.trans hrest'),
          Piece.ext htoken.symm hspelling (hblanks.symm.trans hblanks')]

theorem of_append (h : Leading (others ++ pieces)) : Leading pieces := by
  induction others with
  | nil => exact h
  | cons piece others ih =>
    cases h with
    | cons _ hothers => exact ih hothers

theorem leads (h : Leading (others ++ piece :: pieces)) :
    piece.Leads (piece.blanks ++ pieces.flatMap Piece.text) := by
  cases h.of_append with
  | cons hleads _ => exact hleads

theorem of_leads (h : ∀ before piece behind, pieces = before ++ piece :: behind →
    piece.Leads (piece.blanks ++ behind.flatMap Piece.text)) : Leading pieces := by
  induction pieces with
  | nil => exact .nil
  | cons piece others ih =>
    refine .cons (h [] piece others rfl) (ih fun before inner behind hsplit ↦ ?_)
    exact h (piece :: before) inner behind (congrArg (piece :: ·) hsplit)

/-- The character in front of a piece does not belong to its class. If no blank stands between them,
the piece before would go on with this one. -/
theorem apart {front : List Char} (hfront : ∀ c ∈ front, isBlank c = true)
    (h : Leading (others ++ piece :: pieces)) :
    ∀ c ∈ (front ++ others.flatMap Piece.text).getLast?,
      (piece.token.kind.isWord = true → isLetter c = false) ∧
        (piece.token.kind = .int → isDigit c = false) := by
  intro c hc
  rcases List.eq_nil_or_concat others with rfl | ⟨before, last, rfl⟩
  · rw [List.flatMap_nil, List.append_nil] at hc
    have hblank := hfront c (List.mem_of_getLast? hc)
    exact ⟨fun _ ↦ isLetter_eq_false_of_isBlank hblank, fun _ ↦ isDigit_eq_false_of_isBlank hblank⟩
  · rw [List.concat_eq_append] at h hc
    have hlast : Leading (before ++ last :: piece :: pieces) := by
      rwa [List.append_assoc] at h
    obtain ⟨⟨hlexeme, hspelling, hstops⟩, hblanks⟩ := hlast.leads
    rw [List.flatMap_append, List.flatMap_singleton, Piece.text, ← List.append_assoc,
      ← List.append_assoc, List.getLast?_append] at hc
    by_cases hnone : last.blanks = []
    · -- the two tokens touch, so the first one would have taken in what continues it
      obtain ⟨d, hd, -, hletter, hdigit⟩ := h.of_append.head
      rw [hnone, List.nil_append] at hspelling hstops
      obtain ⟨e, he, -, hletter', hdigit'⟩ := hlexeme.outer.2
      have hraw : last.spelling = last.token.raw := by
        refine hspelling.resolve_right fun hopen ↦ ?_
        rw [hopen.2.1] at hd
        cases hd
      rw [hnone, List.getLast?_nil, Option.none_or, List.getLast?_append, hraw, he] at hc
      obtain rfl : e = c := Option.some.inj hc
      refine ⟨fun hword ↦ ?_, fun hint ↦ ?_⟩
      · rw [hletter']
        by_contra hlong
        rw [(hstops d hd).1 (Bool.not_eq_false _ ▸ hlong), hword] at hletter
        cases hletter
      · rw [hdigit', decide_eq_false_iff_not]
        intro hlong
        rw [(hstops d hd).2.1 hlong, hint] at hdigit
        cases hdigit
    · have hblank : isBlank c = true := by
        rw [List.getLast?_eq_some_getLast hnone, Option.some_or] at hc
        exact hblanks c (Option.some.inj hc ▸ List.getLast_mem hnone)
      exact ⟨fun _ ↦ isLetter_eq_false_of_isBlank hblank,
        fun _ ↦ isDigit_eq_false_of_isBlank hblank⟩

end Leading

/-- No character of the class stands next to a stretch of a text, neither before nor behind it. -/
def Maximal (p : Char → Bool) (before behind : List Char) : Prop :=
  (∀ c ∈ before.getLast?, p c = false) ∧ ∀ c ∈ behind.head?, p c = false

/-- The piece is right in its place in a text. -/
structure Piece.Fits (piece : Piece) (before behind : List Char) : Prop where
  lexeme : piece.token.IsLexeme
  /-- Only at the end of the text may the closing quote of a string be missing. -/
  spelling : piece.spelling = piece.token.raw ∨ piece.token.kind = .string ∧ behind = [] ∧
    piece.spelling = '"' :: piece.token.literal.toList
  blank : ∀ c ∈ piece.blanks, isBlank c = true
  word : piece.token.kind.isWord = true → Maximal isLetter before behind
  reserved : piece.token.kind.isWord = true → ∀ {word kind}, (word, kind) ∈ Kind.reserved →
    (piece.token.kind = kind ↔ piece.token.literal = word)
  int : piece.token.kind = .int → Maximal isDigit before behind
  sign : piece.token.kind = .assign ∨ piece.token.kind = .bang → behind.head? ≠ some '='
  illegal : piece.token.kind = .illegal → ∃ c, piece.token.literal = c.toString ∧
    isBlank c = false ∧ ∀ other : Token, other.IsLexeme → other.kind ≠ .illegal →
      other.raw.head? ≠ some c

/-- A text in pieces, with the blanks in front of them. -/
@[ext]
structure Cutting where
  front : List Char
  pieces : List Piece

namespace Cutting

def text (cutting : Cutting) : List Char :=
  cutting.front ++ cutting.pieces.flatMap Piece.text

def tokens (cutting : Cutting) : List Token := cutting.pieces.map Piece.token

/-- Every piece has the longest token there is in its place. -/
structure Longest (cutting : Cutting) : Prop where
  front : ∀ c ∈ cutting.front, isBlank c = true
  fits : ∀ before piece behind, cutting.pieces = before ++ piece :: behind →
    piece.Fits (cutting.front ++ before.flatMap Piece.text)
      (piece.blanks ++ behind.flatMap Piece.text)

theorem Longest.leading {cutting : Cutting} (h : cutting.Longest) : Leading cutting.pieces := by
  refine .of_leads fun before piece behind hsplit ↦ ?_
  have hfits := h.fits before piece behind hsplit
  exact ⟨⟨hfits.lexeme, hfits.spelling, Token.stops_iff.mpr
    ⟨fun hk ↦ (hfits.word hk).2, fun hk ↦ (hfits.int hk).2, hfits.sign⟩⟩, hfits.blank⟩

theorem longest_of_leading {front : List Char} {pieces : List Piece}
    (hfront : ∀ c ∈ front, isBlank c = true) (h : Leading pieces) : Longest ⟨front, pieces⟩ where
  front := hfront
  fits := by
    intro before piece behind hsplit
    obtain rfl : pieces = before ++ piece :: behind := hsplit
    have hleads := h.leads
    have hlexeme : piece.token.IsLexeme := hleads.spelled.lexeme
    obtain ⟨-, hspelling, hstops⟩ := hleads.spelled
    obtain ⟨hword, hint, hsign⟩ := Token.stops_iff.mp hstops
    have hapart := h.apart hfront
    exact {
      lexeme := hlexeme
      spelling := hspelling
      blank := hleads.blank
      word := fun hk ↦ ⟨fun c hc ↦ (hapart c hc).1 hk, hword hk⟩
      reserved := fun hk _ _ ↦ hlexeme.reserved_iff hk
      int := fun hk ↦ ⟨fun c hc ↦ (hapart c hc).2 hk, hint hk⟩
      sign := hsign
      illegal := fun hk ↦ hlexeme.exists_illegal hk }

theorem exists_longest (text : List Char) :
    ∃ cutting : Cutting, cutting.Longest ∧ cutting.text = text := by
  obtain ⟨pieces, hleading, htext⟩ := Leading.exists_pieces (text.dropWhile isBlank)
    (Token.head_dropWhile text)
  refine ⟨⟨text.takeWhile isBlank, pieces⟩, longest_of_leading ?_ hleading, ?_⟩
  · exact fun c hc ↦ List.mem_takeWhile_imp hc
  · rw [Cutting.text, htext, List.takeWhile_append_dropWhile]

namespace Longest

variable {cutting other : Cutting}

theorem unique (h : cutting.Longest) (h' : other.Longest) (htext : cutting.text = other.text) :
    cutting = other := by
  obtain ⟨hfront, hpieces⟩ :=
    takeWhile_dropWhile_of_stop _ _ h.front h.leading.not_blank
  obtain ⟨hfront', hpieces'⟩ :=
    takeWhile_dropWhile_of_stop _ _ h'.front h'.leading.not_blank
  rw [Cutting.text, Cutting.text] at htext
  rw [htext] at hfront hpieces
  exact Cutting.ext (hfront.symm.trans hfront')
    (h.leading.unique h'.leading (hpieces.symm.trans hpieces'))

theorem scans (h : cutting.Longest) : Token.Scans cutting.text cutting.tokens :=
  h.leading.scans.blanks h.front

theorem nexts (h : cutting.Longest) (n : Nat) :
    Token.nexts (cutting.tokens.length + n) cutting.text =
      cutting.tokens ++ List.replicate n Token.eof := by
  rw [tokens, List.length_map, text, Token.nexts_blanks h.front, h.leading.nexts]

theorem kind_ne_eof (h : cutting.Longest) : ∀ token ∈ cutting.tokens, token.kind ≠ .eof := by
  intro token ht
  obtain ⟨piece, hm, rfl⟩ := List.mem_map.mp ht
  obtain ⟨before, behind, hsplit⟩ := List.append_of_mem hm
  exact (h.fits before piece behind hsplit).lexeme.kind_ne_eof

end Longest

end Cutting

/-- Every text has one cutting with the longest tokens. Scanning lists its tokens and then the end,
which every further call gives again. -/
theorem scan_cutting (text : String) : ∃ cutting : Cutting,
    cutting.Longest ∧ cutting.text = text.toList ∧
      (∀ other : Cutting, other.Longest → other.text = text.toList → other = cutting) ∧
      Token.scan text = cutting.tokens ++ [Token.eof] ∧
      (∀ token ∈ cutting.tokens, token.kind ≠ .eof) ∧
      ∀ n, Token.nexts (cutting.tokens.length + n) text.toList =
        cutting.tokens ++ List.replicate n Token.eof := by
  obtain ⟨cutting, hlongest, htext⟩ := Cutting.exists_longest text.toList
  refine ⟨cutting, hlongest, htext, fun other hother htext' ↦ ?_, ?_, hlongest.kind_ne_eof, ?_⟩
  · exact hother.unique hlongest (htext'.trans htext.symm)
  · have hscans : Token.Scans text.toList cutting.tokens := htext ▸ hlongest.scans
    rw [Token.scan, hscans.ofText_eq]
  · rw [← htext]
    exact hlongest.nexts

/-- A string that is not closed reaches to the end of the text, blanks and all. -/
example : Token.scan "a!==b1 \"x y " = [⟨.ident, "a"⟩, ⟨.notEq, "!="⟩, ⟨.assign, "="⟩,
    ⟨.ident, "b"⟩, ⟨.int, "1"⟩, ⟨.string, "x y "⟩, Token.eof] := by decide +kernel

end MonkeyLang
