import MonkeyLang.Proofs.Token.Spelled
import Mathlib.Data.List.Chain

/-!
Tokens that are written one behind the other. They are read back as they were written if and only if
blanks separate those neighbours of which the second would go on with the first.
-/

namespace MonkeyLang

namespace Token

variable {token : Token} {rest blanks : List Char}

/-- With nothing between them, the second token would make the first one longer. -/
def RunsInto (first second : Token) : Prop :=
  first.kind.isWord = true ∧ second.kind.isWord = true ∨
    first.kind = .int ∧ second.kind = .int ∨
    (first.kind = .assign ∨ first.kind = .bang) ∧ second.raw.head? = some '='

instance (first second : Token) : Decidable (first.RunsInto second) :=
  inferInstanceAs (Decidable (_ ∨ _))

/-- The tokens that scanning gives are just those that have a spelling. -/
theorem isLexeme_iff : token.IsLexeme ↔ ∃ text, token ∈ ofText text := by
  constructor
  · intro h
    have hnext := next_raw h token.stops_nil
    rw [List.append_nil] at hnext
    have hlen : (next token.raw).2.length < token.raw.length :=
      next_length_lt (by rw [hnext]; exact h.kind_ne_eof)
    rw [hnext] at hlen
    have hscans : Scans (String.ofList token.raw).toList [token] := by
      rw [String.toList_ofList]
      exact scans_nil.of_next hnext h.kind_ne_eof hlen
    exact ⟨String.ofList token.raw, hscans.ofText_eq ▸ List.mem_singleton_self token⟩
  · intro ⟨text, hm⟩
    exact takeTokens_isLexeme _ _ token hm

theorem stops_raw_iff {other : Token} (h : other.IsLexeme) (rest : List Char) :
    token.Stops (other.raw ++ rest) ↔ ¬ token.RunsInto other := by
  obtain ⟨c, hc, -, hletter, hdigit⟩ := h.outer.1
  have hhead : (other.raw ++ rest).head? = some c := by
    rw [List.head?_append, hc, Option.some_or]
  rw [stops_iff, RunsInto, hhead, hc]
  simp only [Option.mem_def, Option.some.injEq, forall_eq', hletter, hdigit, not_or, not_and,
    decide_eq_false_iff_not, Bool.not_eq_true, ne_eq]

theorem stops_blanks (hne : blanks ≠ []) (h : ∀ c ∈ blanks, isBlank c = true) (rest : List Char) :
    token.Stops (blanks ++ rest) := by
  intro c hc
  rw [List.head?_append, List.head?_eq_some_head hne, Option.some_or] at hc
  have hblank : isBlank c = true := h c (Option.some.inj hc ▸ List.head_mem hne)
  refine ⟨fun _ ↦ isLetter_eq_false_of_isBlank hblank, fun _ ↦ isDigit_eq_false_of_isBlank hblank,
    fun _ he ↦ ?_⟩
  subst he
  cases hblank

/-- A token that is found at the front of its spelling and more text is not made longer by that. -/
theorem IsLexeme.stops_of_next (h : token.IsLexeme)
    (hnext : (next (token.raw ++ rest)).1 = token) : token.Stops rest := by
  obtain ⟨c, hc, hblank, -⟩ := h.outer.1
  obtain ⟨cs, hraw⟩ := List.head?_eq_some_iff.mp hc
  rw [hraw, List.cons_append, next_cons hblank] at hnext
  obtain ⟨spelling, hsplit, hspelled⟩ := lexeme_spelled hblank (cs ++ rest)
  rw [← List.cons_append, ← hraw] at hsplit
  rw [hnext] at hspelled
  rcases hspelled.spelling with rfl | ⟨hkind, -⟩
  · have hrest := List.append_cancel_left hsplit
    exact hrest ▸ hspelled.stops
  · obtain ⟨kind, literal⟩ := token
    obtain rfl : kind = .string := hkind
    exact stops_of_fixed rfl (by decide) rest

namespace Scans

variable {text : List Char} {tokens others : List Token}

theorem unique (h : Scans text tokens) (h' : Scans text others) : tokens = others :=
  (h _ le_rfl).symm.trans (h' _ le_rfl)

theorem of_blanks (hblanks : ∀ c ∈ blanks, isBlank c = true) (h : Scans (blanks ++ text) tokens) :
    Scans text tokens := by
  have hscans : Scans text (takeTokens text.length text) := scans_takeTokens le_rfl
  exact (hscans.blanks hblanks).unique h ▸ hscans

/-- What scanning gives first, and what it goes on with. -/
theorem cons (h : Scans text (token :: others)) :
    (next text).1 = token ∧ Scans (next text).2 others := by
  have htake := h (text.length + 1) (Nat.le_succ _)
  rw [takeTokens_succ] at htake
  split at htake
  · cases htake
  · next hkind =>
    obtain ⟨hfirst, hothers⟩ := List.cons.inj htake
    have hscans : Scans (next text).2 (takeTokens text.length (next text).2) :=
      scans_takeTokens (next_length_lt hkind).le
    exact ⟨hfirst, hothers ▸ hscans⟩

theorem raw_iff (hlexeme : token.IsLexeme) (hblanks : ∀ c ∈ blanks, isBlank c = true) :
    Scans (token.raw ++ (blanks ++ text)) (token :: others) ↔
      token.Stops (blanks ++ text) ∧ Scans text others := by
  constructor
  · intro h
    obtain ⟨hfirst, hothers⟩ := h.cons
    have hstops := hlexeme.stops_of_next hfirst
    rw [next_raw hlexeme hstops] at hothers
    exact ⟨hstops, hothers.of_blanks hblanks⟩
  · intro ⟨hstops, h⟩
    have hnext := next_raw hlexeme hstops
    have hlen := next_length_lt (by rw [hnext]; exact hlexeme.kind_ne_eof)
    rw [hnext] at hlen
    exact (h.blanks hblanks).of_next hnext hlexeme.kind_ne_eof hlen

end Scans

/-- The text that spells tokens, each with blanks behind it. -/
def written (spaced : List (Token × List Char)) : List Char :=
  spaced.flatMap fun entry ↦ entry.1.raw ++ entry.2

/-- Blanks stand where neighbours would run together. -/
def Separated (spaced : List (Token × List Char)) : Prop :=
  spaced.IsChain fun entry other ↦ entry.1.RunsInto other.1 → entry.2 ≠ []

instance : DecidablePred Separated := fun spaced ↦
  inferInstanceAs (Decidable (spaced.IsChain _))

theorem stops_written_iff {spaced : List (Token × List Char)}
    (h : ∀ entry ∈ spaced, entry.1.IsLexeme) (hblanks : ∀ c ∈ blanks, isBlank c = true) :
    token.Stops (blanks ++ written spaced) ↔
      ∀ other ∈ spaced.head?, token.RunsInto other.1 → blanks ≠ [] := by
  by_cases hnone : blanks = []
  · subst hnone
    cases spaced with
    | nil => simp [written, stops_nil]
    | cons other others =>
      rw [written, List.flatMap_cons, List.nil_append, List.append_assoc,
        stops_raw_iff (h other List.mem_cons_self)]
      simp
  · exact iff_of_true (stops_blanks hnone hblanks _) fun _ _ _ ↦ hnone

theorem scans_written_iff {spaced : List (Token × List Char)}
    (h : ∀ entry ∈ spaced, entry.1.IsLexeme ∧ ∀ c ∈ entry.2, isBlank c = true) :
    Scans (written spaced) (spaced.map Prod.fst) ↔ Separated spaced := by
  induction spaced with
  | nil => exact iff_of_true scans_nil .nil
  | cons entry others ih =>
    obtain ⟨⟨hlexeme, hblanks⟩, hothers⟩ := List.forall_mem_cons.mp h
    have hstops : entry.1.Stops (entry.2 ++ written others) ↔ _ :=
      stops_written_iff (fun other hm ↦ (hothers other hm).1) hblanks
    rw [Separated, List.isChain_cons, ← hstops, ← Separated, ← ih hothers,
      ← Scans.raw_iff hlexeme hblanks, written, List.flatMap_cons, List.append_assoc]
    rfl

/-- Tokens that scanning can give are read back as they were written, blanks in front and between
them, if and only if blanks stand between all neighbours that would run together. -/
theorem scan_written_iff (front : List Char) (spaced : List (Token × List Char))
    (hfront : ∀ c ∈ front, isBlank c = true)
    (htokens : ∀ entry ∈ spaced, ∃ text, entry.1 ∈ ofText text)
    (hblanks : ∀ entry ∈ spaced, ∀ c ∈ entry.2, isBlank c = true) :
    scan (String.ofList (front ++ written spaced)) = spaced.map Prod.fst ++ [eof] ↔
      Separated spaced := by
  rw [← scans_written_iff fun entry hm ↦ ⟨isLexeme_iff.mpr (htokens entry hm), hblanks entry hm⟩]
  have htext : (String.ofList (front ++ written spaced)).toList = front ++ written spaced :=
    String.toList_ofList
  constructor
  · intro hscan
    have hscans : Scans (front ++ written spaced) (takeTokens _ _) := scans_takeTokens le_rfl
    rw [scan, List.append_cancel_right_eq, ofText, htext] at hscan
    rw [hscan] at hscans
    exact hscans.of_blanks hfront
  · intro hscans
    have hall : Scans (String.ofList (front ++ written spaced)).toList (spaced.map Prod.fst) := by
      rw [htext]
      exact hscans.blanks hfront
    rw [scan, hall.ofText_eq]

/-- Between the two signs there must be a blank, around a string there need not. -/
theorem scan_written_iff_signs :
    let spaced : List (Token × List Char) := [(⟨.kwLet, "let"⟩, []), (⟨.string, "x"⟩, []),
      (⟨.ident, "x"⟩, []), (⟨.bang, "!"⟩, ['\t', ' ']), (⟨.eq, "=="⟩, []), (⟨.assign, "="⟩, [])]
    (∀ entry ∈ spaced, ∃ text, entry.1 ∈ ofText text) ∧ Separated spaced ∧
      scan (String.ofList ([' '] ++ written spaced)) = spaced.map Prod.fst ++ [eof] := by
  intro spaced
  have htokens : ∀ entry ∈ spaced, entry.1 ∈ ofText "let\"x\"x! === " := by decide +kernel
  have hseparated : Separated spaced := by decide +kernel
  have hblanks : (spaced.all fun entry ↦ entry.2.all isBlank) = true := rfl
  simp only [List.all_eq_true] at hblanks
  have hscan := (scan_written_iff [' '] spaced (List.forall_mem_singleton.mpr rfl)
    (fun entry hm ↦ ⟨_, htokens entry hm⟩) hblanks).mpr hseparated
  exact ⟨fun entry hm ↦ ⟨_, htokens entry hm⟩, hseparated, hscan⟩

end Token

end MonkeyLang
