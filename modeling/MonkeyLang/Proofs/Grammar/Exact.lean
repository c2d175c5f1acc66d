import MonkeyLang.Proofs.Grammar.Sound
import MonkeyLang.Proofs.Grammar.Unique
import MonkeyLang.Proofs.Token.Lexeme
import MonkeyLang.Reader.Program

/-!
Reading a text drops no statement exactly where the grammar derives a program from its tokens, and
the program that is read is the one that is derived, by its only derivation.
-/

namespace MonkeyLang

open Reader

theorem Token.ofText_noEnd (text : String) : NoEnd (ofText text) :=
  fun token ht ↦ (takeTokens_isLexeme _ _ token ht).kind_ne_eof

theorem parseTokens_iff_derivation {tokens : List Token} (hend : NoEnd tokens) (node : Node) :
    (parseTokens tokens).errors = [] ∧ (parseTokens tokens).program = node ↔
      Nonempty (Derivation (.program node) tokens []) := by
  constructor
  · intro h
    obtain ⟨herrors, rfl⟩ := h
    obtain ⟨nodes, hok⟩ := statementsUntil_isOk .eof
      (Reader.statement (Reader.expr tokens.length)) tokens.length tokens
    rcases hread : statementsUntil .eof (Reader.statement (Reader.expr tokens.length))
      tokens.length tokens with ⟨outcome, dropped, rest⟩
    simp only [parseTokens, Parsed.program, hread] at hok herrors ⊢
    subst hok herrors
    obtain ⟨⟨d⟩, hfront⟩ := statements_sound (expr_sound _) le_rfl hend le_rfl hread
    obtain rfl := (hend.of_suffix d.suffix).eq_nil (hfront.elim id id)
    exact ⟨.program d⟩
  · intro h
    obtain ⟨d⟩ := h
    cases d with
    | program d =>
      have hreads := d.taken (.inl rfl) tokens.length tokens.length .eof le_rfl le_rfl (.inl rfl)
        (.inl rfl)
      simp only [Reads] at hreads
      simp [parseTokens, Parsed.program, hreads, Except.toOption]

end MonkeyLang
