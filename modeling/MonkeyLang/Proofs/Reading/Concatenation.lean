import MonkeyLang.Proofs.Grammar.Exact
import MonkeyLang.Proofs.Grammar.Extension
import MonkeyLang.Proofs.Reading.Bound

/-!
Reading texts that are joined without anything between them. A text that ends with a semicolon and
closes the blocks it opens is read by itself, whatever follows.
-/

namespace MonkeyLang

open Reader

/-- A text that can be read, ends with a semicolon and has as many opening as closing braces. -/
structure Complete (text : String) : Prop where
  errors : (parse text).errors = []
  terminated : Terminated (Token.ofText text)
  braces : (Token.ofText text).countP (·.kind = .lbrace) =
    (Token.ofText text).countP (·.kind = .rbrace)

variable {tokens rest : List Token} {nodes : List Node}

/-- Statements are read up to the end in the same way with all bounds that are large enough. -/
theorem statementsUntil_eof (tokens : List Token) {bound count : Nat}
    (hbound : tokens.length ≤ bound) (hcount : tokens.length ≤ count) :
    ∃ rest, statementsUntil .eof (Reader.statement (Reader.expr bound)) count tokens =
      ⟨.ok (parseTokens tokens).statements, (parseTokens tokens).errors, rest⟩ := by
  have halike : Alike tokens.length 0
      (statementsUntil .eof (Reader.statement (Reader.expr bound)) count)
      (statementsUntil .eof (Reader.statement (Reader.expr tokens.length)) tokens.length) :=
    alike_statementsUntil hbound le_rfl hcount le_rfl
  obtain ⟨nodes, hok⟩ := statementsUntil_isOk .eof
    (Reader.statement (Reader.expr tokens.length)) tokens.length tokens
  rcases hread : statementsUntil .eof (Reader.statement (Reader.expr tokens.length))
    tokens.length tokens with ⟨outcome, dropped, rest⟩
  rw [hread] at hok
  obtain rfl := hok
  refine ⟨rest, (halike tokens le_rfl).1.trans ?_⟩
  rw [parseTokens, hread]
  rfl

theorem Derivation.length_nodes_le (d : Derivation (.statements nodes) tokens rest) :
    nodes.length ≤ tokens.length := by
  induction nodes generalizing tokens with
  | nil => exact Nat.zero_le _
  | cons node nodes ih =>
    cases d with
    | statements d e =>
      have hlen := d.length_le
      have hnodes := ih e
      simp only [Phrase.least] at hlen
      rw [List.length_cons]
      omega

/-- Tokens that are read in full, end with a semicolon and leave no block open are read by
themselves. -/
theorem parseTokens_append (hend : NoEnd tokens) (herrors : (parseTokens tokens).errors = [])
    (hterminated : Terminated tokens) (hbraces : braces tokens ≤ 0) (more : List Token) :
    (parseTokens (tokens ++ more)).statements =
        (parseTokens tokens).statements ++ (parseTokens more).statements ∧
      (parseTokens (tokens ++ more)).errors = (parseTokens more).errors := by
  obtain ⟨d⟩ := (parseTokens_iff_derivation hend _).mp ⟨herrors, rfl⟩
  cases d with
  | program d =>
    have hlen := d.length_nodes_le
    have hmore : more.length ≤ (tokens ++ more).length := by
      rw [List.length_append]
      omega
    have hcount : more.length ≤
        (tokens ++ more).length - (parseTokens tokens).statements.length := by
      rw [List.length_append]
      omega
    obtain ⟨rest, hread⟩ := statementsUntil_eof more hmore hcount
    have hjoined :=
      d.statementsUntil_closed more (fun _ ↦ hterminated) hbraces le_rfl hread
    rw [Nat.add_sub_cancel' (by rw [List.length_append]; omega)] at hjoined
    rw [parseTokens, hjoined]
    exact ⟨rfl, rfl⟩

namespace Complete

variable {text : String}

/-- A complete text is read by itself, whatever follows: its statements come first, and there are no
errors but those of the text that follows. -/
theorem parse_append (h : Complete text) (more : String) :
    (parse (text ++ more)).statements = (parse text).statements ++ (parse more).statements ∧
      (parse (text ++ more)).errors = (parse more).errors := by
  have hbraces : MonkeyLang.braces (Token.ofText text) = 0 := by
    rw [braces_eq_sub, h.braces, Int.sub_self]
  rw [parse, Token.ofText_append h.terminated]
  exact parseTokens_append (Token.ofText_noEnd text) h.errors h.terminated (Int.le_of_eq hbraces) _

end Complete

/-- Joined texts that are complete, but for the last one, have the statements of all of them and the
errors of the last one. -/
theorem parse_join {init : List String} (h : ∀ text ∈ init, Complete text) (last : String) :
    (parse (String.join (init ++ [last]))).statements =
        (init ++ [last]).flatMap (fun text ↦ (parse text).statements) ∧
      (parse (String.join (init ++ [last]))).errors = (parse last).errors := by
  induction init with
  | nil => simp
  | cons text others ih =>
    obtain ⟨htext, hothers⟩ := List.forall_mem_cons.mp h
    obtain ⟨hstatements, herrors⟩ := ih hothers
    rw [List.cons_append, String.join_cons, List.flatMap_cons, (htext.parse_append _).1,
      (htext.parse_append _).2, hstatements, herrors]
    exact ⟨rfl, rfl⟩

end MonkeyLang
