import MonkeyLang.Proofs.Grammar.Exact
import MonkeyLang.Proofs.Node.Canonical
import MonkeyLang.Proofs.Reading.Kept

/-!
The canonical text of a program reads back to the program, up to the tokens that it stores.
-/

namespace MonkeyLang

/-- The canonical text of a program is read without an error, as a program that differs from it in
its tokens only and has the same text. -/
def Node.ReadsBack (program : Node) : Prop :=
  (parse program.text).errors = [] ∧ (parse program.text).program.untoken = program.untoken ∧
    (parse program.text).program.text = program.text

theorem Node.Readable.readsBack {program : Node} (h : program.Readable .program) :
    program.ReadsBack := by
  obtain ⟨tokens, program', he, hspell, hd⟩ := h.spelled
  have hscan := hspell [] [] Token.fresh_nil Token.scans_nil
  rw [List.append_nil, List.append_nil] at hscan
  rw [← hscan.ofText_eq] at hd
  obtain ⟨herrors, hprogram⟩ :=
    (parseTokens_iff_derivation (Token.ofText_noEnd program.text) program').mpr hd
  have huntoken : (parse program.text).program.untoken = program.untoken := by
    rw [← he, ← hprogram, parse]
  exact ⟨herrors, huntoken, (parse_readable program.text).text_eq h huntoken⟩

/-- Every program that can be read is read back from its canonical text, and so is whatever reading
any text keeps. -/
theorem readsBack_of_readable :
    (∀ program : Node, program.Readable .program → program.ReadsBack) ∧
      ∀ text, (parse text).program.ReadsBack :=
  ⟨fun _ h ↦ h.readsBack, fun text ↦ (parse_readable text).readsBack⟩

/-- A function literal that is called, with an operator in front of an index of a call in its body,
and a conditional with an empty block behind a hash as an operand. -/
theorem readsBack_nested :
    let name : Node := .ident .eof "x"
    let body : Node := .block .eof [.exprStmt .eof name, .letStmt .eof name (.int .eof 7),
      .exprStmt .eof (.prefixOp .eof "!" (.index .eof (.call .eof name [name]) (.str .eof "=")))]
    let program : Node := .program [.exprStmt .eof (.call .eof (.fn .eof [name] body) []),
      .returnStmt .eof (.cond .eof (.infixOp .eof name "==" (.hash .eof [(name, name)]))
        (.block .eof []) none)]
    program.Readable .program ∧ program.ReadsBack := by
  intro name body program
  have hname : name.Readable .name := .name (by decide) (by decide)
  have hexpr : name.Readable .expression := .ident hname
  have hbody : body.Readable .block := by
    refine .block fun node hn ↦ ?_
    simp only [List.mem_cons, List.not_mem_nil, or_false] at hn
    rcases hn with rfl | rfl | rfl
    · exact .exprStmt hexpr
    · exact .letStmt hname (.int (by decide) (by decide))
    · refine .exprStmt (.prefixOp (by decide) ?_)
      refine .index (.call hexpr fun arg ha ↦ ?_) (.str (by decide))
      rwa [List.mem_singleton.mp ha]
  have hprogram : program.Readable .program := by
    refine .program fun node hn ↦ ?_
    simp only [List.mem_cons, List.not_mem_nil, or_false] at hn
    rcases hn with rfl | rfl
    · refine .exprStmt (.call (.fn (fun param hp ↦ ?_) hbody) fun arg ha ↦ by cases ha)
      rwa [List.mem_singleton.mp hp]
    · refine .returnStmt (.cond (.infixOp (by decide) hexpr (.hash (fun pair hp ↦ ?_)
        fun pair hp ↦ ?_)) (.block fun _ hn ↦ by cases hn))
      all_goals rwa [List.mem_singleton.mp hp]
  exact ⟨hprogram, readsBack_of_readable.1 program hprogram⟩

end MonkeyLang
