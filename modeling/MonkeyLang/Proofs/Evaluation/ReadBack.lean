import MonkeyLang.Proofs.Evaluation.Hashes
import MonkeyLang.Proofs.Evaluation.InTurn
import MonkeyLang.Proofs.Evaluation.Rules
import MonkeyLang.Proofs.RoundTrip
import MonkeyLang.Proofs.Value.Shape
import MonkeyLang.Proofs.Word

/-!
The text in which data is shown is a source text for it: to evaluate that text gives a value that
differs from the one shown in its identity only.
-/

namespace MonkeyLang

open Token

/-- To evaluate the node creates a value of this shape, and does nothing else. -/
def Node.Remakes (expr : Node) (value : Value) : Prop :=
  ∀ registry apply env machine, ∃ other created,
    Evaluation.expr registry apply env expr machine =
      .ok other { machine with created := created } ∧ other.shape = value.shape

/-- The text of the value spells an expression that makes the value again. -/
def Value.Spelled (value : Value) : Prop :=
  ∃ tokens expr, Spells value.inspect tokens ∧
    (∀ others, Nonempty (Derivation (.expr .equality expr) (tokens ++ others) others)) ∧
    expr.Remakes value

namespace Value

open Node

section Plain

variable {expr body : Node} {id : Nat} {env : Address} {token : Token} {params : List Node}

theorem remakes_integer {n : Int} (h : expr.untoken = .int .eof n) : expr.Remakes (.integer n) := by
  cases expr <;> simp only [untoken, reduceCtorEq, Node.int.injEq, true_and] at h
  subst h
  exact fun _ _ _ machine ↦ ⟨_, machine.created, rfl, rfl⟩

theorem remakes_boolean {b : Bool} (h : expr.untoken = .bool .eof b) :
    expr.Remakes (.boolean b) := by
  cases expr <;> simp only [untoken, reduceCtorEq, Node.bool.injEq, true_and] at h
  subst h
  exact fun _ _ _ machine ↦ ⟨_, machine.created, rfl, rfl⟩

theorem remakes_function (h : expr.untoken = (Node.fn token params body).untoken) :
    expr.Remakes (.function id params body env) := by
  cases expr <;> simp only [untoken, reduceCtorEq, Node.fn.injEq, true_and] at h
  obtain ⟨hparams, hbody⟩ := h
  refine fun _ _ _ machine ↦ ⟨_, machine.created + 1, rfl, ?_⟩
  rw [shape, shape, hparams, hbody]

theorem remakes_negative {n : Int} (h : expr.Remakes (.integer n)) (hn : Word.IsSigned (-n)) :
    (Node.prefixOp token "-" expr).Remakes (.integer (-n)) := by
  intro registry apply env machine
  obtain ⟨other, created, hexpr, hshape⟩ := h registry apply env machine
  cases other <;> simp only [shape, reduceCtorEq, Value.integer.injEq] at hshape
  refine ⟨.integer (-n), created, ?_, rfl⟩
  rw [hshape] at hexpr
  rw [Evaluation.expr, Run.run_operand hexpr rfl]
  simp only [applyPrefix, Word.wrap_of_isSigned hn]
  rfl

theorem spelled_of_node {value : Value} {node : Node} (h : node.SpelledExpr)
    (htext : node.text = value.inspect)
    (hmakes : ∀ {expr : Node}, expr.untoken = node.untoken → expr.Remakes value) :
    value.Spelled := by
  obtain ⟨tokens, expr, he, hspell, _, hd⟩ := h
  exact ⟨tokens, expr, htext ▸ hspell, fun others ↦ (hd others).expr .equality, hmakes he⟩

theorem spelled_boolean (b : Bool) : (boolean b).Spelled :=
  have hspelled : (Node.bool .eof b).SpelledExpr := spelledExpr_bool
  spelled_of_node hspelled rfl remakes_boolean

theorem spelled_function (h : (Node.fn token params body).Readable .expression) :
    (function id params body env).Spelled :=
  spelled_of_node h.spelled rfl remakes_function

/-- A negative number comes back through the operator in front of its absolute value. -/
theorem spelled_integer {n : Int} (hlower : -Reader.maxInteger ≤ n)
    (hupper : n ≤ Reader.maxInteger) : (integer n).Spelled := by
  rcases Int.lt_or_le n 0 with hneg | hpos
  · obtain ⟨k, rfl⟩ := Int.eq_negSucc_of_lt_zero hneg
    have habs : (Node.int .eof (k + 1 : Nat)).SpelledExpr := spelledExpr_int (by omega) (by omega)
    obtain ⟨tokens, expr, he, hspell, _, hd⟩ := habs
    refine ⟨⟨.minus, "-"⟩ :: tokens, .prefixOp ⟨.minus, "-"⟩ "-" expr, ?_, fun others ↦ ?_, ?_⟩
    · have hminus : Closes "-" [⟨.minus, "-"⟩] := closes_symbol (c := '-') rfl
      exact hminus.append_spells hspell
    · obtain ⟨d⟩ := (hd others).expr .unary
      have hprefix : Derivation (.expr .unary (.prefixOp ⟨.minus, "-"⟩ "-" expr)) _ _ :=
        .prefixOp (.inr rfl) d
      exact hprefix.loosen (by decide)
    · refine remakes_negative (remakes_integer he) ?_
      unfold Reader.maxInteger at hlower
      unfold Word.IsSigned
      omega
  · have hspelled : (Node.int .eof n).SpelledExpr := spelledExpr_int hpos hupper
    exact spelled_of_node hspelled rfl remakes_integer

end Plain

section Composite

variable {id : Nat} {elements : List Value} {entries : List (HashKey × Value × Value)}

/-- Expressions that make values again are evaluated in turn. -/
theorem exprs_remake {exprs : List Node} (hproper : ∀ element ∈ elements, element.isError = false)
    (h : List.Forall₂ (fun element expr ↦ Node.Remakes expr element) elements exprs)
    (registry : Registry) (apply : Value → List Value → Run Value) (env : Address)
    (machine : Machine) : ∃ others created,
      Evaluation.exprs registry apply env exprs machine =
        .ok (.ok others) { machine with created := created } ∧
      others.map shape = elements.map shape := by
  induction h generalizing machine with
  | nil => exact ⟨[], machine.created, rfl, rfl⟩
  | cons hfirst _ ih =>
    obtain ⟨hproper, hothers⟩ := List.forall_mem_cons.mp hproper
    obtain ⟨other, created, hexpr, hshape⟩ := hfirst registry apply env machine
    obtain ⟨others, created', hexprs, hshapes⟩ := ih hothers { machine with created := created }
    refine ⟨other :: others, created', ?_, ?_⟩
    · rw [Evaluation.exprs, Run.run_operand hexpr (isError_of_shape hshape ▸ hproper),
        Run.run_bind, hexprs]
      rfl
    · rw [List.map_cons, List.map_cons, hshape, hshapes]

theorem spelled_array (hproper : ∀ element ∈ elements, element.isError = false)
    (h : ∀ element ∈ elements, element.Spelled) : (array id elements).Spelled := by
  have hvalues : ∀ element ∈ elements, ∃ tokens expr, Node.Remakes expr element ∧
      Spells element.inspect tokens ∧ ∀ others,
        Nonempty (Derivation (.item .value (.value expr)) (tokens ++ others) others) := by
    intro element hm
    obtain ⟨tokens, expr, hspell, hd, hmakes⟩ := h element hm
    refine ⟨tokens, expr, hmakes, hspell, fun others ↦ ?_⟩
    obtain ⟨d⟩ := hd others
    exact ⟨.value d⟩
  obtain ⟨tokens, exprs, hexprs, hclose, hd⟩ := list_spelled
    (show Kind.ofSymbol? ']' = some Bracket.square.close from rfl) rfl hvalues
  refine ⟨⟨.lbracket, "["⟩ :: tokens, .array ⟨.lbracket, "["⟩ exprs, ?_, fun others ↦ ?_, ?_⟩
  · rw [inspect, String.append_assoc, inspectAll_eq_map]
    exact (closes_lbracket.append hclose).spells
  · obtain ⟨d⟩ := hd others
    exact (Trailed.of_atom (.array rfl d)).expr .equality
  · intro registry apply env machine
    obtain ⟨others, created, hothers, hshapes⟩ :=
      exprs_remake hproper hexprs registry apply env machine
    refine ⟨.array created others, created + 1, ?_, ?_⟩
    · rw [Evaluation.expr, Run.run_bind, hothers]
      rfl
    · rw [shape, shape, shapes_eq_map, shapes_eq_map, hshapes]

/-- The pair of nodes makes the key and the value of the entry again. -/
def RemakesEntry (entry : HashKey × Value × Value) (pair : Node × Node) : Prop :=
  pair.1.Remakes entry.2.1 ∧ pair.2.Remakes entry.2.2

theorem tabulates_remade {pairs : List (Node × Node)}
    (hown : ∀ entry ∈ entries, entry.2.1.hashKey? = some entry.1)
    (hproper : ∀ entry ∈ entries, entry.2.2.isError = false)
    (h : List.Forall₂ RemakesEntry entries pairs)
    (registry : Registry) (apply : Value → List Value → Run Value) (env : Address)
    (machine : Machine) : ∃ others created,
      Evaluation.Tabulates registry apply env pairs others machine
        { machine with created := created } ∧
      entryShapes others = entryShapes entries := by
  induction h generalizing machine with
  | nil => exact ⟨[], machine.created, .nil, rfl⟩
  | @cons entry pair _ _ hfirst _ ih =>
    obtain ⟨k, key, value⟩ := entry
    obtain ⟨hown, howns⟩ := List.forall_mem_cons.mp hown
    obtain ⟨hproper, hpropers⟩ := List.forall_mem_cons.mp hproper
    obtain ⟨key', created, hkey, hkeyShape⟩ := hfirst.1 registry apply env machine
    obtain ⟨value', created', hvalue, hvalueShape⟩ :=
      hfirst.2 registry apply env { machine with created := created }
    obtain ⟨others, created'', hothers, hshapes⟩ :=
      ih howns hpropers { machine with created := created' }
    refine ⟨(k, key', value') :: others, created'', ?_, ?_⟩
    · exact .cons hkey (hashKey?_of_shape hkeyShape ▸ hown) hvalue
        (isError_of_shape hvalueShape ▸ hproper) hothers
    · rw [entryShapes, entryShapes, hkeyShape, hvalueShape, hshapes]

theorem spelled_hash (hkeyed : Keyed entries)
    (hproper : ∀ entry ∈ entries, entry.2.2.isError = false)
    (hkeys : ∀ entry ∈ entries, entry.2.1.Spelled)
    (hvalues : ∀ entry ∈ entries, entry.2.2.Spelled) : (hash id entries).Spelled := by
  have hpairs : ∀ entry ∈ entries, ∃ tokens pair, RemakesEntry entry pair ∧
      Spells (entryText entry) tokens ∧ ∀ others,
        Nonempty (Derivation (.item .pair (.ofPair pair)) (tokens ++ others) others) := by
    intro entry hm
    obtain ⟨tokens, key, hspell, hd, hkey⟩ := hkeys entry hm
    obtain ⟨tokens', value, hspell', hd', hvalue⟩ := hvalues entry hm
    refine ⟨_, (key, value), ⟨hkey, hvalue⟩, spells_pair hspell hspell', fun others ↦ ?_⟩
    obtain ⟨d⟩ := hd (⟨.colon, ":"⟩ :: (tokens' ++ others))
    obtain ⟨d'⟩ := hd' others
    simp only [List.append_assoc, List.singleton_append]
    exact ⟨.pair rfl d d'⟩
  obtain ⟨tokens, pairs, hremade, hclose, hd⟩ := list_spelled
    (show Kind.ofSymbol? '}' = some Bracket.curly.close from rfl) rfl hpairs
  refine ⟨⟨.lbrace, "\x7b"⟩ :: tokens, .hash ⟨.lbrace, "\x7b"⟩ pairs, ?_, fun others ↦ ?_, ?_⟩
  · rw [inspect, String.append_assoc, inspectEntries_eq_map]
    exact (closes_lbrace.append hclose).spells
  · obtain ⟨d⟩ := hd others
    exact (Trailed.of_atom (.hash rfl d)).expr .equality
  · intro registry apply env machine
    obtain ⟨others, created, hothers, hshapes⟩ :=
      tabulates_remade hkeyed.own hproper hremade registry apply env machine
    obtain ⟨table, htable, -, hexpr⟩ := hothers.expr_eq ⟨.lbrace, "\x7b"⟩
    -- no key comes up twice, so the pairs are put into the table one behind the other
    have hsame : others.map Prod.fst = entries.map Prod.fst := by
      have hmap := congrArg (List.map Prod.fst) hshapes
      simpa [entryShapes_eq_map, Function.comp_def] using hmap
    have hlisted : OrderedMap.Lists others others := .of_nodup (hsame ▸ hkeyed.distinct)
    obtain rfl := hlisted.unique htable
    refine ⟨.hash created others, created + 1, hexpr, ?_⟩
    rw [shape, shape, hshapes]

end Composite

theorem Legible.spelled {value : Value} (h : value.Legible) : value.Spelled := by
  induction h with
  | integer hlower hupper => exact spelled_integer hlower hupper
  | boolean => exact spelled_boolean _
  | array helements ih => exact spelled_array (fun element hm ↦ (helements element hm).isError) ih
  | hash hkeyed _ hvalues ihkeys ihvalues =>
    exact spelled_hash hkeyed (fun entry hm ↦ (hvalues entry hm).isError) ihkeys ihvalues
  | @function _ text _ _ _ _ hm =>
    obtain ⟨place, hread⟩ := (parse_readable text).of_nested hm
    exact spelled_function hread.of_fn

end Value

/-- The text is read as one expression. -/
theorem parse_of_spells {text : String} {tokens : List Token} {expr : Node}
    (hspell : Spells text tokens)
    (hd : ∀ others, Nonempty (Derivation (.expr .equality expr) (tokens ++ others) others)) :
    ∃ start, (parse text).errors = [] ∧ (parse text).program = .program [.exprStmt start expr] := by
  obtain ⟨start, hstatement⟩ := Node.exprStmt_derivation hd
  obtain ⟨d⟩ := hstatement [] [] (.noSemicolon (by decide))
  have hscan := hspell [] [] fresh_nil scans_nil
  rw [List.append_nil, List.append_nil] at hscan
  rw [List.append_nil] at d
  refine ⟨start, (parseTokens_iff_derivation (ofText_noEnd text) _).mpr ?_⟩
  rw [hscan.ofText_eq]
  exact ⟨.program (.statements d .noStatements)⟩

/-- A text that is one expression is evaluated as that. -/
theorem evaluateText_exprStmt {registry : Registry} {env : Address} {text : String} {token : Token}
    {node : Node} {value : Value} {machine after : Machine} (herrors : (parse text).errors = [])
    (hprogram : (parse text).program = .program [.exprStmt token node])
    (hexpr : Evaluation.expr registry (Evaluation.apply registry maxDepth) env node
      { machine with log := machine.log.push (.evaluatingProgram 1) } = .ok value after)
    (hends : value.endsSequence = false) :
    evaluateText registry env text machine = .ok (some value) after := by
  have hwrapped : (Option.map Value.unwrap <$> some <$>
      Evaluation.expr registry (Evaluation.apply registry maxDepth) env node)
      { machine with log := machine.log.push (.evaluatingProgram 1) } =
        .ok ((some value).map Value.unwrap) after := by
    rw [Run.run_map, Run.run_map, hexpr]
  have hsome : (some value).any Value.endsSequence = false := hends
  rw [Evaluation.map_unwrap_of_not_endsSequence (Bool.eq_false_iff.mp hsome)] at hwrapped
  rw [Evaluation.evaluateText_of_errors herrors, hprogram, Evaluation.evaluate_program,
    Evaluation.statements_exprStmt]
  exact hwrapped

/-- Data is read back from the text in which it is shown, in any environment: the text is read
without an error, and to evaluate it writes nothing, binds nothing and gives a value of the same
shape. -/
theorem evaluate_inspect (registry : Registry) (env : Address) {value : Value} (h : value.Legible)
    (machine : Machine) :
    (parse value.inspect).errors = [] ∧ ∃ other created,
      evaluateText registry env value.inspect machine =
        .ok (some other) { machine with
          created := created, log := machine.log.push (.evaluatingProgram 1) } ∧
      other.shape = value.shape := by
  obtain ⟨tokens, expr, hspell, hd, hmakes⟩ := h.spelled
  obtain ⟨start, herrors, hprogram⟩ := parse_of_spells hspell hd
  obtain ⟨other, created, hexpr, hshape⟩ := hmakes registry (Evaluation.apply registry maxDepth) env
    { machine with log := machine.log.push (.evaluatingProgram 1) }
  have hends : other.endsSequence = false := Value.endsSequence_of_shape hshape ▸ h.endsSequence
  exact ⟨herrors, other, created, evaluateText_exprStmt herrors hprogram hexpr hends, hshape⟩

/-- A function and a hash in an array, with the least number that has a source text, keys of both
types and an array without elements. -/
theorem evaluate_inspect_nested :
    let word (name : String) : Node := .ident ⟨.ident, name⟩ name
    let body : Node := .block ⟨.lbrace, "\x7b"⟩ [.returnStmt ⟨.kwReturn, "return"⟩
      (.infixOp ⟨.plus, "+"⟩ (.str ⟨.string, "a b"⟩ "a b") "+" (word "y"))]
    let value : Value := .array 3 [.integer (-9223372036854775807),
      .hash 2 [(.boolean true, .boolean true, .array 1 []),
        (.integer 7, .integer 7, .boolean false)],
      .function 0 [word "x", word "y"] body 5]
    value.Legible ∧ (parse value.inspect).errors = [] ∧ ∃ other created,
      evaluateText .standard 0 value.inspect .initial = .ok (some other)
        { Machine.initial with created := created, log := #[.evaluatingProgram 1] } ∧
      other.shape = value.shape := by
  intro word body value
  have hfunction : Node.fn ⟨.kwFn, "fn"⟩ [word "x", word "y"] body ∈
      (parse "fn(x, y) \x7b return \"a b\" + y \x7d").program.nested := by
    rw [show (parse _).program = .program [.exprStmt ⟨.kwFn, "fn"⟩
      (.fn ⟨.kwFn, "fn"⟩ [word "x", word "y"] body)] from rfl]
    simp [Node.nested, Node.inner, nodesNested]
  have hlegible : value.Legible := by
    refine .array fun element hm ↦ ?_
    simp only [List.mem_cons, List.not_mem_nil, or_false] at hm
    rcases hm with rfl | rfl | rfl
    · exact .integer (by decide) (by decide)
    · refine .hash ⟨by decide, by decide⟩ (fun entry hm ↦ ?_) fun entry hm ↦ ?_
      all_goals
        simp only [List.mem_cons, List.not_mem_nil, or_false] at hm
        rcases hm with rfl | rfl
      · exact .boolean
      · exact .integer (by decide) (by decide)
      · exact .array (by simp)
      · exact .boolean
    · exact .function hfunction
  exact ⟨hlegible, evaluate_inspect .standard 0 hlegible .initial⟩

end MonkeyLang
