import MonkeyLang.Proofs.Node.Readable
import MonkeyLang.Proofs.Node.Spelling

/-!
The canonical text of a tree that can be read spells tokens from which the grammar derives the
tree, up to the tokens it stores. Expressions come out as an atom with trailers, so that they can
stand beside any operator and in front of any bracket.
-/

namespace MonkeyLang

open Token

namespace Node

def SpelledName (node : Node) : Prop :=
  ∃ token, token.kind = .ident ∧ (Node.ident token token.literal).untoken = node.untoken ∧
    Spells node.text [token] ∧ Separate node.text

/-- The text spells tokens of an expression that differs from the node in its tokens only. -/
def SpelledExpr (node : Node) : Prop :=
  ∃ tokens expr, expr.untoken = node.untoken ∧ Spells node.text tokens ∧ Separate node.text ∧
    ∀ others, Trailed expr (tokens ++ others) others

/-- The text between braces spells tokens of a block that differs from the node in its tokens
only. -/
def SpelledBlock (node : Node) : Prop :=
  ∃ tokens block, block.untoken = node.untoken ∧ Closes (node.enclosed node.text) tokens ∧
    ∀ others, Nonempty (Derivation (.block block) (tokens ++ others) others)

/-- The text, with the semicolon that closes an expression, spells tokens of a statement that
differs from the node in its tokens only. -/
def SpelledClosed (node : Node) : Prop :=
  ∃ tokens statement, statement.untoken = node.untoken ∧
    Closes (node.text ++ if node.isExprStmt then ";" else "") tokens ∧
    ∀ others, Nonempty (Derivation (.statement statement) (tokens ++ others) others)

/-- The text alone spells such tokens where the next token makes no expression longer. -/
def SpelledOpen (node : Node) : Prop :=
  ∃ tokens statement, statement.untoken = node.untoken ∧ Spells node.text tokens ∧
    ∀ others, front others ∉ Kind.continuing →
      Nonempty (Derivation (.statement statement) (tokens ++ others) others)

def SpelledProgram (node : Node) : Prop :=
  ∃ tokens program, program.untoken = node.untoken ∧ Spells node.text tokens ∧
    Nonempty (Derivation (.program program) tokens [])

def Spelled : Place → Node → Prop
  | .program, node => node.SpelledProgram
  | .statement, node => node.SpelledClosed ∧ node.SpelledOpen
  | .block, node => node.SpelledBlock
  | .name, node => node.SpelledName
  | .expression, node => node.SpelledExpr

section Statements

variable {token : Token} {name value expr : Node}

theorem SpelledClosed.spelledOpen {node : Node} (h : node.SpelledClosed)
    (hne : node.isExprStmt = false) : node.SpelledOpen := by
  obtain ⟨tokens, statement, hs, hclose, hd⟩ := h
  simp only [hne, Bool.false_eq_true, if_false, String.append_empty] at hclose
  exact ⟨tokens, statement, hs, hclose.spells, fun others _ ↦ hd others⟩

theorem spelledClosed_letStmt (hname : name.SpelledName) (hvalue : value.SpelledExpr) :
    (letStmt token name value).SpelledClosed := by
  obtain ⟨word, hword, hn, hspell, _⟩ := hname
  obtain ⟨tokens, expr, he, hspell', _, hd⟩ := hvalue
  refine ⟨⟨.kwLet, "let"⟩ :: word :: ⟨.assign, "="⟩ :: (tokens ++ [⟨.semicolon, ";"⟩]),
    .letStmt ⟨.kwLet, "let"⟩ (.ident word word.literal) expr, ?_, ?_, fun others ↦ ?_⟩
  · simp only [untoken, he] at hn ⊢
    rw [hn]
  · have hsemi : Closes (value.text ++ ";") (tokens ++ [⟨.semicolon, ";"⟩]) :=
      hspell'.append closes_semicolon apart_semicolon
    have hapart : Apart " = " := fun _ ↦ fresh_cons rfl _
    have hsign := hspell.append (closes_assign.append hsemi) (hapart.append _)
    have hall := closes_let.append hsign
    simpa only [text, isExprStmt, Bool.false_eq_true, if_false, String.append_empty,
      String.append_assoc, List.singleton_append] using hall
  · obtain ⟨d⟩ := (hd (⟨.semicolon, ";"⟩ :: others)).expr .equality
    simp only [List.cons_append, List.append_assoc, List.nil_append]
    exact ⟨.letStmt rfl hword rfl d (.semicolon rfl)⟩

theorem spelledClosed_returnStmt (hvalue : value.SpelledExpr) :
    (returnStmt token value).SpelledClosed := by
  obtain ⟨tokens, expr, he, hspell, _, hd⟩ := hvalue
  refine ⟨⟨.kwReturn, "return"⟩ :: (tokens ++ [⟨.semicolon, ";"⟩]),
    .returnStmt ⟨.kwReturn, "return"⟩ expr, ?_, ?_, fun others ↦ ?_⟩
  · simp only [untoken, he]
  · have hsemi : Closes (value.text ++ ";") (tokens ++ [⟨.semicolon, ";"⟩]) :=
      hspell.append closes_semicolon apart_semicolon
    have hall := closes_return.append hsemi
    simpa only [text, isExprStmt, Bool.false_eq_true, if_false, String.append_empty,
      String.append_assoc, List.singleton_append] using hall
  · obtain ⟨d⟩ := (hd (⟨.semicolon, ";"⟩ :: others)).expr .equality
    simp only [List.cons_append, List.append_assoc, List.nil_append]
    exact ⟨.returnStmt rfl d (.semicolon rfl)⟩

/-- The tokens of an expression are those of a statement wherever a statement can end. -/
theorem exprStmt_derivation {tokens : List Token}
    (h : ∀ others, Nonempty (Derivation (.expr .equality expr) (tokens ++ others) others)) :
    ∃ start, ∀ mid rest, Derivation .ending mid rest →
      Nonempty (Derivation (.statement (.exprStmt start expr)) (tokens ++ mid) rest) := by
  cases tokens with
  | nil =>
    obtain ⟨d⟩ := h []
    exact absurd d.length_le (by simp [Phrase.least])
  | cons start tokens =>
    refine ⟨start, fun mid rest e ↦ ?_⟩
    obtain ⟨d⟩ := h mid
    exact ⟨.exprStmt d e⟩

theorem spelledClosed_exprStmt (hexpr : expr.SpelledExpr) :
    (exprStmt token expr).SpelledClosed := by
  obtain ⟨tokens, expr', he, hspell, _, hd⟩ := hexpr
  obtain ⟨start, hs⟩ := exprStmt_derivation fun others ↦ (hd others).expr .equality
  have hclose : Closes (expr.text ++ ";") (tokens ++ [⟨.semicolon, ";"⟩]) :=
    hspell.append closes_semicolon apart_semicolon
  refine ⟨tokens ++ [⟨.semicolon, ";"⟩], .exprStmt start expr', ?_, ?_, fun others ↦ ?_⟩
  · simp only [untoken, he]
  · simpa only [text, isExprStmt, if_true] using hclose
  · rw [List.append_assoc]
    exact hs _ _ (.semicolon rfl)

theorem spelledOpen_exprStmt (hexpr : expr.SpelledExpr) : (exprStmt token expr).SpelledOpen := by
  obtain ⟨tokens, expr', he, hspell, _, hd⟩ := hexpr
  obtain ⟨start, hs⟩ := exprStmt_derivation fun others ↦ (hd others).expr .equality
  refine ⟨tokens, .exprStmt start expr', ?_, hspell, fun others hothers ↦ ?_⟩
  · simp only [untoken, he]
  · exact hs _ _ (.noSemicolon hothers)

/-- Statements are closed up to the last one, which is open. -/
theorem statementsText_spelled {nodes : List Node}
    (h : ∀ node ∈ nodes, node.SpelledClosed ∧ node.SpelledOpen) :
    ∃ tokens statements, nodesUntoken statements = nodesUntoken nodes ∧
      Spells (statementsText nodes) tokens ∧ ∀ others, front others ∉ Kind.continuing →
        Nonempty (Derivation (.statements statements) (tokens ++ others) others) := by
  induction nodes with
  | nil => exact ⟨[], [], rfl, closes_empty.spells, fun others _ ↦ ⟨.noStatements⟩⟩
  | cons node nodes ih =>
    obtain ⟨hclosed, hopen⟩ := h node (List.mem_cons_self ..)
    obtain ⟨tokens', statements, hs', hspell', hd'⟩ :=
      ih fun node hn ↦ h node (List.mem_cons_of_mem _ hn)
    -- an expression has its semicolon only in front of another statement
    cases nodes with
    | nil =>
      obtain ⟨tokens, statement, hs, hspell, hd⟩ := hopen
      refine ⟨tokens, [statement], ?_, ?_, fun others hothers ↦ ?_⟩
      · rw [nodesUntoken, nodesUntoken, hs]
        rfl
      · simpa [statementsText] using hspell
      · obtain ⟨d⟩ := hd others hothers
        exact ⟨.statements d .noStatements⟩
    | cons other nodes =>
      obtain ⟨tokens, statement, hs, hclose, hd⟩ := hclosed
      refine ⟨tokens ++ tokens', statement :: statements, ?_, ?_, fun others hothers ↦ ?_⟩
      · rw [nodesUntoken, hs, hs', ← nodesUntoken]
      · rw [statementsText]
        simpa using hclose.append_spells hspell'
      · obtain ⟨d⟩ := hd (tokens' ++ others)
        obtain ⟨e⟩ := hd' others hothers
        rw [List.append_assoc]
        exact ⟨.statements d e⟩

theorem spelledProgram {nodes : List Node}
    (h : ∀ node ∈ nodes, node.SpelledClosed ∧ node.SpelledOpen) :
    (program nodes).SpelledProgram := by
  obtain ⟨tokens, statements, hs, hspell, hd⟩ := statementsText_spelled h
  obtain ⟨d⟩ := hd [] (by decide)
  rw [List.append_nil] at d
  refine ⟨tokens, .program statements, ?_, hspell, ⟨.program d⟩⟩
  rw [untoken, untoken, hs]

theorem spelledBlock {brace : Token} {nodes : List Node}
    (h : ∀ node ∈ nodes, node.SpelledClosed ∧ node.SpelledOpen) :
    (block brace nodes).SpelledBlock := by
  cases nodes with
  | nil =>
    refine ⟨[⟨.lbrace, "\x7b"⟩, ⟨.rbrace, "\x7d"⟩], .block ⟨.lbrace, "\x7b"⟩ [], rfl, ?_,
      fun others ↦ ⟨.closedBlock rfl rfl .noStatements⟩⟩
    simpa only [enclosed, statements?, Option.any_some, List.isEmpty_nil, if_true]
      using closes_noStatements
  | cons node nodes =>
    obtain ⟨tokens, statements, hs, hspell, hd⟩ := statementsText_spelled h
    refine ⟨⟨.lbrace, "\x7b"⟩ :: (tokens ++ [⟨.rbrace, "\x7d"⟩]),
      .block ⟨.lbrace, "\x7b"⟩ statements, ?_, ?_, fun others ↦ ?_⟩
    · rw [untoken, untoken, hs]
    · have hall := closes_opening.append (hspell.append closes_closing apart_closing)
      simpa only [enclosed, statements?, Option.any_some, List.isEmpty_cons, Bool.false_eq_true,
        if_false, text, String.append_assoc, List.singleton_append] using hall
    · obtain ⟨d⟩ := hd (⟨.rbrace, "\x7d"⟩ :: others) (show Kind.rbrace ∉ Kind.continuing by decide)
      simp only [List.cons_append, List.append_assoc, List.nil_append]
      exact ⟨.closedBlock rfl rfl d⟩

end Statements

section Expressions

variable {token : Token} {operand left right condition consequence alternative body callee
  collection key : Node}

theorem spelledName {word : String} (h : IsWord word) (hk : Kind.ofWord word = .ident) :
    (ident token word).SpelledName := by
  have hspell := spells_word h
  rw [hk] at hspell
  exact ⟨⟨.ident, word⟩, rfl, rfl, hspell, h.separate⟩

theorem SpelledName.spelledExpr {node : Node} (h : node.SpelledName) : node.SpelledExpr := by
  obtain ⟨token, hk, he, hspell, hsep⟩ := h
  exact ⟨[token], .ident token token.literal, he, hspell, hsep, fun _ ↦ .of_atom (.ident hk)⟩

theorem spelledExpr_int {value : Int} (h : 0 ≤ value) (hmax : value ≤ Reader.maxInteger) :
    (int token value).SpelledExpr := by
  obtain ⟨n, rfl⟩ := Int.eq_ofNat_of_zero_le h
  obtain ⟨hnumeral, hvalue⟩ := isNumeral_repr n
  have hle : Reader.decimal n.repr ≤ Reader.maxInteger := by omega
  refine ⟨[⟨.int, n.repr⟩], .int ⟨.int, n.repr⟩ (Reader.decimal n.repr), ?_,
    spells_numeral hnumeral, hnumeral.separate, fun _ ↦ .of_atom (.int rfl hle)⟩
  rw [untoken, untoken, hvalue]

theorem spelledExpr_str {value : String} (h : '"' ∉ value.toList) :
    (str token value).SpelledExpr := by
  refine ⟨[⟨.string, value⟩], .str ⟨.string, value⟩ value, rfl, (closes_string h).spells, ?_,
    fun _ ↦ .of_atom (.str rfl)⟩
  have hsep : Separate "\"" := ⟨'"', [], rfl, by decide⟩
  exact (hsep.append _).append _

theorem spelledExpr_bool {value : Bool} : (bool token value).SpelledExpr := by
  cases value with
  | true =>
    have hword : IsWord "true" := by decide
    exact ⟨[⟨.kwTrue, "true"⟩], .bool ⟨.kwTrue, "true"⟩ true, rfl, spells_word hword,
      hword.separate, fun _ ↦ .of_atom (.boolTrue rfl)⟩
  | false =>
    have hword : IsWord "false" := by decide
    exact ⟨[⟨.kwFalse, "false"⟩], .bool ⟨.kwFalse, "false"⟩ false, rfl, spells_word hword,
      hword.separate, fun _ ↦ .of_atom (.boolFalse rfl)⟩

/-- Whatever the grammar derives stands in parentheses as an atom. -/
theorem spelledExpr_group {node : Node} (expr : Node) (text : String) (tokens : List Token)
    (he : expr.untoken = node.untoken) (htext : node.text = "(" ++ (text ++ ")"))
    (hclose : Closes (text ++ ")") (tokens ++ [⟨.rparen, ")"⟩]))
    (hd : ∀ others, Nonempty (Derivation (.expr .equality expr)
      (tokens ++ ⟨.rparen, ")"⟩ :: others) (⟨.rparen, ")"⟩ :: others))) :
    node.SpelledExpr := by
  have hall := closes_lparen.append hclose
  refine ⟨⟨.lparen, "("⟩ :: (tokens ++ [⟨.rparen, ")"⟩]), expr, he, ?_, ?_, fun others ↦ ?_⟩
  · rw [htext]
    exact hall.spells
  · have hsep : Separate "(" := ⟨'(', [], rfl, by decide⟩
    rw [htext]
    exact hsep.append _
  · obtain ⟨d⟩ := hd others
    simp only [List.cons_append, List.append_assoc, List.nil_append]
    exact .of_atom (.group rfl rfl d)

theorem spelledExpr_prefixOp {op : String} (hop : op ∈ ["!", "-"]) (h : operand.SpelledExpr) :
    (prefixOp token op operand).SpelledExpr := by
  obtain ⟨tokens, expr, he, hspell, hsep, hd⟩ := h
  have hparen := hspell.append closes_rparen apart_rparen
  obtain ⟨kind, hkind, hclose⟩ := closes_prefixOp hop (hsep.append _) hparen
  refine spelledExpr_group (.prefixOp ⟨kind, op⟩ op expr) (op ++ operand.text)
    (⟨kind, op⟩ :: tokens) ?_ ?_ ?_ fun others ↦ ?_
  · rw [untoken, untoken, he]
  · simp only [text, String.append_assoc]
  · rw [String.append_assoc]
    exact hclose
  · obtain ⟨d⟩ := (hd (⟨.rparen, ")"⟩ :: others)).expr .unary
    have hprefix : Derivation (.expr .unary (.prefixOp ⟨kind, op⟩ op expr)) _ _ := .prefixOp hkind d
    exact hprefix.loosen (by decide)

theorem spelledExpr_infixOp {op : String}
    (hop : op ∈ ["+", "-", "*", "/", "<", ">", "==", "!="]) (h : left.SpelledExpr)
    (h' : right.SpelledExpr) : (infixOp token left op right).SpelledExpr := by
  obtain ⟨tokens, expr, he, hspell, _, hd⟩ := h
  obtain ⟨tokens', expr', he', hspell', _, hd'⟩ := h'
  obtain ⟨kind, tier, inner, hk, hi, hop⟩ := closes_infixOp hop
  have hright := hop.append (hspell'.append closes_rparen apart_rparen)
  have hall := hspell.append (closes_blank.append hright) (apart_blank.append _)
  refine spelledExpr_group (.infixOp ⟨kind, op⟩ expr op expr')
    (left.text ++ " " ++ op ++ " " ++ right.text) (tokens ++ ⟨kind, op⟩ :: tokens') ?_ ?_ ?_
    fun others ↦ ?_
  · rw [untoken, untoken, he, he']
  · simp only [text, String.append_assoc]
  · simp only [String.append_assoc, List.append_assoc, List.nil_append, List.cons_append] at hall ⊢
    exact hall
  · obtain ⟨d⟩ := (hd (⟨kind, op⟩ :: (tokens' ++ ⟨.rparen, ")"⟩ :: others))).expr tier
    obtain ⟨d'⟩ := (hd' (⟨.rparen, ")"⟩ :: others)).expr inner
    obtain ⟨e⟩ := d.infix_right hk hi d'
    rw [List.append_assoc, List.cons_append]
    exact e.loosen (by cases tier <;> decide)

theorem spelledExpr_index (h : collection.SpelledExpr) (h' : key.SpelledExpr) :
    (index token collection key).SpelledExpr := by
  obtain ⟨tokens, expr, he, hspell, _, hd⟩ := h
  obtain ⟨tokens', expr', he', hspell', _, hd'⟩ := h'
  have hparen : Closes "])" [⟨.rbracket, "]"⟩, ⟨.rparen, ")"⟩] :=
    closes_rbracket.append closes_rparen
  have hkey := closes_lbracket.append (hspell'.append hparen fun _ ↦ fresh_cons rfl _)
  have hall := hspell.append hkey (apart_lbracket.append _)
  refine spelledExpr_group (.index ⟨.lbracket, "["⟩ expr expr')
    (collection.text ++ "[" ++ key.text ++ "]")
    (tokens ++ ⟨.lbracket, "["⟩ :: (tokens' ++ [⟨.rbracket, "]"⟩])) ?_ ?_ ?_
    fun others ↦ ?_
  · rw [untoken, untoken, he, he']
  · rw [text]
    simp only [String.append_assoc]
    rfl
  · simp only [String.append_assoc, List.append_assoc, List.nil_append, List.cons_append] at hall ⊢
    exact hall
  · obtain ⟨d⟩ := (hd' (⟨.rbracket, "]"⟩ :: ⟨.rparen, ")"⟩ :: others)).expr .equality
    have htrailed := (hd (⟨.lbracket, "["⟩ :: (tokens' ++ ⟨.rbracket, "]"⟩ :: ⟨.rparen, ")"⟩ ::
      others))).append (.index rfl rfl d .trailersEnd)
    simpa only [List.append_assoc, List.cons_append, List.nil_append] using htrailed.expr .equality

theorem values_spelled (bracket : Bracket) {c : Char} {nodes : List Node}
    (hc : Kind.ofSymbol? c = some bracket.close)
    (hfresh : (isLetter c || isDigit c || c == '=') = false)
    (h : ∀ node ∈ nodes, node.SpelledExpr) :
    ∃ tokens exprs, nodesUntoken exprs = nodesUntoken nodes ∧
      Closes (commaSeparated (nodeTexts nodes) ++ c.toString) tokens ∧
      ∀ others, Nonempty
        (Derivation (.list .value bracket (exprs.map .value)) (tokens ++ others) others) := by
  simp only [nodesUntoken_eq_map, nodeTexts_eq_map]
  have hvalues : ∀ node ∈ nodes, ∃ tokens expr, node.untoken = expr.untoken ∧
      Spells node.text tokens ∧ ∀ others,
        Nonempty (Derivation (.item .value (.value expr)) (tokens ++ others) others) := by
    intro node hn
    obtain ⟨tokens, expr, he, hspell, _, hd⟩ := h node hn
    refine ⟨tokens, expr, he.symm, hspell, fun others ↦ ?_⟩
    obtain ⟨d⟩ := (hd others).expr .equality
    exact ⟨.value d⟩
  obtain ⟨tokens, exprs, hexprs, hclose, hd⟩ := list_spelled hc hfresh hvalues
  exact ⟨tokens, exprs, (map_eq_map_iff_forall₂.mpr hexprs).symm, hclose, hd⟩

theorem params_spelled {params : List Node} (h : ∀ param ∈ params, param.SpelledName) :
    ∃ tokens names, nodesUntoken names = nodesUntoken params ∧
      Closes (commaSeparated (nodeTexts params) ++ ")") tokens ∧
      ∀ others, Nonempty (Derivation (.list .parameter .round (names.map .parameter))
        (tokens ++ others) others) := by
  simp only [nodesUntoken_eq_map, nodeTexts_eq_map]
  have hnames : ∀ param ∈ params, ∃ tokens name, param.untoken = name.untoken ∧
      Spells param.text tokens ∧ ∀ others,
        Nonempty (Derivation (.item .parameter (.parameter name)) (tokens ++ others) others) := by
    intro param hp
    obtain ⟨name, hk, he, hspell, _⟩ := h param hp
    exact ⟨[name], .ident name name.literal, he.symm, hspell, fun others ↦ ⟨.parameter hk⟩⟩
  obtain ⟨tokens, names, hnames, hclose, hd⟩ := list_spelled
    (show Kind.ofSymbol? ')' = some Bracket.round.close from rfl) rfl hnames
  exact ⟨tokens, names, (map_eq_map_iff_forall₂.mpr hnames).symm, hclose, hd⟩

theorem pairs_spelled {pairs : List (Node × Node)} (hkeys : ∀ pair ∈ pairs, pair.1.SpelledExpr)
    (hvalues : ∀ pair ∈ pairs, pair.2.SpelledExpr) :
    ∃ tokens exprs, pairsUntoken exprs = pairsUntoken pairs ∧
      Closes (commaSeparated (pairTexts pairs) ++ "\x7d") tokens ∧
      ∀ others, Nonempty
        (Derivation (.list .pair .curly (exprs.map .ofPair)) (tokens ++ others) others) := by
  simp only [pairsUntoken_eq_map, pairTexts_eq_map]
  have hpairs : ∀ pair ∈ pairs, ∃ tokens pair', pair.map untoken untoken =
      Prod.map untoken untoken pair' ∧ Spells (pairText pair) tokens ∧ ∀ others,
        Nonempty (Derivation (.item .pair (.ofPair pair')) (tokens ++ others) others) := by
    intro pair hp
    obtain ⟨tokens, expr, he, hspell, _, hd⟩ := hkeys pair hp
    obtain ⟨tokens', expr', he', hspell', _, hd'⟩ := hvalues pair hp
    refine ⟨_, (expr, expr'), ?_, spells_pair hspell hspell', fun others ↦ ?_⟩
    · rw [Prod.map, Prod.map, he, he']
    · obtain ⟨d⟩ := (hd (⟨.colon, ":"⟩ :: (tokens' ++ others))).expr .equality
      obtain ⟨d'⟩ := (hd' others).expr .equality
      simp only [List.append_assoc, List.singleton_append]
      exact ⟨.pair rfl d d'⟩
  obtain ⟨tokens, exprs, hexprs, hclose, hd⟩ := list_spelled
    (show Kind.ofSymbol? '}' = some Bracket.curly.close from rfl) rfl hpairs
  exact ⟨tokens, exprs, (map_eq_map_iff_forall₂.mpr hexprs).symm, hclose, hd⟩

theorem spelledExpr_call {args : List Node} (h : callee.SpelledExpr)
    (hargs : ∀ arg ∈ args, arg.SpelledExpr) : (call token callee args).SpelledExpr := by
  obtain ⟨tokens, expr, he, hspell, hsep, hd⟩ := h
  obtain ⟨tokens', exprs, hes, hclose, hd'⟩ :=
    values_spelled .round (c := ')') rfl rfl hargs
  have hall := hspell.append (closes_lparen.append hclose) (apart_lparen.append _)
  refine ⟨tokens ++ ⟨.lparen, "("⟩ :: tokens', .call ⟨.lparen, "("⟩ expr exprs, ?_, ?_, ?_,
    fun others ↦ ?_⟩
  · rw [untoken, untoken, he, hes]
  · rw [text, String.append_assoc, String.append_assoc]
    exact hall.spells
  · rw [text, String.append_assoc, String.append_assoc]
    exact hsep.append _
  · obtain ⟨d⟩ := hd' others
    rw [List.append_assoc]
    exact (hd _).append (.call rfl d .trailersEnd)

theorem spelledExpr_array {elements : List Node} (h : ∀ element ∈ elements, element.SpelledExpr) :
    (array token elements).SpelledExpr := by
  obtain ⟨tokens, exprs, hes, hclose, hd⟩ :=
    values_spelled .square (c := ']') rfl rfl h
  have hsep : Separate "[" := ⟨'[', [], rfl, by decide⟩
  refine ⟨⟨.lbracket, "["⟩ :: tokens, .array ⟨.lbracket, "["⟩ exprs, ?_, ?_, ?_, fun others ↦ ?_⟩
  · rw [untoken, untoken, hes]
  · rw [text, String.append_assoc]
    exact (closes_lbracket.append hclose).spells
  · rw [text, String.append_assoc]
    exact hsep.append _
  · obtain ⟨d⟩ := hd others
    exact .of_atom (.array rfl d)

theorem spelledExpr_hash {pairs : List (Node × Node)}
    (hkeys : ∀ pair ∈ pairs, pair.1.SpelledExpr) (hvalues : ∀ pair ∈ pairs, pair.2.SpelledExpr) :
    (hash token pairs).SpelledExpr := by
  obtain ⟨tokens, exprs, hes, hclose, hd⟩ := pairs_spelled hkeys hvalues
  have hsep : Separate "\x7b" := ⟨'{', [], rfl, by decide⟩
  refine ⟨⟨.lbrace, "\x7b"⟩ :: tokens, .hash ⟨.lbrace, "\x7b"⟩ exprs, ?_, ?_, ?_,
    fun others ↦ ?_⟩
  · rw [untoken, untoken, hes]
  · rw [text, String.append_assoc]
    exact (closes_lbrace.append hclose).spells
  · rw [text, String.append_assoc]
    exact hsep.append _
  · obtain ⟨d⟩ := hd others
    exact .of_atom (.hash rfl d)

theorem spelledExpr_fn {params : List Node} (hparams : ∀ param ∈ params, param.SpelledName)
    (hbody : body.SpelledBlock) : (fn token params body).SpelledExpr := by
  obtain ⟨tokens, names, hns, hclose, hd⟩ := params_spelled hparams
  obtain ⟨tokens', block, hb, hclose', hd'⟩ := hbody
  have hsep : Separate "fn(" := ⟨'f', ['n', '('], rfl, by decide⟩
  have hparen : Closes (commaSeparated (nodeTexts params) ++ ") ") tokens := by
    have hblank := hclose.append closes_blank
    rwa [String.append_assoc, show ")" ++ " " = ") " from rfl, List.append_nil] at hblank
  have hall := closes_fn.append (hparen.append hclose')
  refine ⟨⟨.kwFn, "fn"⟩ :: ⟨.lparen, "("⟩ :: (tokens ++ tokens'), .fn ⟨.kwFn, "fn"⟩ names block,
    ?_, ?_, ?_, fun others ↦ ?_⟩
  · rw [untoken, untoken, hns, hb]
  · simpa only [text, String.append_assoc, List.cons_append, List.nil_append] using hall.spells
  · rw [text, String.append_assoc, String.append_assoc]
    exact hsep.append _
  · obtain ⟨d⟩ := hd (tokens' ++ others)
    obtain ⟨e⟩ := hd' others
    simp only [List.cons_append, List.append_assoc]
    exact .of_atom (.fn rfl rfl d e)

theorem condition_spelled (h : condition.SpelledExpr) (hblock : consequence.SpelledBlock) :
    ∃ tokens expr tokens' block, expr.untoken = condition.untoken ∧
      block.untoken = consequence.untoken ∧
      Closes ("if (" ++ condition.text ++ ") " ++ consequence.enclosed consequence.text)
        (⟨.kwIf, "if"⟩ :: ⟨.lparen, "("⟩ :: (tokens ++ ⟨.rparen, ")"⟩ :: tokens')) ∧
      (∀ others, Nonempty (Derivation (.expr .equality expr) (tokens ++ others) others)) ∧
      ∀ others, Nonempty (Derivation (.block block) (tokens' ++ others) others) := by
  obtain ⟨tokens, expr, he, hspell, _, hd⟩ := h
  obtain ⟨tokens', block, hb, hclose, hd'⟩ := hblock
  have hall := closes_if.append
    (hspell.append (closes_rparen_blank.append hclose) (apart_rparen_blank.append _))
  refine ⟨tokens, expr, tokens', block, he, hb, ?_, fun others ↦ (hd others).expr .equality, hd'⟩
  simpa only [String.append_assoc, List.cons_append, List.nil_append] using hall

theorem spelledExpr_cond (h : condition.SpelledExpr) (hblock : consequence.SpelledBlock) :
    (cond token condition consequence none).SpelledExpr := by
  obtain ⟨tokens, expr, tokens', block, he, hb, hclose, hd, hd'⟩ := condition_spelled h hblock
  have hsep : Separate "if (" := ⟨'i', ['f', ' ', '('], rfl, by decide⟩
  refine ⟨⟨.kwIf, "if"⟩ :: ⟨.lparen, "("⟩ :: (tokens ++ ⟨.rparen, ")"⟩ :: tokens'),
    .cond ⟨.kwIf, "if"⟩ expr block none, ?_, ?_, ?_, fun others ↦ ?_⟩
  · rw [untoken, untoken, he, hb, alternativeUntoken]
  · simpa only [text, alternativeText, String.append_empty] using hclose.spells
  · simp only [text, String.append_assoc]
    exact hsep.append _
  · obtain ⟨d⟩ := hd (⟨.rparen, ")"⟩ :: (tokens' ++ others))
    obtain ⟨e⟩ := hd' others
    simp only [List.cons_append, List.append_assoc]
    exact .of_atom (.cond rfl rfl rfl d e)

theorem spelledExpr_condElse (h : condition.SpelledExpr) (hblock : consequence.SpelledBlock)
    (halt : alternative.SpelledBlock) :
    (cond token condition consequence (some alternative)).SpelledExpr := by
  obtain ⟨tokens, expr, tokens', block, he, hb, hclose, hd, hd'⟩ := condition_spelled h hblock
  obtain ⟨tokens'', block', hb', hclose', hd''⟩ := halt
  have hsep : Separate "if (" := ⟨'i', ['f', ' ', '('], rfl, by decide⟩
  have hall := hclose.append (closes_else.append hclose')
  refine ⟨_, .cond ⟨.kwIf, "if"⟩ expr block (some block'), ?_, hall.spells, ?_, fun others ↦ ?_⟩
  · simp only [untoken, alternativeUntoken, he, hb, hb']
  · simp only [text, String.append_assoc]
    exact hsep.append _
  · obtain ⟨d⟩ := hd (⟨.rparen, ")"⟩ :: (tokens' ++ ⟨.kwElse, "else"⟩ :: (tokens'' ++ others)))
    obtain ⟨e⟩ := hd' (⟨.kwElse, "else"⟩ :: (tokens'' ++ others))
    obtain ⟨f⟩ := hd'' others
    simp only [List.cons_append, List.append_assoc, List.nil_append]
    exact .of_atom (.condElse rfl rfl rfl rfl d e f)

end Expressions

/-- All that can be read is spelled by its canonical text. -/
theorem Readable.spelled {place : Place} {node : Node} (h : node.Readable place) :
    node.Spelled place := by
  induction h with
  | program _ ih => exact spelledProgram ih
  | letStmt _ _ ih ih' =>
    exact ⟨spelledClosed_letStmt ih ih', (spelledClosed_letStmt ih ih').spelledOpen rfl⟩
  | returnStmt _ ih =>
    exact ⟨spelledClosed_returnStmt ih, (spelledClosed_returnStmt ih).spelledOpen rfl⟩
  | exprStmt _ ih => exact ⟨spelledClosed_exprStmt ih, spelledOpen_exprStmt ih⟩
  | block _ ih => exact spelledBlock ih
  | name hword hk => exact spelledName hword hk
  | ident _ ih => exact SpelledName.spelledExpr ih
  | int h hmax => exact spelledExpr_int h hmax
  | str h => exact spelledExpr_str h
  | bool => exact spelledExpr_bool
  | prefixOp hop _ ih => exact spelledExpr_prefixOp hop ih
  | infixOp hop _ _ ih ih' => exact spelledExpr_infixOp hop ih ih'
  | cond _ _ ih ih' => exact spelledExpr_cond ih ih'
  | condElse _ _ _ ih ih' ih'' => exact spelledExpr_condElse ih ih' ih''
  | fn _ _ ih ih' => exact spelledExpr_fn ih ih'
  | call _ _ ih ih' => exact spelledExpr_call ih ih'
  | array _ ih => exact spelledExpr_array ih
  | hash _ _ ih ih' => exact spelledExpr_hash ih ih'
  | index _ _ ih ih' => exact spelledExpr_index ih ih'

end Node

end MonkeyLang
