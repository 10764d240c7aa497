import QuestScript.Proofs.Action.Jump
import QuestScript.Proofs.Program.Typing

/-!
Written values and conditions come back from the parser, and whatever comes back can be written.
-/

namespace QuestScript

open Lexeme (Spell)

/-! ### Actions -/

namespace Action

variable {place : Position} {text : List Char} {scanned rs : List Report} {g : Group}

lemma ofProgram_eq_ok {program : Outcome Report Program}
    (h : ofProgram place text scanned program = ⟨rs, .ok g⟩) :
    ∃ p made, program = ⟨made, .ok p⟩ ∧ rs = scanned ++ made ∧ p.statements ≠ [] ∧
      g = ⟨p.statements, place.line⟩ := by
  rcases program with ⟨made, cause | p⟩
  · simp [ofProgram] at h
  · simp only [ofProgram] at h
    split at h
    · simp at h
    · next hsome =>
      obtain ⟨rfl, rfl⟩ : scanned ++ made = rs ∧ _ = g := by simpa using h
      exact ⟨p, made, rfl, rfl, by simpa using hsome, rfl⟩

/-- Actions are typed, whatever the depth that they may nest to. -/
theorem sound_read (clean : Prop) (options : Options) (budget : Nat) :
    (read options budget).Sound clean := by
  induction budget with
  | zero =>
    intro place text rs g h hclean
    rcases htarget : target? text with _ | target
    · simp [read_zero htarget] at h
    · rw [read_of_target? 0 htarget] at h
      obtain ⟨-, rfl⟩ := Outcome.pure_eq_ok.mp h
      exact Group.everywhere_jump fun s hs => by
        obtain rfl := List.mem_singleton.mp hs
        trivial
  | succ n ih =>
    intro place text rs g h hclean
    rcases htarget : target? text with _ | target
    · rw [read_succ n htarget] at h
      obtain ⟨p, made, hprogram, rfl, -, rfl⟩ := ofProgram_eq_ok h
      -- without reports on the action there are none on the program in it
      have hnil (hc : clean) : made = [] := (List.append_eq_nil_iff.mp (hclean hc)).2
      refine Group.everywhere_of_sound fun s hs => ?_
      obtain ⟨inner, hinner, hs⟩ := List.mem_flatMap.mp hs
      exact Program.everywhere_of_read ih hprogram hnil inner hinner s hs
    · rw [read_of_target? (n + 1) htarget] at h
      obtain ⟨-, rfl⟩ := Outcome.pure_eq_ok.mp h
      exact Group.everywhere_jump fun s hs => by
        obtain rfl := List.mem_singleton.mp hs
        trivial

end Action

namespace Parser

variable {options : Options} {ls : List Lexeme} {unary : Nat}

/-! ### Reading what is written -/

lemma run_statement {l finish : Lexeme} {rest : List Lexeme} {s : Statement}
    (hend : ∀ o ∈ l :: rest, o.token ≠ .mark .sourceEnd)
    (hfinish : finish.token = .mark .sourceEnd)
    (h : ∀ ctx, Statement.read ctx (l :: rest) = ⟨⟨[], .ok s⟩, (l :: rest).length⟩) :
    (ofLexemes (l :: rest ++ [finish]) options).run =
      (.ok ⟨[⟨[s], l.start.line⟩]⟩, ⟨options, [], finish, []⟩) :=
  run_of_read hend hfinish fun ctx => Program.read_statement (h ctx)

lemma read_assign {ctx : Context} {l o : Lexeme} {name : String} {value : Expr} {rest : List Lexeme}
    (hl : l.token = .name name) (ho : o.token = .mark .equal)
    (h : Expr.read rest = ⟨.ok value, rest.length⟩) :
    Statement.read ctx (l :: o :: rest) =
      ⟨⟨[], .ok (.assign name value)⟩, (l :: o :: rest).length⟩ := by
  have hlift : ctx.lift rest (Expr.read rest) = ⟨⟨[], .ok value⟩, rest.length⟩ :=
    Statement.lift_eq_ok.mpr ⟨rfl, h⟩
  have hassign : Statement.readAssignment ctx name (o :: rest) =
      ⟨⟨[], .ok (.assign name value)⟩, 1 + rest.length⟩ := by
    simp [Statement.readAssignment, ho, hlift, Parsed.map, Parsed.after, Outcome.map, Except.map]
  simp [Statement.read, Statement.readSimple, hl, hassign, Parsed.after]
  omega

lemma readGroup_end {ctx : Context} {e : Lexeme} (line : Nat) (he : e.token = .mark .endWord) :
    Statement.readGroup ctx line [e] = ⟨⟨[], .ok ⟨[.finish], line⟩⟩, 1⟩ := by
  have hread : Statement.read ctx [e] = ⟨⟨[], .ok .finish⟩, 1⟩ := by
    simp [Statement.read, Statement.readSimple, he, Outcome.pure]
  exact Statement.readGroup_of_readChain (Statement.readChain_of_last hread rfl)

lemma read_conditional {ctx : Context} {l t e : Lexeme} {condition : BoolExpr} {ls : List Lexeme}
    (hl : l.token = .mark .ifWord) (ht : t.token = .mark .thenWord)
    (he : e.token = .mark .endWord)
    (h : BoolExpr.read (ls ++ [t, e]) = ⟨.ok condition, ls.length⟩) :
    Statement.read ctx (l :: (ls ++ [t, e])) =
      ⟨⟨[], .ok (.conditional condition ⟨[.finish], l.start.line⟩ none)⟩,
        (l :: (ls ++ [t, e])).length⟩ := by
  have hthen : Statement.startsWith .thenWord ((ls ++ [t, e]).drop ls.length) = true := by
    simp [Statement.startsWith, ht]
  have hbranch : (ls ++ [t, e]).drop (ls.length + 1) = [e] := by
    rw [← List.drop_drop, List.drop_left, List.drop_one, List.tail_cons]
  have hend : Statement.startsWith .elseWord ((ls ++ [t, e]).drop (ls.length + 1 + 1)) = false := by
    simp [Statement.startsWith]
  rw [Statement.read, if_pos hl, Statement.readConditional_of_then h hthen
    (by rw [hbranch]; exact readGroup_end _ he) hend]
  simp only [Parsed.after, List.length_cons, List.length_append, List.length_nil, Parsed.mk.injEq,
    true_and]
  omega

lemma run_assign {name : String} {value : Expr} (hunary : 3 ≤ unary ∧ unary ≤ 7)
    (htyped : value.Typed)
    (h : Spell ls ([.name name, .mark .equal] ++ value.tokens unary ++ [.mark .sourceEnd])) :
    ∃ first parser, ls.head? = some first ∧ parser.reports = [] ∧
      (ofLexemes ls options).run =
        (.ok ⟨[⟨[.assign name value], first.start.line⟩]⟩, parser) := by
  obtain ⟨front, last, rfl, hfront, hlast⟩ := h.append
  obtain ⟨finish, rfl, hfinish⟩ := hlast.single
  obtain ⟨l, tail, rfl, hl, htail⟩ := hfront.cons
  obtain ⟨o, rest, rfl, ho, hrest⟩ := Spell.cons htail
  have hvalue := Expr.read_spell hunary value htyped hrest
  have hadmits : ∀ o ∈ rest, Expr.admits o.token = true :=
    Expr.forall_token hrest (Expr.admits_of_mem htyped)
  -- none of the tokens ends the source
  have hend : ∀ r ∈ l :: o :: rest, r.token ≠ .mark .sourceEnd := by
    intro r hr heq
    rcases List.mem_cons.mp hr with rfl | hr
    · simp [hl] at heq
    rcases List.mem_cons.mp hr with rfl | hr
    · simp [ho] at heq
    · have := hadmits r hr
      simp [heq, Expr.admits, Expr.endsValue] at this
  exact ⟨l, _, rfl, rfl, run_statement hend hfinish fun ctx => read_assign hl ho hvalue⟩

lemma run_conditional {condition : BoolExpr} (hunary : 3 ≤ unary ∧ unary ≤ 7)
    (htyped : condition.Typed)
    (h : Spell ls ([.mark .ifWord] ++ condition.tokens unary ++
      [.mark .thenWord, .mark .endWord, .mark .sourceEnd])) :
    ∃ first parser, ls.head? = some first ∧ parser.reports = [] ∧
      (ofLexemes ls options).run =
        (.ok ⟨[⟨[.conditional condition ⟨[.finish], first.start.line⟩ none],
          first.start.line⟩]⟩, parser) := by
  obtain ⟨front, last, rfl, hfront, hlast⟩ := h.append
  obtain ⟨t, tail, rfl, ht, htail⟩ := Spell.cons hlast
  obtain ⟨e, last, rfl, he, hlast⟩ := Spell.cons htail
  obtain ⟨finish, rfl, hfinish⟩ := hlast.single
  obtain ⟨l, inner, rfl, hl, hinner⟩ := Spell.cons hfront
  -- the value ends in front of the word `then`
  have hread := condition.read_spell hunary [t, e] htyped hinner
    (by simp [BoolExpr.Free, ht, Token.endsCondition])
    (by simp [ht, Token.isLogical, Expr.isLogical])
  have hadmits : ∀ o ∈ inner, Expr.admits o.token = true :=
    Expr.forall_token hinner (Expr.admits_of_mem_condition htyped)
  have hend : ∀ r ∈ l :: (inner ++ [t, e]), r.token ≠ .mark .sourceEnd := by
    intro r hr heq
    simp only [List.mem_cons, List.mem_append, List.not_mem_nil, or_false] at hr
    rcases hr with rfl | hr | rfl | rfl
    · simp [hl] at heq
    · have := hadmits r hr
      simp [heq, Expr.admits, Expr.endsValue] at this
    · simp [ht] at heq
    · simp [he] at heq
  have hlist : l :: inner ++ [t, e, finish] = l :: (inner ++ [t, e]) ++ [finish] := by simp
  rw [hlist]
  exact ⟨l, _, rfl, rfl, run_statement hend hfinish fun ctx => read_conditional hl ht he hread⟩

/-! ### Writing what was read -/

lemma sound_of_run {program : Program} {parser : Parser} (clean : Prop)
    (h : (ofLexemes ls options).run = (.ok program, parser))
    (hclean : clean → parser.reports = []) :
    ∀ g ∈ program.groups, ∀ s ∈ g.statements, s.Sound clean := by
  obtain ⟨hresult, rfl⟩ := Prod.mk.inj h
  rcases hread : (Program.read (ofLexemes ls options).context (ofLexemes ls options).ahead).outcome
    with ⟨rs, result⟩
  rw [Parsed.result, hread] at hresult
  subst hresult
  refine Program.everywhere_of_read (Action.sound_read clean options _) hread fun hc => ?_
  have := hclean hc
  simp only [Parsed.reports, hread, List.append_eq_nil_iff] at this
  exact this.2

lemma typed_of_run {program : Program} {parser : Parser} {g : Group} {s : Statement}
    (h : (ofLexemes ls options).run = (.ok program, parser)) (hg : program.Contains g)
    (hs : s ∈ g.statements) :
    (∀ condition thenGroup elseGroup, s = .conditional condition thenGroup elseGroup →
      condition.Typed) ∧
    (∀ name value, s = .assign name value → parser.reports = [] → value.Typed) := by
  obtain ⟨top, htop, hg⟩ := hg
  have htyped (clean : Prop) (hclean : clean → parser.reports = []) : s.Typed clean :=
    Group.everywhere_of_sound (sound_of_run clean h hclean top htop) g hg s hs
  constructor
  · rintro condition thenGroup elseGroup rfl
    exact htyped False False.elim
  · rintro name value rfl hreports
    exact htyped True (fun _ => hreports) trivial

/-- **Expressions round-trip.** The canonical tokens of a typed value come back as that value behind
an equals sign, and those of a typed condition as that condition between `if` and `then`, with
nothing to report. What comes back from any tokens is typed in turn: conditions always, and values
if there is nothing to report. -/
theorem run_spell (options : Options) (unary : Nat) (hunary : unary = 3 ∨ unary = 6) :
    (∀ ls name (value : Expr), value.Typed →
      Spell ls ([.name name, .mark .equal] ++ value.tokens unary ++ [.mark .sourceEnd]) →
        ∃ first parser, ls.head? = some first ∧ parser.reports = [] ∧
          (ofLexemes ls options).run =
            (.ok ⟨[⟨[.assign name value], first.start.line⟩]⟩, parser)) ∧
    (∀ ls (condition : BoolExpr), condition.Typed →
      Spell ls ([.mark .ifWord] ++ condition.tokens unary ++
          [.mark .thenWord, .mark .endWord, .mark .sourceEnd]) →
        ∃ first parser, ls.head? = some first ∧ parser.reports = [] ∧
          (ofLexemes ls options).run =
            (.ok ⟨[⟨[.conditional condition ⟨[.finish], first.start.line⟩ none],
              first.start.line⟩]⟩, parser)) ∧
    (∀ ls program parser, (ofLexemes ls options).run = (.ok program, parser) →
      ∀ g, program.Contains g → ∀ s ∈ g.statements,
        (∀ condition thenGroup elseGroup, s = .conditional condition thenGroup elseGroup →
          condition.Typed) ∧
        (∀ name value, s = .assign name value → parser.reports = [] → value.Typed)) := by
  have hbounds : 3 ≤ unary ∧ unary ≤ 7 := by omega
  refine ⟨?values, ?conditions, ?back⟩
  case values => exact fun ls name value htyped h => run_assign hbounds htyped h
  case conditions => exact fun ls condition htyped h => run_conditional hbounds htyped h
  case back => exact fun ls program parser h g hg s hs => typed_of_run h hg hs

namespace Sample

/-- Lexemes with the given tokens. -/
def lexemes (ts : List Token) : List Lexeme := ts.map fun t => ⟨t, "", .start⟩

/-- `x = not (not a) = true or b - (c - d) < e` -/
def assignment : List Lexeme := lexemes
  [.name "x", .mark .equal, .mark .not, .mark .leftParen, .mark .not, .name "a", .mark .rightParen,
    .mark .equal, .mark .true, .mark .or, .name "b", .mark .minus, .mark .leftParen, .name "c",
    .mark .minus, .name "d", .mark .rightParen, .mark .less, .name "e", .mark .sourceEnd]

def value : Expr :=
  .bool (.logical .or (.not (.compareBools .equal (.not (.var "a")) (.const true)))
    (.compareNumbers .less (.binary .subtract (.var "b") (.binary .subtract (.var "c") (.var "d")))
      (.var "e")))

/-- `if s + "t" != u and f then end` -/
def conditional : List Lexeme := lexemes
  [.mark .ifWord, .name "s", .mark .plus, .string "t", .mark .notEqual, .name "u", .mark .and,
    .name "f", .mark .thenWord, .mark .endWord, .mark .sourceEnd]

def condition : BoolExpr :=
  .logical .and (.compareStrings .notEqual (.concat (.var "s") (.const "t")) (.var "u")) (.var "f")

end Sample

/-- A value and a condition with all kinds of operands are read back, and are typed. -/
theorem run_spell_sample :
    (∃ parser, parser.reports = [] ∧ (ofLexemes Sample.assignment {}).run =
      (.ok ⟨[⟨[.assign "x" Sample.value], 1⟩]⟩, parser)) ∧
    (∃ parser, parser.reports = [] ∧ (ofLexemes Sample.conditional {}).run =
      (.ok ⟨[⟨[.conditional Sample.condition ⟨[.finish], 1⟩ none], 1⟩]⟩, parser)) ∧
    Sample.value.Typed ∧ Sample.condition.Typed := by
  obtain ⟨hvalues, hconditions, hback⟩ := run_spell {} 3 (.inl rfl)
  have hvalue : Sample.value.Typed := by
    simp [Sample.value, Expr.Typed, BoolExpr.Typed, BoolExpr.isVar]
  have hcondition : Sample.condition.Typed := by
    simp [Sample.condition, BoolExpr.Typed, StringExpr.Grouped, StringExpr.level,
      StringExpr.hasLiteral]
  obtain ⟨first, parser, hfirst, hreports, hrun⟩ :=
    hvalues Sample.assignment "x" Sample.value hvalue rfl
  obtain rfl := Option.some.inj hfirst
  obtain ⟨first, other, hfirst, hothers, hother⟩ :=
    hconditions Sample.conditional Sample.condition hcondition rfl
  obtain rfl := Option.some.inj hfirst
  refine ⟨⟨parser, hreports, hrun⟩, ⟨other, hothers, hother⟩, ?_, ?_⟩
  · exact (hback _ _ parser hrun _ ⟨_, List.mem_singleton_self _, .refl⟩ _
      (List.mem_singleton_self _)).2 _ _ rfl hreports
  · exact (hback _ _ other hother _ ⟨_, List.mem_singleton_self _, .refl⟩ _
      (List.mem_singleton_self _)).1 _ _ _ rfl

end Parser

end QuestScript
