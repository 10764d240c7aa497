import Mathlib.Data.List.Chain
import QuestScript.Proofs.Parallel.Line
import QuestScript.Proofs.Parser.Everywhere
import QuestScript.Proofs.Parser.Guarded
import QuestScript.Proofs.Program.Grammar
import QuestScript.Proofs.Program.Keeps

/-!
Well-formed program trees.

A group has statements in it. Printed text has no literals that are empty or next to one another,
the branches of a conditional share a line, everything inside the actions of one statement stands on
one line, and comparisons have operators that their operands admit. Each of this can be seen from
one statement and the groups below it. It does not depend on what is reported: broken statements
leave no traces in the tree.
-/

namespace QuestScript

/-! ### Comparisons -/

/-- Every comparison in the condition has an operator that its operands admit, and one of texts is
plainly about text. -/
def BoolExpr.Compares : BoolExpr → Prop
  | const _ | var _ => True
  | not operand => operand.Compares
  | logical _ left right => left.Compares ∧ right.Compares
  | compareNumbers op _ _ => op ≠ .maskEqual
  | compareStrings op left right =>
    op ∈ [.equal, .maskEqual, .notEqual] ∧ (op = .maskEqual ∨ left.hasLiteral ∨ right.hasLiteral)
  | compareBools op left right => op ∈ [.equal, .notEqual] ∧ left.Compares ∧ right.Compares

def Expr.Compares : Expr → Prop
  | bool value => value.Compares
  | _ => True

lemma BoolExpr.Yields.compares {layout : Layout} {place : Nat} {e : BoolExpr} {ts : List Token}
    (h : e.Yields layout place ts) : e.Compares := by
  induction h with
  | const | var => trivial
  | not _ _ _ ih => exact ih
  | logical _ _ _ ihleft ihright => exact ⟨ihleft, ihright⟩
  | compareNumbers _ hop _ _ => exact hop
  | compareStrings _ hop hliteral _ _ => exact ⟨hop, hliteral⟩
  | compareBools _ hop _ _ ihleft ihright => exact ⟨hop, ihleft, ihright⟩
  | parens _ ih => exact ih

lemma Expr.Yields.compares {layout : BoolExpr.Layout} {e : Expr} {ts : List Token}
    (h : e.Yields layout ts) : e.Compares := by
  cases e with
  | bool value => exact BoolExpr.Yields.compares h
  | number _ | string _ => trivial

/-! ### Printed text -/

namespace Segment

def IsLiteral : Segment → Prop
  | literal _ => True
  | _ => False

/-- The segment is no empty literal and no variable without a name. -/
def IsSolid : Segment → Prop
  | literal text => text ≠ ""
  | value name => name ≠ ""
  | link _ _ => True

/-- Nothing is empty among the segments, and no two literals stand side by side. -/
structure Coalesced (segments : List Segment) : Prop where
  solid : ∀ segment ∈ segments, segment.IsSolid
  apart : segments.IsChain fun a b => ¬(a.IsLiteral ∧ b.IsLiteral)

lemma coalesced_nil : Coalesced [] := ⟨by simp, .nil⟩

lemma coalesced_cons {segment : Segment} {rest : List Segment} :
    Coalesced (segment :: rest) ↔ segment.IsSolid ∧ Coalesced rest ∧
      ∀ next ∈ rest.head?, ¬(segment.IsLiteral ∧ next.IsLiteral) := by
  constructor
  · rintro ⟨hsolid, hapart⟩
    obtain ⟨hfirst, hrest⟩ := List.forall_mem_cons.mp hsolid
    obtain ⟨hnext, hchain⟩ := List.isChain_cons.mp hapart
    exact ⟨hfirst, ⟨hrest, hchain⟩, hnext⟩
  · rintro ⟨hfirst, ⟨hrest, hchain⟩, hnext⟩
    exact ⟨List.forall_mem_cons.mpr ⟨hfirst, hrest⟩, List.isChain_cons.mpr ⟨hnext, hchain⟩⟩

lemma Coalesced.glue {segment : Segment} {rest : List Segment} (hrest : Coalesced rest)
    (hname : segment ≠ value "") : Coalesced (segment.glue rest) := by
  cases segment with
  | literal a =>
    rcases rest with _ | ⟨next, rest⟩
    · by_cases ha : a = "" <;> simp [Segment.glue, ha, coalesced_nil, coalesced_cons, IsSolid]
    obtain ⟨hnext, hmore, hapart⟩ := coalesced_cons.mp hrest
    cases next with
    | literal b =>
      -- the next literal is not empty, so neither are both together
      refine coalesced_cons.mpr ⟨fun hab => hnext ?_, hmore, hapart⟩
      exact (String.append_eq_empty_iff.mp hab).2
    | value _ | link _ _ =>
      by_cases ha : a = ""
      · simpa [Segment.glue, ha] using hrest
      · simpa [Segment.glue, ha, coalesced_cons, IsSolid, IsLiteral] using coalesced_cons.mp hrest
  | value name =>
    have hsolid : name ≠ "" := by simpa using hname
    exact coalesced_cons.mpr ⟨hsolid, hrest, by simp [IsLiteral]⟩
  | link label action => exact coalesced_cons.mpr ⟨trivial, hrest, by simp [IsLiteral]⟩

end Segment

namespace Print

variable {policy : SubstitutionPolicy} {action : ActionReader} {place : Position}
  {rs : List Report}

lemma Substitution.Means.ne_value {body : List Char} {segment : Segment} (h : Means body segment) :
    segment ≠ .value "" := by
  cases h with
  | name hne => simpa using hne
  | _ => simp

lemma ne_value_of_decode {span : Span} {segment : Segment}
    (h : span.decode policy action place = ⟨rs, .ok segment⟩) : segment ≠ .value "" := by
  rcases Span.decode_eq_ok h with ⟨text, -, rfl⟩ | ⟨body, -, hmeans⟩ | ⟨_, _, _, -, rfl, -⟩
  · simp
  · exact hmeans.ne_value
  · simp

/-- **Printed text is coalesced.** -/
theorem coalesced_of_read {text : List Char} {segments : List Segment}
    (h : read policy action place text = ⟨rs, .ok segments⟩) : Segment.Coalesced segments := by
  unfold read at h
  exact Span.decodeAll_induction (motive := fun _ _ segments => Segment.Coalesced segments)
    Segment.coalesced_nil (fun hspan htail => htail.glue (ne_value_of_decode hspan)) h

end Print

/-! ### Statements and groups -/

/-- What a statement and the groups below it have to satisfy. -/
def Statement.WellFormed : Statement → Prop
  | assign _ value => value.Compares
  | conditional condition thenGroup elseGroup =>
    condition.Compares ∧ ∀ other ∈ elseGroup, other.line = thenGroup.line
  | print segments newline => Segment.Coalesced segments ∧ ∃ n, (print segments newline).OnLine n
  | button caption action extra => ∃ n, (button caption action extra).OnLine n
  | _ => True

structure Group.WellFormed (g : Group) : Prop where
  ne_nil : g.statements ≠ []
  statements : ∀ s ∈ g.statements, s.WellFormed

namespace Statement

variable {options : Options} {budget : Nat} {finish : Lexeme} {ts : List Lexeme}
  {rs : List Report} {k : Nat} {s : Statement}

lemma wellFormed_of_isBrief (h : s.IsBrief) : s.WellFormed := by
  cases s <;> trivial

lemma read_of_readPayload {ctx : Context} {l : Lexeme} {carrier : Carrier} {text : List Char}
    {segments : List Segment} {newline : Bool}
    (h : readPayload ctx l carrier text = ⟨rs, .ok (print segments newline)⟩) :
    Print.read ctx.policy ctx.action l.payloadStart text = ⟨rs, .ok segments⟩ := by
  have hmakes := Carrier.makes_of_readPayload h
  cases carrier with
  | print =>
    obtain ⟨segments', hread, heq⟩ := Outcome.map_eq_ok.mp h
    obtain ⟨rfl, -⟩ := print.inj heq
    exact hread
  | _ => exact hmakes.elim

lemma line_of_readGroup {ctx : Context} {line : Nat} {g : Group}
    (h : readGroup ctx line ts = ⟨⟨rs, .ok g⟩, k⟩) : g.line = line := by
  rw [readGroup] at h
  obtain ⟨statements, -, rfl⟩ := Parsed.map_eq_ok.mp h
  rfl

lemma wellFormed_of_readConditional {ctx : Context} {line : Nat}
    (h : readConditional ctx line ts = ⟨⟨rs, .ok s⟩, k⟩) : s.WellFormed := by
  obtain ⟨condition, i, thenGroup, first, n, hread, -, hthen, hcases⟩ := readConditional_eq_ok h
  have hcompares : condition.Compares := ((BoolExpr.gives_read ts).of_ok hread).compares
  rcases hcases with ⟨rfl, -⟩ | ⟨elseGroup, later, m, -, helse, rfl, -⟩
  · exact ⟨hcompares, by simp⟩
  · refine ⟨hcompares, fun other hother => ?_⟩
    obtain rfl : elseGroup = other := by simpa using hother
    rw [line_of_readGroup hthen, line_of_readGroup helse]

lemma wellFormed_of_readPayload {l : Lexeme} {carrier : Carrier} {text : String}
    (hl : l.token = .payload carrier text) (hfree : '\n' ∉ text.toList)
    (h : readPayload ⟨options.policy, Action.read options budget, finish⟩ l carrier text.toList =
      ⟨rs, .ok s⟩) : s.WellFormed := by
  have hline := onLine_of_readPayload hl hfree h
  have hplain := (gives_of_readPayload h).1
  cases s with
  | print segments newline => exact ⟨Print.coalesced_of_read (read_of_readPayload h), _, hline⟩
  | button => exact ⟨_, hline⟩
  | assign | conditional => exact hplain.elim
  | _ => trivial

/-- **Statements that are read are well-formed.** -/
theorem wellFormed_of_read (hts : Lexeme.OneLine ts)
    (h : read ⟨options.policy, Action.read options budget, finish⟩ ts = ⟨⟨rs, .ok s⟩, k⟩) :
    s.WellFormed := by
  rcases ts with _ | ⟨l, rest⟩
  · simp [read, Outcome.fail] at h
  rw [read] at h
  split at h
  · obtain ⟨m, hconditional, -⟩ := Parsed.after_eq_ok.mp h
    exact wellFormed_of_readConditional hconditional
  · rcases readSimple_eq_ok h with
      ⟨name, value, m, rfl, hvalue, -⟩ | ⟨carrier, text, hl, hpayload⟩ | hbrief
    · exact ((Expr.gives_read _).of_ok hvalue).compares
    · exact wellFormed_of_readPayload hl (hts l List.mem_cons_self carrier text hl) hpayload
    · exact wellFormed_of_isBrief hbrief

end Statement

/-! ### Programs -/

lemma Group.wellFormed_jump (target : String) (line : Nat) : (jump target line).WellFormed := by
  refine ⟨by simp [jump], fun s hs => ?_⟩
  obtain rfl := List.mem_singleton.mp hs
  trivial

lemma Options.keeps_wellFormed (options : Options) : options.Keeps Group.WellFormed where
  jump := Group.wellFormed_jump
  group line hts hne h := by
    refine ⟨hne, fun s hs => ?_⟩
    obtain ⟨n, rs, k, hread⟩ := h s hs
    exact Statement.wellFormed_of_read (hts.drop n) hread

/-- **Programs are well-formed.** Every group of a program that is read, at any depth and whatever
is reported, has statements in it; its printed texts are coalesced, its conditionals have branches
on one line, what stands inside one of its statements with a payload stands on one line, and its
comparisons have operators that their operands admit. -/
theorem wellFormed_of_parse {source : String} {options : Options} {out : Output}
    (h : parse source options = .ok out) : ∀ g, out.program.Contains g → g.WellFormed :=
  fun _ hg => options.keeps_wellFormed.of_contains h hg

namespace Sample

/-- A text with neighbouring literals and a link to a conditional with two branches, behind a broken
statement. -/
def nested : Program :=
  ⟨[⟨[.print [.literal "a# ", .value "b",
      .link "c" ⟨[.conditional (.compareStrings .equal (.var "d") (.const "e"))
        ⟨[.button "f" ⟨[.goto "g"], 1⟩ none], 1⟩ (some ⟨[.finish], 1⟩)], 1⟩] true], 1⟩]⟩

end Sample

/-- A program with a broken statement and groups nested in a link. -/
theorem wellFormed_of_parse_sample :
    ∃ out, parse "? & pln a##35$#$#b$[[c|if d = \"e\" then btn g, f else end]]" = .ok out ∧
      out.program = Sample.nested ∧ ∀ g, out.program.Contains g → g.WellFormed := by
  have hparse : Sample.program?
      (parse "? & pln a##35$#$#b$[[c|if d = \"e\" then btn g, f else end]]") =
      some Sample.nested := by decide +kernel
  obtain ⟨out, hout, hprogram⟩ := Sample.exists_of_program? hparse
  exact ⟨out, hout, hprogram, wellFormed_of_parse hout⟩

end QuestScript
