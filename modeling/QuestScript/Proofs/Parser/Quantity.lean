import QuestScript.Proofs.Parser.Composition
import QuestScript.Proofs.Statement.Quantity
import QuestScript.Proofs.Token.Opening
import QuestScript.Proofs.Token.Passing

/-!
Quantities and delays.

A number may stand behind `pause`, or in front of an item as the quantity of an inventory change.
The delay is read in place, in the middle of its line. The quantity is read as a text of its own, as
if a line began there. So a number that is a delay is a quantity as well unless it opens a line
(`parse_inventory_iff`): where it begins with two minus signs, with `instr`, or with `inv` and a
sign, the two differ.
-/

namespace QuestScript

open Text

/-! ### Sources of one statement -/

section

variable {ctx : Context} {l : Lexeme} {rest : List Lexeme} {s : Statement}

lemma Group.statement_of_readLine {statements : List Statement}
    (hfinish : ctx.finish.token = .mark .sourceEnd)
    (hone : ∀ o ∈ l :: rest, o.endsStatement = false)
    (h : (readLine ctx (l :: rest)).outcome = ⟨[], .ok statements⟩) :
    ∃ s, statements = [s] ∧
      Statement.read ctx (l :: rest) = ⟨⟨[], .ok s⟩, (l :: rest).length⟩ := by
  have hinside := (Statement.onLine_read hfinish (l :: rest)).le
  rcases hread : Statement.read ctx (l :: rest) with ⟨⟨first, (report | cause) | s⟩, i⟩
  · -- a broken statement is reported
    by_cases hl : l.token = .mark .ifWord
    · simp [readLine_of_dropped_if hl hread] at h
    · simp [readLine_of_dropped hl hread, Outcome.after] at h
  · simp [readLine_of_aborted hread] at h
  rw [hread] at hinside
  rw [readLine_of_ok hread] at h
  have htrailing : first ++ trailing ctx ((l :: rest).drop i) = [] :=
    (List.append_eq_nil_iff.mp (congrArg Outcome.reports h)).1
  obtain ⟨rfl, htrailing⟩ := List.append_eq_nil_iff.mp htrailing
  -- Whatever stood behind the statement would be reported, for it is no separator.
  have hnone : (l :: rest).drop i = [] := by
    rcases hbehind : (l :: rest).drop i with _ | ⟨o, behind⟩
    · rfl
    · have ho := hone o (List.mem_of_mem_drop (hbehind ▸ List.mem_cons_self))
      simp [trailing, hbehind, ho] at htrailing
  obtain rfl : i = (l :: rest).length :=
    Nat.le_antisymm hinside (List.drop_eq_nil_iff.mp hnone)
  refine ⟨s, ?_, rfl⟩
  simpa [hnone, trailing, readRest, restBy, Lexeme.statementLength, Statement.startsWith,
    Statement.continues, Outcome.pure, Outcome.map, Except.map, Outcome.after, eq_comm] using h

lemma Program.statement_of_read {line : Nat} (hfinish : ctx.finish.token = .mark .sourceEnd)
    (hone : ∀ o ∈ l :: rest, o.endsStatement = false)
    (h : (read ctx (l :: rest)).outcome = ⟨[], .ok ⟨[⟨[s], line⟩]⟩⟩) :
    Statement.read ctx (l :: rest) = ⟨⟨[], .ok s⟩, (l :: rest).length⟩ := by
  have hbreak : l.token ≠ .mark .lineBreak := by
    have := hone l (by simp)
    simp only [Lexeme.endsStatement, Bool.or_eq_false_iff, decide_eq_false_iff_not] at this
    exact this.2
  obtain ⟨groups, hgroups, hprogram⟩ := Outcome.map_eq_ok.mp h
  obtain rfl : groups = [⟨[s], line⟩] := Program.mk.inj hprogram
  rw [outcome_readGroups_cons hfinish hbreak] at hgroups
  obtain ⟨statements, first, later, hline, hlater, hreports⟩ := Outcome.bind_eq_ok.mp hgroups
  obtain ⟨rfl, rfl⟩ := List.append_eq_nil_iff.mp hreports.symm
  obtain ⟨t, rfl, hread⟩ := Group.statement_of_readLine hfinish hone hline
  obtain ⟨behind, -, hgroup⟩ := Outcome.map_eq_ok.mp hlater
  obtain rfl : t = s := by
    simp only [groupOfLine, List.isEmpty_cons, Bool.false_eq_true, if_false, List.singleton_append,
      List.cons.injEq, Group.mk.injEq, List.cons.injEq, and_true] at hgroup
    exact hgroup.1.1
  exact hread

end

/-- A source without separators is one statement without a fault exactly when nothing is wrong with
its tokens and the statement takes all of them. -/
theorem Parser.parse_statement_iff {source : String} {options : Options} {l finish : Lexeme}
    {rest : List Lexeme} {s : Statement}
    (htokens : (Scan.read .fresh .start source.toList).lexemes = l :: rest ++ [finish])
    (hfree : ∀ o ∈ l :: rest, o.token ≠ .mark .sourceEnd)
    (hfinish : finish.token = .mark .sourceEnd) (hone : ∀ o ∈ l :: rest, o.endsStatement = false) :
    parse source options = .ok ⟨⟨[⟨[s], l.start.line⟩]⟩, []⟩ ↔
      (Scan.read .fresh .start source.toList).reports = [] ∧
        Statement.read ⟨options.policy, Action.read options options.maxNesting, finish⟩
          (l :: rest) = ⟨⟨[], .ok s⟩, (l :: rest).length⟩ := by
  rw [parse_eq_ok_iff, Action.program_eq options _ htokens hfree hfinish]
  constructor
  · -- no report at all means none of the scanner and none of the reader
    rintro ⟨made, hprogram, hreports⟩
    obtain ⟨hscanned, rfl⟩ : (tokenize source).2 = [] ∧ made = [] := by
      rw [← List.append_eq_nil_iff, ← List.nil_perm, hreports]
      exact Report.sort_perm _
    exact ⟨hscanned, Program.statement_of_read hfinish hone hprogram⟩
  · rintro ⟨hscanned, hread⟩
    refine ⟨[], by rw [Program.read_statement hread], ?_⟩
    rw [tokenize, hscanned]
    rfl

lemma Parser.parse_payload_iff {source : String} {options : Options} {l finish : Lexeme}
    {carrier : Carrier} {text : String} {s : Statement}
    (hread : Scan.read .fresh .start source.toList = ⟨[l, finish], []⟩)
    (hl : l.token = .payload carrier text) (hfinish : finish.token = .mark .sourceEnd) :
    parse source options = .ok ⟨⟨[⟨[s], l.start.line⟩]⟩, []⟩ ↔
      Statement.readPayload ⟨options.policy, Action.read options options.maxNesting, finish⟩ l
        carrier text.toList = ⟨[], .ok s⟩ := by
  have htokens : _ = l :: [] ++ [finish] := congrArg Scan.lexemes hread
  rw [parse_statement_iff htokens (by simp [hl]) hfinish (by simp [Lexeme.endsStatement, hl]),
    hread, Statement.read_payload [] hl]
  simp

/-! ### Delays and quantities -/

variable {q : String} {e : NumberExpr} {options : Options}

lemma Scan.endsStatement_of_mem {mode : Mode} {place : Position} {cs : List Char} {l : Lexeme}
    (hampersand : '&' ∉ cs) (hline : '\n' ∉ cs) (h : l ∈ (read mode place cs).lexemes) :
    l.endsStatement = false := by
  simp [Lexeme.endsStatement, ne_ampersand_of_mem hampersand h, ne_lineBreak_of_mem hline h]

lemma gives_of_pause (hampersand : '&' ∉ q.toList) (hline : '\n' ∉ q.toList)
    (h : parse ("pause " ++ q) options = .ok ⟨⟨[⟨[.pause e], 1⟩]⟩, []⟩) :
    ∃ ts, Scan.Gives .inside q.toList ts ∧ e.IsReadFrom ts := by
  have hsource : ("pause " ++ q).toList = ['p', 'a', 'u', 's', 'e'] ++ ' ' :: q.toList := by
    rw [String.toList_append]
    rfl
  -- the scanner passes the word `pause` and reads on inside of the line
  obtain ⟨ls, behind, hls, hlines, -, hread⟩ :=
    Scan.passes_mark .fresh ['p', 'a', 'u', 's', 'e'] q.toList (m := .pause)
      (by decide +kernel) (by decide +kernel) (by decide) .start
  have hmode : Mode.fresh.after (.mark .pause) = .inside := rfl
  rw [hmode] at hread
  obtain ⟨l, rfl, hl⟩ := Lexeme.Spell.single hls
  obtain ⟨rest, hrest, hfree⟩ := Scan.exists_lexemes_eq .inside behind q.toList
  have hone : ∀ o ∈ rest, o.endsStatement = false := fun o ho =>
    Scan.endsStatement_of_mem hampersand hline (hrest ▸ List.mem_append_left _ ho)
  have hstart : l.start.line = 1 := hlines l (by simp)
  have htokens : (Scan.read .fresh .start ("pause " ++ q).toList).lexemes =
      l :: rest ++ [⟨.mark .sourceEnd, "", behind.advance q.toList⟩] := by
    rw [hsource, hread, hrest]
    rfl
  rw [← hstart, Parser.parse_statement_iff htokens (by simpa [hl] using hfree) rfl
    (by simpa [Lexeme.endsStatement, hl] using hone)] at h
  obtain ⟨hreports, hstatement⟩ := h
  refine ⟨rest.map Lexeme.token, (Scan.gives_iff behind).mpr ⟨?_, ?_⟩,
    NumberExpr.isReadFrom_iff.mpr ((Statement.read_pause hl).mp hstatement)⟩
  · rwa [hsource, hread] at hreports
  · rw [hrest, List.map_append]
    rfl

lemma parse_inventory_eq_ok (remove : Bool) (hcomma : ',' ∉ q.toList) (hampersand : '&' ∉ q.toList)
    (hline : '\n' ∉ q.toList) :
    parse ((if remove then "inv- " else "inv+ ") ++ q ++ ", item") options =
        .ok ⟨⟨[⟨[.inventory (.change (if remove then .negate e else e) "item")], 1⟩]⟩, []⟩ ↔
      ∃ ts, Scan.Gives .fresh (trim q.toList) ts ∧ e.IsReadFrom ts := by
  let item : List Char := [' ', 'i', 't', 'e', 'm']
  have hitem : trim item = ['i', 't', 'e', 'm'] := by decide
  have hsource : ((if remove then "inv- " else "inv+ ") ++ q ++ ", item").toList =
      InventoryChange.keyword remove ++ ' ' :: (q.toList ++ ',' :: item) := by
    rw [String.toList_append, String.toList_append, List.append_assoc]
    cases remove <;> rfl
  have hplain : Payload.IsPlain (q.toList ++ ',' :: item) := by
    refine List.forall_mem_append.mpr ⟨fun c hc => ?_, List.forall_mem_cons.mpr ⟨by decide, ?_⟩⟩
    · exact ⟨fun h => hampersand (h ▸ hc), fun h => hline (h ▸ hc)⟩
    · simp [item]
  have hreturn : dropReturn (q.toList ++ ',' :: item) = q.toList ++ ',' :: item :=
    dropReturn_eq_self (by simp [item, List.getLast?_append])
  have hread := Scan.read_inventory remove .start hplain
  rw [hreturn, ← hsource] at hread
  refine (Parser.parse_payload_iff hread rfl rfl).trans ?_
  rw [String.toList_ofList, Statement.readPayload_inventory, Outcome.map_eq_ok]
  simp only [Statement.inventory.injEq, exists_eq_right]
  exact InventoryChange.read_eq_ok remove _ hcomma (by decide) (by simp [hitem])

/-- **A number that is a delay is a quantity as well unless it opens a line.** If `pause` with a
text on one line, without commas and ampersands, is a delay and nothing is wrong with it, then the
same text in front of an item is its quantity, and the negated quantity of an item that is taken
away, exactly when the trimmed text opens no line. -/
theorem parse_inventory_iff (remove : Bool) (hcomma : ',' ∉ q.toList) (hampersand : '&' ∉ q.toList)
    (hline : '\n' ∉ q.toList)
    (h : parse ("pause " ++ q) options = .ok ⟨⟨[⟨[.pause e], 1⟩]⟩, []⟩) :
    parse ((if remove then "inv- " else "inv+ ") ++ q ++ ", item") options =
        .ok ⟨⟨[⟨[.inventory (.change (if remove then .negate e else e) "item")], 1⟩]⟩, []⟩ ↔
      opensLine (opening (trim q.toList)) = false := by
  obtain ⟨ts, hgives, hread⟩ := gives_of_pause hampersand hline h
  have hinside := hgives.trim hline hread.yields.text?_eq_none
  have hfree : '\n' ∉ trim q.toList := fun hmem => hline (trim_subset _ hmem)
  rw [parse_inventory_eq_ok remove hcomma hampersand hline]
  constructor
  · rintro ⟨us, hfresh, hus⟩
    -- a text that opens a line there starts with no number
    by_contra hopens
    have hhead := Scan.head?_of_opensLine .start hfree (by simpa using hopens)
    obtain ⟨ls, hscan, rfl, hend⟩ := hfresh.exists_lexemes .start
    rcases ls with _ | ⟨l, rest⟩
    · exact hus.yields.ne_nil rfl
    rw [hscan] at hhead
    rcases hhead l rfl with hl | ⟨carrier, text, hl⟩
    · exact hend l (by simp) hl
    · have htext := hus.yields.text?_eq_none l.token (by simp)
      simp [hl, Token.text?] at htext
  · -- any other text has the same tokens there as inside of a line
    intro hopens
    refine ⟨ts, (Scan.gives_iff .start).mpr ?_, hread⟩
    rw [Scan.read_fresh .start hfree (hinside .start).1 hopens]
    exact hinside .start

/-- Comments and blanks in front of a quantity are passed over, and so is a remark behind it. -/
theorem parse_inventory_iff_sample :
    parse "inv-  /* weight */ 2 * inv + 1 ; in all, item" = .ok ⟨⟨[⟨[.inventory (.change (.negate
      (.binary .add (.binary .multiply (.const ⟨0x4000000000000000⟩) (.var "inv"))
        (.const ⟨0x3FF0000000000000⟩))) "item")], 1⟩]⟩, []⟩ :=
  (parse_inventory_iff (q := " /* weight */ 2 * inv + 1 ; in all") true (by decide) (by decide)
    (by decide) (by decide +kernel)).mpr (by decide +kernel)

/-- The word `inv` in front of a sign is a variable of a delay. As the start of a quantity it is
taken for an inventory statement, and the change is left out. -/
theorem not_change_of_inventory_word :
    parse "pause inv-1" = .ok ⟨⟨[⟨[.pause
        (.binary .subtract (.var "inv") (.const ⟨0x3FF0000000000000⟩))], 1⟩]⟩, []⟩ ∧
      parse "inv+ inv-1, item" = .ok ⟨⟨[]⟩,
        [⟨.unexpectedToken .number (.payload .inventoryRemove "1") none, ⟨1, 6⟩⟩]⟩ := by
  decide +kernel

end QuestScript
