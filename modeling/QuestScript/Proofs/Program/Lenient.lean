import QuestScript.Action.Reading
import QuestScript.Proofs.Program.Correspondence

/-!
Leaving statements out.

Reading is given up for bad character codes alone. Where the statement is left out instead, nothing
is given up: no text, no statement, no line, and no action at any depth, whatever the lexemes are.
-/

namespace QuestScript

open Correspondence (outcome_bind bare_readSimple harmless_lift harmless_missing
  harmless_readInventory harmless_requiredName)

/-- Nothing makes a reader give up: statements with bad character codes are left out, and so are
actions that cannot be read. -/
structure Context.Lenient (ctx : Context) : Prop where
  policy : ctx.policy = .dropStatement
  action (place : Position) (text : List Char) : ¬(ctx.action place text).IsAborted

namespace Outcome

variable {α β : Type} {o : Outcome Refusal α}

lemma not_isAborted_pure (a : α) : ¬(pure a : Outcome Refusal α).IsAborted := by
  simp [IsAborted, pure]

lemma not_isAborted_drop (fault : Fault) (place : Position) :
    ¬(drop fault place : Outcome Refusal α).IsAborted := by
  simp [IsAborted, drop, fail]

lemma Harmless.not_isAborted (h : o.Harmless) : ¬o.IsAborted := by
  rintro ⟨cause, hcause⟩
  obtain ⟨report, hreport, -⟩ := h.refusal _ hcause
  simp at hreport

lemma not_isAborted_bind {next : α → Outcome Refusal β} (h : ¬o.IsAborted)
    (hnext : ∀ a, ¬(next a).IsAborted) : ¬(o.bind next).IsAborted := by
  rcases hresult : o.result with refusal | a
  · rw [bind_of_error hresult]
    rintro ⟨cause, hcause⟩
    exact h ⟨cause, hresult.trans (congrArg Except.error (Except.error.inj hcause))⟩
  · rw [bind_of_ok hresult]
    exact hnext a

lemma not_isAborted_map (f : α → β) (h : ¬o.IsAborted) : ¬(o.map f).IsAborted := by
  rw [← bind_pure]
  exact not_isAborted_bind h fun a => not_isAborted_pure (f a)

end Outcome

open Outcome (not_isAborted_pure not_isAborted_drop not_isAborted_map not_isAborted_bind)

variable {ctx : Context} (h : ctx.Lenient)

include h

/-! ### Texts -/

namespace Print

lemma not_isAborted_readLink (place : Position) (inner : List Char) :
    ¬(readLink ctx.action place inner).IsAborted := by
  unfold readLink
  simp only
  split
  · exact not_isAborted_drop _ _
  · split
    · exact not_isAborted_pure _
    · exact not_isAborted_map _ (h.action _ _)

lemma not_isAborted_decode (place : Position) (span : Span) :
    ¬(span.decode ctx.policy ctx.action place).IsAborted := by
  cases span with
  | plain text => exact not_isAborted_pure _
  | link inner => exact not_isAborted_readLink h _ inner
  | substitution body =>
    simp only [Span.decode, h.policy]
    split
    · exact not_isAborted_pure _
    · exact not_isAborted_drop _ _

lemma not_isAborted_decodeAll (place : Position) (spans : List Span) :
    ¬(Span.decodeAll ctx.policy ctx.action place spans).IsAborted := by
  induction spans generalizing place with
  | nil => exact not_isAborted_pure _
  | cons span spans ih =>
    exact not_isAborted_bind (not_isAborted_decode h place span) fun segment =>
      not_isAborted_map _ (ih _)

end Print

/-! ### Statements -/

namespace Statement

lemma not_isAborted_readButton (place : Position) (payload : List Char) :
    ¬(readButton ctx.action place payload).IsAborted := by
  unfold readButton
  split
  · exact not_isAborted_drop _ _
  · split
    · exact not_isAborted_drop _ _
    · exact not_isAborted_pure _
  · split
    · exact not_isAborted_drop _ _
    · exact not_isAborted_map _ (h.action _ _)

lemma not_isAborted_readPayload (l : Lexeme) (carrier : Carrier) (text : List Char) :
    ¬(readPayload ctx l carrier text).IsAborted := by
  cases carrier with
  | print newline => exact not_isAborted_map _ (Print.not_isAborted_decodeAll h _ _)
  | button => exact not_isAborted_readButton h _ _
  | goto | call | label | media =>
    exact not_isAborted_map _ (harmless_requiredName _ _).not_isAborted
  | inventoryAdd | inventoryRemove =>
    exact not_isAborted_map _ (harmless_readInventory _ _).not_isAborted
  | save | inventoryClear => exact not_isAborted_pure _

lemma not_isAborted_readSimple (l : Lexeme) (rest : List Lexeme) :
    ¬(readSimple ctx l rest).outcome.IsAborted := by
  by_cases hl : ∃ carrier text, l.token = .payload carrier text
  · obtain ⟨carrier, text, hl⟩ := hl
    simp only [readSimple, hl]
    exact not_isAborted_readPayload h l carrier _
  · simp only [not_exists] at hl
    exact (bare_readSimple ctx rest hl).harmless.not_isAborted

/-- **No statement gives up reading.** -/
theorem not_isAborted_read (ts : List Lexeme) : ¬(read ctx ts).outcome.IsAborted := by
  refine (read.mutual_induct (fun ts => ¬(read ctx ts).outcome.IsAborted)
    (fun line ts => ¬(readConditional ctx line ts).outcome.IsAborted)
    (fun line ts => ¬(readGroup ctx line ts).outcome.IsAborted)
    (fun ts => ¬(readChain ctx ts).outcome.IsAborted)
    ?nothing ?conditional ?simple ?branches ?group ?chain).1 ts
  case nothing =>
    rw [read]
    exact (harmless_missing ctx _ _).not_isAborted
  case conditional =>
    intro l rest hl hconditional
    rw [read, if_pos hl]
    exact hconditional
  case simple =>
    intro l rest hl
    rw [read, if_neg hl]
    exact not_isAborted_readSimple h l rest
  case branches =>
    intro line ts hthen helse
    rw [readConditional, outcome_bind]
    refine not_isAborted_bind (harmless_lift ctx _ _).not_isAborted fun condition => ?_
    rw [outcome_bind]
    refine not_isAborted_bind ?_ fun _ => ?_
    · unfold takeThen
      split
      · exact not_isAborted_pure _
      · exact (harmless_missing ctx _ _).not_isAborted
    · rw [outcome_bind]
      refine not_isAborted_bind (hthen _) fun thenGroup => ?_
      split
      · exact not_isAborted_map _ (helse _ _)
      · exact not_isAborted_pure _
  case group =>
    intro line ts hchain
    rw [readGroup]
    exact not_isAborted_map _ hchain
  case chain =>
    intro ts hread hchain
    rw [readChain, outcome_bind]
    refine not_isAborted_bind hread fun statement => ?_
    split
    · exact not_isAborted_pure _
    · next l rest =>
      split
      · exact not_isAborted_map _ (hchain _)
      · exact not_isAborted_pure _

end Statement

/-! ### Lines, programs and actions -/

/-- **Every line is read.** -/
theorem Group.exists_readLine (ts : List Lexeme) :
    ∃ statements, (readLine ctx ts).result = .ok statements := by
  induction hn : ts.length using Nat.strongRecOn generalizing ts with
  | ind n ih =>
  rcases ts with _ | ⟨l, rest⟩
  · exact ⟨[], by rw [readLine]; rfl⟩
  -- what is left of the line is shorter
  have hrest (i : Nat) : ∃ later, (readRest ctx ((l :: rest).drop i)).result = .ok later := by
    rcases restBy_cases (readLine ctx) ((l :: rest).drop i) with hnone | ⟨m, hm, hline⟩
    · exact ⟨[], congrArg Outcome.result hnone⟩
    · have hle : ((l :: rest).drop i).length ≤ n := hn ▸ (List.drop_sublist i _).length_le
      obtain ⟨later, hlater⟩ := ih _ (hm.trans_le hle) _ rfl
      exact ⟨later, (congrArg Outcome.result hline).trans hlater⟩
  rcases hread : Statement.read ctx (l :: rest) with ⟨⟨first, (report | cause) | s⟩, i⟩
  · -- the first statement is left out, and a broken conditional takes the line with it
    by_cases hl : l.token = .mark .ifWord
    · exact ⟨[], by rw [readLine_of_dropped_if hl hread]; rfl⟩
    · rw [readLine_of_dropped hl hread]
      exact hrest i
  · exact absurd ⟨cause, by rw [hread]⟩ (Statement.not_isAborted_read h (l :: rest))
  · obtain ⟨later, hlater⟩ := hrest i
    rw [readLine_of_ok hread]
    exact ⟨s :: later, by
      rw [Parsed.result] at hlater ⊢
      simp [Outcome.map, Outcome.after, Except.map, hlater]⟩

/-- **Every program is read.** -/
theorem Program.exists_read (ts : List Lexeme) : ∃ p, (read ctx ts).result = .ok p := by
  have hgroups : ∃ groups, (readGroups ctx ts).result = .ok groups := by
    fun_induction readGroups ctx ts with
    | case1 => exact ⟨[], rfl⟩
    | case2 l rest hl ih => exact ih
    | case3 l rest hl line cause hline =>
      obtain ⟨statements, hstatements⟩ := Group.exists_readLine h (l :: rest)
      exact absurd (hline.symm.trans hstatements) (by simp)
    | case4 l rest hl line statements hline more group later ih =>
      obtain ⟨groups, hgroups⟩ := ih
      exact ⟨group ++ groups, by
        rw [Parsed.result] at hgroups ⊢
        simp [Outcome.map, Outcome.after, Except.map, later, hgroups]⟩
  obtain ⟨groups, hgroups⟩ := hgroups
  exact ⟨⟨groups⟩, by
    rw [Parsed.result] at hgroups
    simp [read, Parsed.map, Parsed.result, Outcome.map, Except.map, hgroups]⟩

omit h

namespace Action

lemma not_isAborted_ofProgram {o : Outcome Report Program} (h : ∃ p, o.result = .ok p)
    (place : Position) (text : List Char) (scanned : List Report) :
    ¬(ofProgram place text scanned o).IsAborted := by
  obtain ⟨p, hp⟩ := h
  unfold ofProgram
  simp only [hp]
  split <;> simp [Outcome.IsAborted]

/-- **No action gives up reading**, whatever stands in it, if statements are left out. -/
theorem not_isAborted_read {options : Options} (h : options.policy = .dropStatement)
    (budget : Nat) (place : Position) (text : List Char) :
    ¬(read options budget place text).IsAborted := by
  induction budget generalizing place text with
  | zero =>
    rw [read]
    split
    · exact not_isAborted_pure _
    · exact not_isAborted_drop _ _
  | succ n ih =>
    rw [read]
    split
    · exact not_isAborted_pure _
    · exact not_isAborted_ofProgram (Program.exists_read ⟨h, ih⟩ _) _ _ _

end Action

end QuestScript
