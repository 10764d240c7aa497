import QuestScript.Proofs.Program.Origin

/-!
What holds of all groups inside the statements that are read.

The groups in a statement are jumps, actions and branches. What holds of jumps, of the groups inside
actions, and of every chain of statements holds of all groups inside a statement, at any depth.
-/

namespace QuestScript

/-- The payloads among the lexemes stay on one line. -/
def Lexeme.OneLine (ts : List Lexeme) : Prop :=
  ∀ l ∈ ts, ∀ carrier text, l.token = .payload carrier text → '\n' ∉ text.toList

lemma Lexeme.OneLine.drop {ts : List Lexeme} (h : OneLine ts) (n : Nat) : OneLine (ts.drop n) :=
  fun l hl => h l (List.mem_of_mem_drop hl)

/-- The property holds of jumps, of the actions that are read on one line, and of the branches that
are read. -/
structure Context.Keeps (ctx : Context) (P : Group → Prop) : Prop where
  jump (target : String) (line : Nat) : P (.jump target line)
  action {place : Position} {text : List Char} {rs : List Report} {g : Group}
    (hline : '\n' ∉ text) (h : ctx.action place text = ⟨rs, .ok g⟩) : g.Everywhere P
  branch {ts : List Lexeme} {rs : List Report} {statements : List Statement} {k : Nat} (line : Nat)
    (hts : Lexeme.OneLine ts) (h : Statement.readChain ctx ts = ⟨⟨rs, .ok statements⟩, k⟩) :
    P ⟨statements, line⟩

namespace Statement

variable {ctx : Context} {P : Group → Prop} {ts : List Lexeme}

open Lexeme (OneLine)

lemma everywhere_of_gives {payload : List Char} {rs : List Report} {g : Group} (h : ctx.Keeps P)
    (hline : '\n' ∉ payload) (hg : ctx.action.Gives payload rs g) : g.Everywhere P := by
  rcases hg with ⟨target, line, rfl⟩ | ⟨place, text, made, htext, -, hg⟩
  · exact Group.everywhere_jump (h.jump target line)
  · exact h.action (fun hmem => hline (htext hmem)) hg

/-- What the property comes to for a list of lexemes. -/
def Kept (ctx : Context) (P : Group → Prop) (ts : List Lexeme) : Prop :=
  OneLine ts → ∀ rs s k, read ctx ts = ⟨⟨rs, .ok s⟩, k⟩ → ∀ g ∈ s.groups, g.Everywhere P

/-- **Properties of groups are kept** in the statements that are read, at any depth. -/
theorem everywhere_of_read (h : ctx.Keeps P) (ts : List Lexeme) : Kept ctx P ts := by
  refine (read.mutual_induct (Kept ctx P)
    (fun line ts => OneLine ts → ∀ rs s k, readConditional ctx line ts = ⟨⟨rs, .ok s⟩, k⟩ →
      ∀ g ∈ s.groups, g.Everywhere P)
    (fun line ts => OneLine ts → ∀ rs g k, readGroup ctx line ts = ⟨⟨rs, .ok g⟩, k⟩ →
      g.Everywhere P)
    (fun ts => OneLine ts → ∀ rs statements k, readChain ctx ts = ⟨⟨rs, .ok statements⟩, k⟩ →
      ∀ s ∈ statements, ∀ g ∈ s.groups, g.Everywhere P)
    ?nothing ?conditional ?simple ?branches ?group ?chain).1 ts
  case nothing =>
    intro _ rs s k hread
    simp [read, Outcome.fail] at hread
  case conditional =>
    intro l rest hl hconditional hts rs s k hread
    rw [read, if_pos hl] at hread
    obtain ⟨m, hread, -⟩ := Parsed.after_eq_ok.mp hread
    exact hconditional (hts.drop 1) _ _ _ hread
  case simple =>
    intro l rest hl hts rs s k hread
    rw [read, if_neg hl] at hread
    rcases readSimple_eq_ok hread with
      ⟨name, value, m, rfl, -, -⟩ | ⟨carrier, text, htoken, hpayload⟩ | hbrief
    · simp [groups]
    · exact fun g hg =>
        everywhere_of_gives h (hts l List.mem_cons_self carrier text htoken)
          ((gives_of_readPayload hpayload).2 g hg)
    · simp [hbrief.groups_eq_nil]
  case branches =>
    intro line ts hthen helse hts rs s k hread
    obtain ⟨condition, i, thenGroup, first, n, -, -, hgroup, hcases⟩ := readConditional_eq_ok hread
    have hfirst := hthen i (hts.drop _) _ _ _ hgroup
    rcases hcases with ⟨rfl, -⟩ | ⟨elseGroup, later, m, -, hother, rfl, -⟩
    · simpa [groups] using hfirst
    · have hsecond := helse i n (hts.drop _) _ _ _ hother
      simpa [groups] using ⟨hfirst, hsecond⟩
  case group =>
    intro line ts hchain hts rs g k hread
    rw [readGroup] at hread
    obtain ⟨statements, hstatements, rfl⟩ := Parsed.map_eq_ok.mp hread
    exact Group.everywhere_iff.mpr ⟨h.branch line hts hstatements, hchain hts _ _ _ hstatements⟩
  case chain =>
    intro ts hread hchain hts rs statements k hstatements
    obtain ⟨s, first, i, hs, hcases⟩ := readChain_eq_ok hstatements
    have hfirst := hread hts _ _ _ hs
    rcases ts with _ | ⟨l, rest⟩
    · simp [read, Outcome.fail] at hs
    rcases hcases with ⟨rfl, -⟩ | ⟨tail, later, m, -, htail, rfl, -⟩
    · simpa using hfirst
    · rw [List.drop_succ_cons] at htail
      have hlater := hchain i ((hts.drop 1).drop i) _ _ _ htail
      intro t ht
      rcases List.mem_cons.mp ht with rfl | ht
      · exact hfirst
      · exact hlater t ht

end Statement

end QuestScript
