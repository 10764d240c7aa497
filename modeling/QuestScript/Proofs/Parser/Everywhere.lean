import QuestScript.Proofs.Parser.Correspondence
import QuestScript.Proofs.Program.Guarded
import QuestScript.Proofs.Program.RoundTrip

/-!
What holds of all groups of a program.

Lines, branches and actions are made of statements that were read, each by itself, from tokens of
one text. So what holds of jumps and of such groups of statements holds of all groups of a program,
at any depth, also where something was reported.
-/

namespace QuestScript

open Lexeme (OneLine)

/-- The statement is read somewhere in the list. -/
def Context.Reads (ctx : Context) (ts : List Lexeme) (s : Statement) : Prop :=
  ∃ n rs k, Statement.read ctx (ts.drop n) = ⟨⟨rs, .ok s⟩, k⟩

lemma Context.Reads.of_drop {ctx : Context} {ts : List Lexeme} {s : Statement} {n : Nat}
    (h : ctx.Reads (ts.drop n) s) : ctx.Reads ts s := by
  obtain ⟨m, rs, k, hread⟩ := h
  exact ⟨n + m, rs, k, by rwa [← List.drop_drop]⟩

variable {ctx : Context} {ts : List Lexeme} {rs : List Report} {k : Nat}

lemma Statement.reads_of_readChain {chain : List Statement}
    (h : readChain ctx ts = ⟨⟨rs, .ok chain⟩, k⟩) : chain ≠ [] ∧ ∀ s ∈ chain, ctx.Reads ts s := by
  induction chain generalizing ts rs k with
  | nil =>
    obtain ⟨s, first, i, -, ⟨hnil, -⟩ | ⟨tail, later, m, -, -, hnil, -⟩⟩ := readChain_eq_ok h
    · simp at hnil
    · simp at hnil
  | cons t tail ih =>
    refine ⟨by simp, fun s hs => ?_⟩
    obtain ⟨t', first, i, hread, hcases⟩ := readChain_eq_ok h
    rcases hcases with ⟨hchain, -⟩ | ⟨tail', later, m, -, htail, hchain, -⟩
    · obtain ⟨rfl, rfl⟩ := List.cons.inj hchain
      obtain rfl := List.mem_singleton.mp hs
      exact ⟨0, first, i, hread⟩
    · obtain ⟨rfl, rfl⟩ := List.cons.inj hchain
      rcases List.mem_cons.mp hs with rfl | hs
      · exact ⟨0, first, i, hread⟩
      · exact ((ih htail).2 s hs).of_drop

lemma Program.reads_of_mem {p : Program} {g : Group} (h : (read ctx ts).outcome = ⟨rs, .ok p⟩)
    (hg : g ∈ p.groups) : g.statements ≠ [] ∧ ∀ s ∈ g.statements, ctx.Reads ts s := by
  obtain ⟨n, made, hline, -, hne⟩ := exists_of_mem_read h hg
  refine ⟨hne, fun s hs => ?_⟩
  obtain ⟨j, first, i, hread, -⟩ := Group.exists_of_mem_readLine hline hs
  exact Context.Reads.of_drop ⟨j, first, i, hread⟩

lemma Program.reads_of_mem_statements {p : Program} {s : Statement}
    (h : (read ctx ts).outcome = ⟨rs, .ok p⟩) (hs : s ∈ p.statements) : ctx.Reads ts s := by
  obtain ⟨g, hg, hs⟩ := List.mem_flatMap.mp hs
  exact (reads_of_mem h hg).2 s hs

lemma Context.Keeps.everywhere_of_reads {P : Group → Prop} {s : Statement} (h : ctx.Keeps P)
    (hts : OneLine ts) (hs : ctx.Reads ts s) : ∀ g ∈ s.groups, g.Everywhere P := by
  obtain ⟨n, rs, k, hread⟩ := hs
  exact Statement.everywhere_of_read h _ (hts.drop n) rs s k hread

/-- The property holds of jumps, and of groups of statements that are read, whatever their actions
may nest to. -/
structure Options.Keeps (options : Options) (P : Group → Prop) : Prop where
  jump (target : String) (line : Nat) : P (.jump target line)
  group {budget : Nat} {finish : Lexeme} {ts : List Lexeme} {statements : List Statement}
    (line : Nat) (hts : OneLine ts) (hne : statements ≠ [])
    (h : ∀ s ∈ statements,
      Context.Reads ⟨options.policy, Action.read options budget, finish⟩ ts s) :
    P ⟨statements, line⟩

namespace Options.Keeps

variable {options : Options} {P : Group → Prop} {budget : Nat} {place : Position} {text : List Char}

lemma context (h : options.Keeps P) (finish : Lexeme)
    (haction : ∀ place text rs g, '\n' ∉ text →
      Action.read options budget place text = ⟨rs, .ok g⟩ → g.Everywhere P) :
    Context.Keeps ⟨options.policy, Action.read options budget, finish⟩ P where
  jump := h.jump
  action hline hread := haction _ _ _ _ hline hread
  branch line hts hread :=
    have hchain := Statement.reads_of_readChain hread
    h.group line hts hchain.1 hchain.2

lemma everywhere_of_reads (h : options.Keeps P) (finish : Lexeme) {statements : List Statement}
    (haction : ∀ place text rs g, '\n' ∉ text →
      Action.read options budget place text = ⟨rs, .ok g⟩ → g.Everywhere P)
    (line : Nat) (hts : OneLine ts) (hne : statements ≠ [])
    (hreads : ∀ s ∈ statements,
      Context.Reads ⟨options.policy, Action.read options budget, finish⟩ ts s) :
    (Group.mk statements line).Everywhere P :=
  Group.everywhere_iff.mpr ⟨h.group line hts hne hreads, fun s hs =>
    (h.context finish haction).everywhere_of_reads hts (hreads s hs)⟩

/-- Actions keep a property at any depth. -/
theorem everywhere_of_action (h : options.Keeps P) {g : Group} (hline : '\n' ∉ text)
    (hread : Action.read options budget place text = ⟨rs, .ok g⟩) : g.Everywhere P := by
  induction budget generalizing place text rs g with
  | zero =>
    rcases htarget : Action.target? text with _ | target
    · simp [Action.read_zero htarget] at hread
    · rw [Action.read_of_target? 0 htarget] at hread
      obtain ⟨-, rfl⟩ := Outcome.pure_eq_ok.mp hread
      exact Group.everywhere_jump (h.jump _ _)
  | succ n ih =>
    rcases htarget : Action.target? text with _ | target
    · -- the text was read as a program, whose statements are those of the group
      rw [Action.read_succ n htarget] at hread
      obtain ⟨p, made, hprogram, -, hne, rfl⟩ := Action.ofProgram_eq_ok hread
      have hts := (Scan.laid_read .fresh place text).untilEnd.oneLine
      have hreads (s : Statement) (hs : s ∈ p.statements) :=
        Program.reads_of_mem_statements hprogram hs
      exact h.everywhere_of_reads _ (fun _ _ _ _ => ih) place.line hts hne hreads
    · rw [Action.read_of_target? (n + 1) htarget] at hread
      obtain ⟨-, rfl⟩ := Outcome.pure_eq_ok.mp hread
      exact Group.everywhere_jump (h.jump _ _)

end Options.Keeps

lemma exists_of_parse_eq_ok {source : String} {options : Options} {out : Output}
    (h : parse source options = .ok out) :
    ∃ finish ts rs, OneLine ts ∧
      (Program.read ⟨options.policy, Action.read options options.maxNesting, finish⟩ ts).outcome =
        ⟨rs, .ok out.program⟩ := by
  rw [parse_eq_program] at h
  split at h
  · next p hresult =>
    obtain rfl := Except.ok.inj h
    rcases hread : (Action.program options options.maxNesting .start source.toList).outcome
      with ⟨made, result⟩
    rw [Parsed.result, hread] at hresult
    subst hresult
    exact ⟨_, _, made, (Scan.laid_read .fresh .start source.toList).untilEnd.oneLine, hread⟩
  · simp at h

/-- **What is kept holds of all groups of a program**, at any depth. -/
theorem Options.Keeps.of_contains {options : Options} {P : Group → Prop} (h : options.Keeps P)
    {source : String} {out : Output} {g : Group} (hparse : parse source options = .ok out)
    (hg : out.program.Contains g) : P g := by
  obtain ⟨⟨statements, line⟩, htop, hwithin⟩ := hg
  obtain ⟨finish, ts, rs, hts, hread⟩ := exists_of_parse_eq_ok hparse
  obtain ⟨hne, hreads⟩ := Program.reads_of_mem hread htop
  exact h.everywhere_of_reads finish (fun _ _ _ _ => h.everywhere_of_action) line hts hne hreads g
    hwithin

end QuestScript
