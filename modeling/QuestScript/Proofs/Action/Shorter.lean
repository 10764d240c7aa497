import QuestScript.Proofs.Parser.Limit
import QuestScript.Proofs.Program.Composition

/-!
Actions are shorter than the texts they stand in.

A program depends on the reader of its actions only where texts are shorter than its own
(`Program.outcome_read_congr`). So reading an action goes on to shorter ones only, and comes to an
end by that, whatever the limit on nesting is (`Action.read_eq_readShorter`).
-/

namespace QuestScript

open Lexeme (untilEnd)

namespace Parallel

variable {n : Nat}

/-- The reading of texts of less than so many characters, in parallel with itself, whatever is
reported. -/
def below (n : Nat) : Parallel := { spare n with report := Eq }

lemma lexemes_below {l : Lexeme} (hn : 0 < n)
    (h : ∀ carrier text, l.token = .payload carrier text → text.length < n) :
    (below n).Lexemes l l :=
  ⟨rfl, ⟨rfl, hn⟩, fun htoken => ⟨rfl, by
    rw [String.length_toList]
    exact h _ _ htoken⟩⟩

lemma lawful_below (n : Nat) : (below n).Lawful where
  part h := (lawful_spare n).part h
  line h := (lawful_spare n).line h
  fault h _ _ := congrArg (Report.mk _) h.1.symm
  code _ h := congrArg (Report.mk _) h.1.symm
  reports h := by
    obtain ⟨rfl, -⟩ := h
    exact List.forall₂_same.mpr fun _ _ => rfl
  lexemes h := ((lawful_spare n).lexemes h).imp fun _ _ hl => ⟨hl.1, hl.2, hl.3⟩

lemma contexts_below {policy : SubstitutionPolicy} {action action' : ActionReader}
    (h : ∀ p cs, cs.length < n → action p cs = action' p cs) (finish : Lexeme) :
    (below n).Contexts ⟨policy, action, finish⟩ ⟨policy, action', finish⟩ where
  lawful := lawful_below n
  policy := rfl
  action htext := by
    obtain ⟨rfl, hshort⟩ := htext
    simp only [h _ _ hshort]
    exact (outcomes_same (fun g => (Group.renumber_id g).symm) _).imp fun _ _ => id

end Parallel

namespace Program

/-- **A program depends on its short actions only.** If its payloads are short, readers that agree
on short actions read it as the same. -/
theorem outcome_read_congr {policy : SubstitutionPolicy} {action action' : ActionReader}
    {finish : Lexeme} {ts : List Lexeme} {n : Nat} (hfinish : finish.token = .mark .sourceEnd)
    (hn : 0 < n) (haction : ∀ p cs, cs.length < n → action p cs = action' p cs)
    (hts : ∀ l ∈ ts, ∀ carrier text, l.token = .payload carrier text → text.length < n) :
    (read ⟨policy, action, finish⟩ ts).outcome = (read ⟨policy, action', finish⟩ ts).outcome := by
  have hlexemes : List.Forall₂ (Parallel.below n).Lexemes ts ts :=
    List.forall₂_same.mpr fun l hl => Parallel.lexemes_below hn (hts l hl)
  have hclosed : (Parallel.below n).Closed finish finish ts :=
    .inl (Parallel.lexemes_below hn (by simp [hfinish]))
  have hcontexts : (Parallel.below n).Contexts ⟨policy, action, finish⟩ ⟨policy, action', finish⟩ :=
    Parallel.contexts_below haction finish
  exact ((hcontexts.readProgram hfinish hfinish hlexemes hclosed).eq_of_escalate rfl rfl).symm

end Program

namespace Action

/-- Reads an action, but leaves what is not shorter than the text around it to another reader. -/
def readShorter (other : ActionReader) (options : Options) (budget : Nat) (place : Position)
    (text : List Char) : Outcome Refusal Group :=
  match target? text with
  | some target => .pure (.jump (String.ofList target) place.line)
  | none =>
    match budget with
    | 0 => .drop (.nestingLimit options.maxNesting) place
    | n + 1 =>
      let inner : ActionReader := fun p cs =>
        if cs.length < text.length then readShorter other options n p cs else other p cs
      let scan := Scan.read .fresh place text
      let (ts, finish) := untilEnd scan.lexemes
      ofProgram place text scan.reports (Program.read ⟨options.policy, inner, finish⟩ ts).outcome
termination_by text.length

/-- **Reading an action only goes on to shorter ones.** So it comes to an end whatever the limit on
nesting is. -/
theorem read_eq_readShorter (other : ActionReader) (options : Options) (budget : Nat)
    (place : Position) (text : List Char) :
    read options budget place text = readShorter other options budget place text := by
  induction budget generalizing place text with
  | zero =>
    unfold readShorter
    rcases htarget : target? text with _ | target
    · exact read_zero htarget
    · exact read_of_target? 0 htarget
  | succ n ih =>
    unfold readShorter
    rcases htarget : target? text with _ | target
    · simp only [read_succ n htarget, program]
      congr 1
      rcases text with _ | ⟨c, rest⟩
      · -- Nothing is read from an empty text.
        simp [Scan.read_nil, untilEnd, Program.read, Program.readGroups]
      refine Program.outcome_read_congr (Lexeme.token_untilEnd _) (Nat.succ_pos rest.length)
        (fun p cs hcs => ?_) fun l hl carrier payload htoken => ?_
      · rw [List.length_cons, if_pos hcs]
        exact ih p cs
      · exact Scan.length_lt_of_payload ((List.takeWhile_sublist _).subset hl) htoken
    · exact read_of_target? (n + 1) htarget

end Action

end QuestScript
