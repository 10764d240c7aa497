import QuestScript.Proofs.Expr.Locality
import QuestScript.Proofs.Parallel

/-!
Expressions are read in step.

A reader of expressions looks at nothing but tokens, and at none behind the end of the line. So it
reads the same from two lists that go abreast, and takes the same lexemes of both.
-/

namespace QuestScript

variable {P : Parallel} {finish finish' l : Lexeme} {rest ts ts' : List Lexeme} {α : Type}

lemma Expr.ne_lineBreak_of_admits (h : admits l.token = true) : l.token ≠ .mark .lineBreak := by
  intro hl
  simp [hl, admits, endsValue] at h

namespace Parallel

lemma Abreast.exists_cons (h : P.Abreast finish finish' (l :: rest) ts') :
    ∃ l' rest', ts' = l' :: rest' ∧ l'.token = l.token ∧
      (l.token ≠ .mark .lineBreak → P.Abreast finish finish' rest rest') := by
  obtain ⟨hnil, -⟩ | ⟨o, l', rest₀, rest', heq, rfl, hl⟩ := h.cases_on
  · cases hnil
  · cases heq
    exact ⟨l', rest', rfl, hl.token, h.tail⟩

lemma Abreast.drop {n : Nat} (h : P.Abreast finish finish' ts ts')
    (hn : Lexeme.Takes (fun l => Expr.admits l.token = true) n ts) :
    P.Abreast finish finish' (ts.drop n) (ts'.drop n) := by
  induction n generalizing ts ts' with
  | zero => exact h
  | succ n ih =>
    rcases ts with _ | ⟨l, rest⟩
    · exact absurd hn.le (by simp)
    obtain ⟨l', rest', rfl, -, hrest⟩ := h.exists_cons
    have hl : Expr.admits l.token = true := hn.forall_mem l (by simp)
    refine ih (hrest (Expr.ne_lineBreak_of_admits hl)) ⟨by simpa using hn.le, fun o ho => ?_⟩
    exact hn.forall_mem o (by simp [ho])

lemma Abreast.coincide (h : P.Abreast finish finish' ts ts') : Lexeme.Coincide ts ts' := by
  induction h with
  | ended => exact .ended (by simp [Expr.Ended]) (by simp [Expr.Ended])
  | lineBreak rest rest' hl hbreak =>
    have hends {l : Lexeme} (hl : l.token = .mark .lineBreak) (rest : List Lexeme) :
        Expr.Ended (l :: rest) := by
      simp [Expr.Ended, hl, Expr.admits, Expr.endsValue]
    exact .ended (hends hbreak rest) (hends (hl.token.trans hbreak) rest')
  | cons hl _ ih => exact .cons hl.token ih

lemma readings_of_local {read : List Lexeme → Reading α} (hlocal : Reading.Local read ts)
    (hinside : (read ts).Inside ts) (h : P.Abreast finish finish' ts ts') :
    P.Readings finish finish' ts ts' (read ts) (read ts') :=
  ⟨(hlocal ts' h.coincide).same, h.drop hinside⟩

end Parallel

section

variable (h : P.Abreast finish finish' ts ts')

include h

/-- Numbers are read in step. -/
theorem NumberExpr.readings_read : P.Readings finish finish' ts ts' (read ts) (read ts') :=
  Parallel.readings_of_local (local_read ts) (inside_read ts) h

/-- Conditions are read in step. -/
theorem BoolExpr.readings_read : P.Readings finish finish' ts ts' (read ts) (read ts') :=
  Parallel.readings_of_local (local_read ts) (inside_read ts) h

/-- Values are read in step. -/
theorem Expr.readings_read : P.Readings finish finish' ts ts' (read ts) (read ts') :=
  Parallel.readings_of_local (local_read ts) (inside_read ts) h

end

end QuestScript
