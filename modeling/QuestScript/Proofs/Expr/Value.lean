import QuestScript.Proofs.Expr.Typing
import QuestScript.Proofs.Program.Line

/-!
Written values and conditions are read back in their statements.

The type of a value is told by its tokens alone, and the spelling of a value has the tokens of its
type: a logical one if it is a condition, and otherwise a literal if it is a text.
-/

namespace QuestScript

open Lexeme (Spell)
open Token (within)

namespace Expr

variable {ls : List Lexeme} {kind : Kind} {unary : Nat}

/-! ### The kind of a list of tokens -/

lemma kindOf_cons_of_admits {l : Lexeme} (rest : List Lexeme)
    (h : NumberExpr.admits l.token = true) : kindOf kind (l :: rest) = kindOf kind rest := by
  unfold NumberExpr.admits at h
  split at h
  · simp_all [kindOf]
  · simp_all [kindOf]
  · next m heq => cases m <;> simp_all [kindOf, endsValue, isLogical]
  · simp at h

lemma kindOf_number (h : ∀ l ∈ ls, NumberExpr.admits l.token = true) : kindOf kind ls = kind := by
  induction ls with
  | nil => rfl
  | cons l rest ih =>
    rw [kindOf_cons_of_admits rest (h l List.mem_cons_self)]
    exact ih fun o ho => h o (List.mem_cons_of_mem l ho)

lemma kindOf_cons_of_string {l : Lexeme} {value : String} (rest : List Lexeme)
    (h : l.token = .string value) : kindOf kind (l :: rest) = kindOf .string rest := by
  simp [kindOf, h]

lemma kindOf_string (h : ∀ l ∈ ls, StringExpr.admits l.token = true)
    (hliteral : kind = .string ∨ ∃ l ∈ ls, ∃ value, l.token = .string value) :
    kindOf kind ls = .string := by
  induction ls generalizing kind with
  | nil => simpa [kindOf] using hliteral
  | cons l rest ih =>
    have hrest (kind : Kind)
        (hliteral : kind = .string ∨ ∃ l ∈ rest, ∃ value, l.token = .string value) :
        kindOf kind rest = .string := ih (fun o ho => h o (List.mem_cons_of_mem l ho)) hliteral
    have hl := h l List.mem_cons_self
    by_cases hstring : ∃ value, l.token = .string value
    · -- from here on the kind is fixed
      obtain ⟨value, hvalue⟩ := hstring
      rw [kindOf_cons_of_string rest hvalue]
      exact hrest .string (.inl rfl)
    · -- names and plus signs occur in numbers as well, and leave the kind open
      have hadmits : NumberExpr.admits l.token = true := by
        unfold StringExpr.admits at hl
        split at hl <;> simp_all [NumberExpr.admits]
      rw [kindOf_cons_of_admits rest hadmits]
      refine hrest kind (hliteral.imp_right ?_)
      rintro ⟨o, ho, value, hvalue⟩
      rcases List.mem_cons.mp ho with rfl | ho
      · exact absurd ⟨value, hvalue⟩ hstring
      · exact ⟨o, ho, value, hvalue⟩

/-- Whether the token may stand in a value. -/
def admits : Token → Bool
  | .mark m => !endsValue m
  | _ => true

lemma kindOf_cons_of_not_isLogical {l : Lexeme} (kind : Kind) (rest : List Lexeme)
    (h : admits l.token = true) (hlogical : l.token.isLogical = false) :
    ∃ next, kindOf kind (l :: rest) = kindOf next rest ∧
      (next = kind ∨ next = .string ∧ ∃ value, l.token = .string value) := by
  rw [kindOf]
  split
  · next m heq =>
    have hend : endsValue m = false := by simpa [admits, heq] using h
    have hplain : isLogical m = false := by simpa [Token.isLogical, heq] using hlogical
    exact ⟨kind, by simp [hend, hplain], .inl rfl⟩
  · next value heq => exact ⟨.string, rfl, .inr ⟨rfl, value, heq⟩⟩
  · exact ⟨kind, rfl, .inl rfl⟩

lemma admits_of_isLogical {t : Token} (h : t.isLogical = true) : admits t = true := by
  unfold Token.isLogical at h
  split at h
  · next m => cases m <;> simp_all [admits, endsValue, isLogical]
  · simp at h

lemma kindOf_cons_of_isLogical {l : Lexeme} (kind : Kind) (rest : List Lexeme)
    (h : l.token.isLogical = true) :
    kindOf kind (l :: rest) = .bool := by
  have hend := admits_of_isLogical h
  unfold Token.isLogical at h
  split at h
  · next m heq => simp_all [kindOf, admits]
  · simp at h

lemma kindOf_cons_of_not_admits {l : Lexeme} (rest : List Lexeme) (h : admits l.token = false) :
    kindOf kind (l :: rest) = kind := by
  unfold admits at h
  split at h
  · next m heq => simp_all [kindOf]
  · simp at h

lemma kindOf_bool (h : ∀ l ∈ ls, admits l.token = true)
    (hlogical : ∃ l ∈ ls, l.token.isLogical = true) : kindOf kind ls = .bool := by
  induction ls generalizing kind with
  | nil => simp at hlogical
  | cons l rest ih =>
    have hl := h l List.mem_cons_self
    by_cases hhead : l.token.isLogical = true
    · exact kindOf_cons_of_isLogical kind rest hhead
    · obtain ⟨next, hnext, -⟩ := kindOf_cons_of_not_isLogical kind rest hl
        (by simpa using hhead)
      rw [hnext]
      refine ih (fun o ho => h o (List.mem_cons_of_mem l ho)) ?_
      obtain ⟨o, ho, hlo⟩ := hlogical
      rcases List.mem_cons.mp ho with rfl | ho
      · exact absurd hlo hhead
      · exact ⟨o, ho, hlo⟩

/-! ### The tokens of values -/

lemma admits_of_number {t : Token} (h : NumberExpr.admits t = true) : admits t = true := by
  unfold NumberExpr.admits at h
  split at h
  · rfl
  · rfl
  · next m => cases m <;> simp_all [admits, endsValue]
  · simp at h

lemma admits_of_text {t : Token} (h : StringExpr.admits t = true) : admits t = true := by
  unfold StringExpr.admits at h
  split at h <;> simp_all [admits, endsValue]

lemma admits_of_mem_condition {e : BoolExpr} (htyped : e.Typed) :
    ∀ t ∈ e.tokens unary, admits t = true := by
  induction e with
  | const value => cases value <;> simp [BoolExpr.tokens, admits, endsValue]
  | var name => simp [BoolExpr.tokens, admits]
  | not operand ih =>
    have h : ∀ t ∈ within unary operand.level (operand.tokens unary), admits t = true :=
      Token.forall_mem_within rfl rfl (ih htyped)
    simpa [BoolExpr.tokens, admits, endsValue] using h
  | logical op left right ihl ihr =>
    exact Token.forall_mem_between (Token.forall_mem_within rfl rfl (ihl htyped.1))
      (admits_of_isLogical (Token.isLogical_connective op))
      (Token.forall_mem_within rfl rfl (ihr htyped.2))
  | compareNumbers op left right =>
    exact Token.forall_mem_between
      (Token.forall_mem_within rfl rfl fun t ht => admits_of_number (left.admits_of_mem t ht))
      (admits_of_isLogical (Token.isLogical_comparison op))
      (Token.forall_mem_within rfl rfl fun t ht => admits_of_number (right.admits_of_mem t ht))
  | compareStrings op left right =>
    obtain ⟨-, hleft, hright, -⟩ := htyped
    exact Token.forall_mem_between
      (Token.forall_mem_within rfl rfl fun t ht =>
        admits_of_text (StringExpr.admits_of_mem hleft t ht))
      (admits_of_isLogical (Token.isLogical_comparison op))
      (Token.forall_mem_within rfl rfl fun t ht =>
        admits_of_text (StringExpr.admits_of_mem hright t ht))
  | compareBools op left right ihl ihr =>
    exact Token.forall_mem_between (Token.forall_mem_within rfl rfl (ihl htyped.2.1))
      (admits_of_isLogical (Token.isLogical_comparison op))
      (Token.forall_mem_within rfl rfl (ihr htyped.2.2.1))

lemma admits_of_mem {e : Expr} (htyped : e.Typed) : ∀ t ∈ e.tokens unary, admits t = true := by
  cases e with
  | bool value => exact admits_of_mem_condition htyped.1
  | number value => exact fun t ht => admits_of_number (value.admits_of_mem t ht)
  | string value => exact fun t ht => admits_of_text (StringExpr.admits_of_mem htyped.1 t ht)

lemma exists_isLogical {e : BoolExpr} (hvar : e.isVar = false) :
    ∃ t ∈ e.tokens unary, t.isLogical = true := by
  cases e with
  | const value => exact ⟨_, List.mem_singleton_self _, by cases value <;> rfl⟩
  | var name => simp [BoolExpr.isVar] at hvar
  | not operand => exact ⟨.mark .not, List.mem_cons_self, rfl⟩
  | logical op left right =>
    exact ⟨.mark op.mark, by simp [BoolExpr.tokens], Token.isLogical_connective op⟩
  | compareNumbers op left right =>
    exact ⟨.mark op.mark, by simp [BoolExpr.tokens], Token.isLogical_comparison op⟩
  | compareStrings op left right =>
    exact ⟨.mark op.mark, by simp [BoolExpr.tokens], Token.isLogical_comparison op⟩
  | compareBools op left right =>
    exact ⟨.mark op.mark, by simp [BoolExpr.tokens], Token.isLogical_comparison op⟩

/-! ### Reading what is written -/

lemma forall_token {P : Token → Prop} {ts : List Token} (h : Spell ls ts) (hts : ∀ t ∈ ts, P t) :
    ∀ l ∈ ls, P l.token := fun l hl => hts l.token (h.mem hl)

lemma exists_token {P : Token → Prop} {ts : List Token} (h : Spell ls ts)
    (hts : ∃ t ∈ ts, P t) : ∃ l ∈ ls, P l.token := by
  obtain ⟨t, ht, hP⟩ := hts
  rw [← show _ = ts from h] at ht
  obtain ⟨l, hl, rfl⟩ := List.mem_map.mp ht
  exact ⟨l, hl, hP⟩

/-- **Values round-trip.** The tokens of a value read as that value. -/
theorem read_spell (hunary : 3 ≤ unary ∧ unary ≤ 7) (e : Expr) (htyped : e.Typed)
    (h : Spell ls (e.tokens unary)) : read ls = ⟨.ok e, ls.length⟩ := by
  rw [read]
  cases e with
  | bool value =>
    obtain ⟨hvalue, hvar⟩ := htyped
    have hkind : kindOf .number ls = .bool :=
      kindOf_bool (forall_token h (admits_of_mem_condition hvalue))
        (exists_token h (exists_isLogical (by simpa using hvar)))
    have hread := value.read_spell hunary [] hvalue h (by simp [BoolExpr.Free]) (by simp)
    rw [List.append_nil] at hread
    simp [hkind, hread]
  | number value =>
    have hkind : kindOf .number ls = .number := kindOf_number (forall_token h value.admits_of_mem)
    have hread := value.read_spell [] h (by simp) (by simp)
    rw [List.append_nil] at hread
    simp [hkind, hread]
  | string value =>
    obtain ⟨hgrouped, hliteral⟩ := htyped
    obtain ⟨text, htext⟩ := (StringExpr.hasLiteral_iff hgrouped).mp hliteral
    obtain ⟨l, hl, heq⟩ := exists_token h ⟨.string text, htext, rfl⟩
    have hkind : kindOf .number ls = .string :=
      kindOf_string (forall_token h (StringExpr.admits_of_mem hgrouped))
        (.inr ⟨l, hl, text, heq.symm⟩)
    have hread := value.read_spell [] hgrouped h (by simp)
    rw [List.append_nil] at hread
    simp [hkind, hread]

/-! ### Writing what was read -/

variable {ts : List Lexeme} {e : Expr} {k : Nat}

/-- The value in front of the list ends there. -/
def Ended (ts : List Lexeme) : Prop := ∀ l ∈ ts.head?, admits l.token = false

lemma bounded_of_ended (h : Ended ts) : NumberExpr.Bounded ts := by
  intro l hl
  have := h l hl
  unfold admits at this
  split at this
  · next m heq => cases m <;> simp_all [endsValue, NumberExpr.sumOp?, NumberExpr.termOp?]
  · simp at this

/-- What stands in front of the end of a value was taken, if the value was taken to its end. -/
lemma mem_take_of_ended {ahead rest : List Lexeme} {l : Lexeme}
    (h : ∀ o ∈ ahead ++ [l], admits o.token = true) (hend : Ended ((ahead ++ l :: rest).drop k)) :
    l ∈ (ahead ++ l :: rest).take k := by
  by_cases hk : ahead.length < k
  · obtain ⟨m, hm⟩ : ∃ m, k - ahead.length = m + 1 := ⟨k - ahead.length - 1, by omega⟩
    simp [List.take_append, hm]
  · have hlist : ahead ++ l :: rest = (ahead ++ [l]) ++ rest := by simp
    rw [hlist, List.drop_append_of_le_length (by simp; omega)] at hend
    obtain ⟨o, tail, ho⟩ : ∃ o tail, (ahead ++ [l]).drop k = o :: tail := by
      refine List.exists_cons_of_ne_nil ?_
      simp only [ne_eq, List.drop_eq_nil_iff, List.length_append, List.length_singleton]
      omega
    have hmem : o ∈ ahead ++ [l] := List.mem_of_mem_drop (ho ▸ List.mem_cons_self)
    have := hend o (by simp [ho])
    simp [h o hmem] at this

lemma exists_of_kindOf (h : kindOf kind ts ≠ kind) :
    ∃ ahead l rest, ts = ahead ++ l :: rest ∧ (∀ o ∈ ahead ++ [l], admits o.token = true) ∧
      ((kindOf kind ts = .bool ∧ l.token.isLogical = true) ∨
        (kindOf kind ts = .string ∧ ∃ value, l.token = .string value)) := by
  induction ts generalizing kind with
  | nil => exact absurd rfl h
  | cons l rest ih =>
    by_cases hl : admits l.token = true
    · by_cases hlogical : l.token.isLogical = true
      · have hbool := kindOf_cons_of_isLogical kind rest hlogical
        exact ⟨[], l, rest, rfl, by simpa using hl, .inl ⟨hbool, hlogical⟩⟩
      · obtain ⟨next, hcons, hnext⟩ := kindOf_cons_of_not_isLogical kind rest hl
          (by simpa using hlogical)
        rw [hcons] at h ⊢
        by_cases hsame : kindOf next rest = next
        · obtain ⟨rfl, value, hvalue⟩ := hnext.resolve_left fun heq => h (hsame.trans heq)
          exact ⟨[], l, rest, rfl, by simpa using hl, .inr ⟨hsame, value, hvalue⟩⟩
        · obtain ⟨ahead, o, behind, rfl, hahead, ho⟩ := ih hsame
          exact ⟨l :: ahead, o, behind, rfl, by simpa [hl] using hahead, ho⟩
    · exact absurd (kindOf_cons_of_not_admits rest (by simpa using hl)) h

/-- **Values are typed.** A value that was read to its end can be written. -/
theorem typed_of_read (h : read ts = ⟨.ok e, k⟩) (hend : Ended (ts.drop k)) : e.Typed := by
  rw [read] at h
  rcases hkind : kindOf .number ts with _ | _ | _
  · -- a bare name would have to be taken without the logical token
    rw [hkind] at h
    obtain ⟨value, hvalue, rfl⟩ := Reading.map_eq_ok.mp h
    refine ⟨BoolExpr.typed_of_read hvalue (bounded_of_ended hend), fun hvar => ?_⟩
    obtain ⟨name, rfl⟩ := BoolExpr.exists_var hvar
    have hother : kindOf .number ts ≠ .number := by simp [hkind]
    obtain ⟨ahead, l, rest, rfl, hahead, hl⟩ := exists_of_kindOf hother
    have hlogical : l.token.isLogical = true := by simpa [hkind] using hl
    have hplain := (BoolExpr.readFactor_of_readPrimary_var
      (BoolExpr.readPrimary_of_read_var hvalue)).2 l (mem_take_of_ended hahead hend)
    simp [hlogical] at hplain
  · -- a number, which is typed in any case
    rw [hkind] at h
    obtain ⟨value, -, rfl⟩ := Reading.map_eq_ok.mp h
    trivial
  · -- the literal that makes it a text was taken
    rw [hkind] at h
    obtain ⟨value, hvalue, rfl⟩ := Reading.map_eq_ok.mp h
    obtain ⟨hspell, hgrouped⟩ := StringExpr.spell_of_read hvalue
    have hother : kindOf .number ts ≠ .number := by simp [hkind]
    obtain ⟨ahead, l, rest, rfl, hahead, hl⟩ := exists_of_kindOf hother
    obtain ⟨text, htext⟩ : ∃ text, l.token = .string text := by simpa [hkind] using hl
    refine ⟨hgrouped, (StringExpr.hasLiteral_iff hgrouped).mpr ⟨text, ?_⟩⟩
    rw [← show _ = value.tokens from hspell, ← htext]
    exact List.mem_map_of_mem (mem_take_of_ended hahead hend)

end Expr

end QuestScript
