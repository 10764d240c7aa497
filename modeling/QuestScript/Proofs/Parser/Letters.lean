import QuestScript.Proofs.Action.Parallel
import QuestScript.Proofs.Parser.Correspondence
import QuestScript.Proofs.Program.Composition
import QuestScript.Proofs.Token.Letters

/-!
Sources whose keywords are in different case.

Tokens that differ in the case of their lexemes only are read in step, for no reader looks at a
lexeme but to see how long it is. So neither the tokens of a source, nor its program, nor what is
reported on it depend on the case of the letters in its keywords.
-/

namespace QuestScript

open Text

/-- The character of the source at the given index stands in the keyword of one of its tokens. -/
def IsKeywordAt (source : String) (i : Nat) : Prop :=
  Lexeme.KeywordAt .start source.toList (tokenize source).1 i

instance (source : String) (i : Nat) : Decidable (IsKeywordAt source i) :=
  inferInstanceAs (Decidable (∃ l ∈ (tokenize source).1, ∃ n ≤ i,
    l.start = Position.start.advance (source.toList.take n) ∧ i < n + l.keywordLength))

lemma Parallel.limits_same (options : Options) : same.Limits options options :=
  ⟨lawful_same, rfl, fun h => congrArg (Report.mk _) h.symm⟩

lemma Lexeme.Recased.same {l l' : Lexeme} (h : l.Recased l') : Parallel.same.Lexemes l l' where
  token := h.token
  start := h.start
  payload _ := by
    have hlength := congrArg List.length (decide_eq_true_eq.mp h.text)
    rw [List.length_map, List.length_map, String.length_toList, String.length_toList] at hlength
    show l'.payloadStart = l.payloadStart
    rw [payloadStart, payloadStart, h.start, h.token, hlength]

/-- **Keywords have no case.** Two sources that differ only in the case of ASCII letters in keywords
of the first one have the same tokens at the same places, and the lexemes differ in case only. The
same is reported on both, and whatever the options are, they are read as the same. -/
theorem parse_recased (source source' : String)
    (hletters : sameAsciiLetters source.toList source'.toList = true)
    (hkeywords : ∀ i, source.toList[i]? ≠ source'.toList[i]? → IsKeywordAt source i) :
    List.Forall₂ Lexeme.Recased (tokenize source).1 (tokenize source').1 ∧
      (tokenize source').2 = (tokenize source).2 ∧
      ∀ options, parse source' options = parse source options := by
  have hrecases : Scan.Recases .fresh .start source.toList source'.toList :=
    ⟨(decide_eq_true_eq.mp hletters).symm, hkeywords⟩
  obtain ⟨hlexemes, hreports⟩ := hrecases.forall₂_read
  refine ⟨hlexemes, hreports, fun options => ?_⟩
  have hprogram := ((Parallel.limits_same options).program options.maxNesting
    (hlexemes.imp fun _ _ hl => hl.same)).eq_of_escalate rfl rfl
  rw [parse_eq_program, parse_eq_program]
  simp only [Parsed.result, Parsed.reports, hprogram, tokenize, hreports]

/-- Keywords of all kinds in other cases, one of them at the end of a payload. -/
theorem parse_recased_sample :
    (sameAsciiLetters "If a then P b else Inv+ c".toList "iF a THEN p b ELSE inV+ c".toList =
        true ∧
      ∀ i, "If a then P b else Inv+ c".toList[i]? ≠ "iF a THEN p b ELSE inV+ c".toList[i]? →
        IsKeywordAt "If a then P b else Inv+ c" i) ∧
      (tokenize "iF a THEN p b ELSE inV+ c").2 = (tokenize "If a then P b else Inv+ c").2 ∧
      parse "iF a THEN p b ELSE inV+ c" = parse "If a then P b else Inv+ c" := by
  have hletters : sameAsciiLetters "If a then P b else Inv+ c".toList
      "iF a THEN p b ELSE inV+ c".toList = true := by decide
  have hfront : ∀ i < 25,
      "If a then P b else Inv+ c".toList[i]? ≠ "iF a THEN p b ELSE inV+ c".toList[i]? →
        IsKeywordAt "If a then P b else Inv+ c" i := by decide +kernel
  have hkeywords (i : Nat)
      (hi : "If a then P b else Inv+ c".toList[i]? ≠ "iF a THEN p b ELSE inV+ c".toList[i]?) :
      IsKeywordAt "If a then P b else Inv+ c" i := by
    refine hfront i (Nat.lt_of_not_le fun hle => hi ?_) hi
    rw [List.getElem?_eq_none (hle.trans' (by decide)),
      List.getElem?_eq_none (hle.trans' (by decide))]
  obtain ⟨-, hreports, hparse⟩ := parse_recased _ _ hletters hkeywords
  exact ⟨⟨hletters, hkeywords⟩, hreports, hparse {}⟩

end QuestScript
