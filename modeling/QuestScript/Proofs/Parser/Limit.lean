import QuestScript.Proofs.Action.Limit
import QuestScript.Proofs.Action.Parallel
import QuestScript.Proofs.Parser.Pointing

/-!
The limit on nesting has no effect until it is reached.

A run that reports no action as nested too deep is the same with any higher limit. An action stands
inside a payload, behind its keyword, so it is shorter than the text around it, and a limit as large
as the source is never reached.
-/

namespace QuestScript

open Lexeme (untilEnd)

/-! ### Payloads are shorter than their texts -/

namespace Piece

variable {mode : Mode} {cs : List Char}

/-- The payload that a piece stands for is behind a keyword. -/
def Headed (piece : Piece) : Prop :=
  ∀ carrier text lexeme, piece.token = some (.payload carrier text, lexeme) →
    text.length < lexeme.length

lemma headed_of_plain {token : Token} {width : Nat}
    (h : ∀ carrier text, token ≠ .payload carrier text) : (plain token width cs).Headed := by
  intro carrier text lexeme heq
  obtain ⟨rfl, -⟩ : token = .payload carrier text ∧ _ := by simpa [plain] using heq
  exact absurd rfl (h carrier text)

lemma headed_of_none {piece : Piece} (h : piece.token = none) : piece.Headed := by
  intro carrier text lexeme heq
  simp [h] at heq

lemma headed_of_payload {carrier : Carrier} {lead width : Nat} {payload : List Char} (c : Char)
    (rest : List Char) (hlead : 0 < lead) (fault : Option Fault) :
    Headed ⟨width, some (.payload carrier (String.ofList payload),
      (c :: rest).take lead ++ payload), fault⟩ := by
  intro other text lexeme h
  obtain ⟨⟨-, rfl⟩, rfl⟩ : (carrier = other ∧ String.ofList payload = text) ∧
      (c :: rest).take lead ++ payload = lexeme := by simpa using h
  simp only [String.length_ofList, List.length_append, List.length_take, List.length_cons]
  omega

lemma headed_ofCarrier (carrier : Carrier) {length : Nat} (c : Char) (rest : List Char)
    (h : 0 < length) : (ofCarrier mode carrier length (c :: rest)).Headed := by
  unfold ofCarrier payload
  exact headed_of_payload c rest (by omega) none

lemma headed_read (mode : Mode) (c : Char) (rest : List Char) : (read mode c rest).Headed := by
  refine read_cases (motive := Headed)
    ?lineBreak ?line ?comment ?label ?string ?number ?word ?operator
  case lineBreak => exact fun _ => headed_of_plain (by simp)
  case line => exact fun _ _ => headed_of_none rfl
  case comment =>
    intro _ _
    unfold ofComment
    simp only
    split
    · exact headed_of_plain (by simp)
    · exact headed_of_none rfl
  case label => exact fun _ => headed_of_payload c rest (by omega) none
  case string =>
    intro _
    unfold ofString
    split
    · exact headed_of_plain (by simp)
    · exact headed_of_none rfl
  case number => exact fun _ => headed_of_plain (by simp)
  case word =>
    intro halpha
    have hword : 0 < ((c :: rest).takeWhile Text.isWordChar).length :=
      length_takeWhile_pos (by simp [Text.isWordChar, halpha]) rest
    refine ofWord_cases (motive := Headed) rfl ?name ?mark ?carrier ?signed ?directive
    case name => exact headed_of_plain (by simp)
    case mark => exact fun m _ => headed_of_plain (by simp)
    case carrier => exact fun carrier => headed_ofCarrier carrier c rest hword
    case signed => exact fun carrier _ _ _ => headed_ofCarrier carrier c rest (by omega)
    case directive => exact fun _ _ => headed_of_none rfl
  case operator =>
    intro _
    unfold ofOperator
    split
    · exact headed_of_plain (by simp)
    · exact headed_of_none rfl

end Piece

lemma Scan.length_lt_of_payload {mode : Mode} {place : Position} {cs : List Char} {l : Lexeme}
    {carrier : Carrier} {text : String} (h : l ∈ (read mode place cs).lexemes)
    (hl : l.token = .payload carrier text) : text.length < cs.length := by
  revert h
  refine read_induction (motive := fun mode place cs =>
    l ∈ (read mode place cs).lexemes → text.length < cs.length) ?_ ?_ ?_ mode place cs
  · -- the end of the source swallows nothing
    intro mode place h
    rw [read_nil] at h
    obtain rfl := List.mem_singleton.mp h
    simp at hl
  · intro mode place c rest hc ih h
    rw [read_padding _ _ hc] at h
    exact Nat.lt_succ_of_lt (ih h)
  · intro mode place c rest hc ih h
    rw [read_piece _ _ hc] at h
    rcases List.mem_append.mp h with h | h
    · -- the payload is a proper part of its lexeme
      obtain ⟨lexeme, htoken, -⟩ := exists_of_mem_kept h
      have hlength : lexeme.length ≤ _ :=
        (Piece.isTrimmedOf_read mode c rest _ htoken).isPrefix.length_le
      rw [hl] at htoken
      have hheaded := Piece.headed_read mode c rest carrier text lexeme htoken
      rw [List.length_take] at hlength
      omega
    · -- the token stands behind the first piece
      have hbehind := ih h
      rw [List.length_drop] at hbehind
      omega

/-! ### Limits that are not reached -/

lemma Report.not_isLimit_of_lexical {r : Report} (h : r.fault.kind = .lexical) : ¬r.IsLimit := by
  rintro ⟨limit, hlimit⟩
  simp [hlimit, Fault.kind] at h

namespace Parallel

variable {options : Options} {place : Position} {text : List Char} {n : Nat}

lemma Outcomes.imp {P Q : Parallel} {α β : Type} {R : α → β → Prop} {o : Outcome Refusal α}
    {o' : Outcome Refusal β} (h : P.Outcomes R o o')
    (hreport : ∀ r r', P.report r r' → Q.report r r') : Q.Outcomes R o o' := by
  cases h with
  | ok hrs h => exact .ok (hrs.imp hreport) h
  | error hrs h =>
    cases h with
    | dropped h => exact .error (hrs.imp hreport) (.dropped (hreport _ _ h))
    | aborted h => exact .error (hrs.imp hreport) (.aborted (hreport _ _ h))

/-- The reading of texts of less than so many characters, in parallel with itself, where nothing is
reported of the limit. -/
def spare (n : Nat) : Parallel where
  report r r' := r' = r ∧ ¬r.IsLimit
  line := id
  text p p' cs := p' = p ∧ cs.length < n

lemma lexemes_spare (hn : 0 < n) (h : text.length ≤ n) :
    List.Forall₂ (spare n).Lexemes (Scan.read .fresh place text).lexemes
      (Scan.read .fresh place text).lexemes := by
  refine List.forall₂_same.mpr fun l hl => ⟨rfl, ⟨rfl, hn⟩, fun htoken => ⟨rfl, ?_⟩⟩
  rw [String.length_toList]
  exact lt_of_lt_of_le (Scan.length_lt_of_payload hl htoken) h

lemma reports_spare (n : Nat) : List.Forall₂ (spare n).report (Scan.read .fresh place text).reports
    (Scan.read .fresh place text).reports :=
  List.forall₂_same.mpr fun _ hr =>
    ⟨rfl, Report.not_isLimit_of_lexical (Scan.lexical_of_mem_reports hr)⟩

lemma lawful_spare (n : Nat) : (spare n).Lawful where
  part h := by
    obtain ⟨rfl, h⟩ := h
    simp only [List.length_append] at h
    exact ⟨rfl, by omega⟩
  line h := congrArg Position.line h.1
  fault h _ hlimit := ⟨by rw [h.1], fun ⟨limit, heq⟩ => hlimit limit heq⟩
  code code h := ⟨by rw [h.1], by simp [Report.IsLimit]⟩
  reports h := by
    obtain ⟨rfl, -⟩ := h
    exact reports_spare n
  lexemes h := by
    obtain ⟨rfl, h⟩ := h
    exact lexemes_spare (by omega) (by omega)

lemma spare_program (haction : ∀ p cs, cs.length < n →
      (spare n).Outcomes (fun g g' => g' = g.renumber id) (Action.read options n p cs)
        (Action.read options n p cs)) (h : text.length ≤ n) :
    (spare n).Outcomes (fun p p' => p'.groups = p.groups.map (Group.renumber id))
      (Action.program options n place text).outcome.escalate
      (Action.program options n place text).outcome.escalate := by
  rcases Nat.eq_zero_or_pos n with rfl | hn
  · -- Nothing is read from an empty text.
    obtain rfl := List.length_eq_zero_iff.mp (Nat.le_zero.mp h)
    have hnil : (Action.program options 0 place []).outcome = .pure ⟨[]⟩ := by
      simp [Action.program, Scan.read_nil, untilEnd, Program.read, Program.readGroups, Parsed.map,
        Parsed.pure, Outcome.map, Outcome.pure, Except.map]
    rw [hnil]
    exact .pure rfl
  · -- payloads are shorter than the text, so actions are shorter than `n`
    have hcontexts : (spare n).Contexts
        ⟨options.policy, Action.read options n,
          (untilEnd (Scan.read .fresh place text).lexemes).2⟩
        ⟨options.policy, Action.read options n,
          (untilEnd (Scan.read .fresh place text).lexemes).2⟩ := by
      refine ⟨lawful_spare n, rfl, fun h => ?_⟩
      obtain ⟨rfl, h⟩ := h
      exact haction _ _ h
    obtain ⟨hts, hend⟩ :=
      untilEnd_of_forall₂ (lexemes_spare hn h) (Scan.exists_sourceEnd .fresh place text)
    exact hcontexts.readProgram (Lexeme.token_untilEnd _) (Lexeme.token_untilEnd _) hts (.inl hend)

/-- **Actions do not reach a limit that is larger than their texts are long.** -/
theorem spare_read (h : text.length < n) :
    (spare n).Outcomes (fun g g' => g' = g.renumber id) (Action.read options n place text)
      (Action.read options n place text) := by
  induction n generalizing place text with
  | zero => omega
  | succ n ih =>
    rcases htarget : Action.target? text with _ | target
    · -- one level further down the text may be one character shorter
      have hprogram : (spare n).Outcomes (fun p p' => p'.groups = p.groups.map (Group.renumber id))
          (Action.program options n place text).outcome.escalate
          (Action.program options n place text).outcome.escalate :=
        spare_program (fun _ _ hcs => ih hcs) (Nat.lt_succ_iff.mp h)
      have hmore := hprogram.imp (Q := spare (n + 1)) fun _ _ => id
      rw [Action.read_succ n htarget, Action.ofProgram_eq]
      refine Outcomes.after (reports_spare _) (hmore.bind fun p p' hgroups => ?_)
      have hstatements := Program.statements_of_renumber hgroups
      rw [hstatements, List.isEmpty_map]
      split
      · exact .drop ⟨rfl, by simp [Report.IsLimit]⟩
      · exact .pure (by rw [Group.renumber_mk, id])
    · rw [Action.read_of_target? (n + 1) htarget]
      exact .pure (by rw [Group.renumber_jump, id])

end Parallel

lemma Action.not_isLimit_of_length_le (options : Options) (place : Position) {text : List Char}
    {n : Nat} (h : text.length ≤ n) :
    (∀ r ∈ (program options n place text).reports, ¬r.IsLimit) ∧
      ∀ cause, (program options n place text).result = .error cause → ¬cause.IsLimit := by
  -- a program that is read in step with itself reports no limit
  have hsame : (Parallel.spare n).Outcomes
      (fun p p' => p'.groups = p.groups.map (Group.renumber id))
      (program options n place text).outcome.escalate
      (program options n place text).outcome.escalate :=
    Parallel.spare_program (fun _ _ => Parallel.spare_read) h
  rcases hprogram : (program options n place text).outcome with ⟨rs, result⟩
  rw [hprogram] at hsame
  rw [Parsed.reports, Parsed.result, hprogram]
  rcases hsame.of_escalate with ⟨made, made', p, p', hok, hok', hmade, -⟩ |
    ⟨made, made', cause, cause', herror, herror', hmade, hcause⟩
  · obtain ⟨rfl, rfl⟩ := Outcome.mk.inj hok
    obtain ⟨rfl, -⟩ := Outcome.mk.inj hok'
    exact ⟨fun r hr => (List.forall₂_same.mp hmade r hr).2, by simp⟩
  · obtain ⟨rfl, rfl⟩ := Outcome.mk.inj herror
    obtain ⟨rfl, -⟩ := Outcome.mk.inj herror'
    refine ⟨fun r hr => (List.forall₂_same.mp hmade r hr).2, fun other hother => ?_⟩
    obtain rfl := Except.error.inj hother
    exact hcause.2

/-! ### Sources -/

section

variable {source : String} {options : Options}

lemma not_isLimit_of_ofResult (h : ∀ r ∈ Report.ofResult (parse source options), ¬r.IsLimit) :
    (∀ r ∈ (Action.program options options.maxNesting .start source.toList).reports,
        ¬r.IsLimit) ∧
      ∀ cause, (Action.program options options.maxNesting .start source.toList).result =
        .error cause → ¬cause.IsLimit := by
  rw [parse_eq_program] at h
  split at h
  · next p hp =>
    refine ⟨fun r hr => h r ((Report.sort_perm _).mem_iff.mpr (List.mem_append_right _ hr)), ?_⟩
    simp [hp]
  · next cause hcause =>
    refine ⟨fun r hr => h r (List.mem_cons_of_mem _
      ((Report.sort_perm _).mem_iff.mpr (List.mem_append_right _ hr))), fun other hother => ?_⟩
    obtain rfl := Except.error.inj (hcause.symm.trans hother)
    exact h _ List.mem_cons_self

lemma ofResult_not_isLimit
    (hreports : ∀ r ∈ (Action.program options options.maxNesting .start source.toList).reports,
      ¬r.IsLimit)
    (hcause : ∀ cause, (Action.program options options.maxNesting .start source.toList).result =
      .error cause → ¬cause.IsLimit) :
    ∀ r ∈ Report.ofResult (parse source options), ¬r.IsLimit := by
  have hsorted (r : Report) (hr : r ∈ Report.sort ((tokenize source).2 ++
      (Action.program options options.maxNesting .start source.toList).reports)) : ¬r.IsLimit := by
    rcases List.mem_append.mp ((Report.sort_perm _).mem_iff.mp hr) with hr | hr
    · exact Report.not_isLimit_of_lexical (Scan.lexical_of_mem_reports hr)
    · exact hreports r hr
  rw [parse_eq_program]
  split
  · exact hsorted
  · next cause h => exact List.forall_mem_cons.mpr ⟨hcause cause h, hsorted⟩

end

/-- **The limit on nesting has no effect until it is reached.** A run that reports no action as
nested too deep comes to the same with any higher limit. A limit that is at least as large as the
source is long is not reached, so the result does not depend on it. -/
theorem parse_eq_of_not_isLimit (source : String) (policy : SubstitutionPolicy) (depth : Nat) :
    ((∀ r ∈ Report.ofResult (parse source ⟨depth, policy⟩), ¬r.IsLimit) →
        ∀ more, depth ≤ more → parse source ⟨more, policy⟩ = parse source ⟨depth, policy⟩) ∧
      (source.length ≤ depth →
        (∀ r ∈ Report.ofResult (parse source ⟨depth, policy⟩), ¬r.IsLimit) ∧
          ∀ other, source.length ≤ other →
            parse source ⟨other, policy⟩ = parse source ⟨depth, policy⟩) := by
  -- no action of a source nests deeper than the source is long
  have hfree (d : Nat) (hd : source.length ≤ d) :
      ∀ r ∈ Report.ofResult (parse source ⟨d, policy⟩), ¬r.IsLimit := by
    rw [← String.length_toList] at hd
    obtain ⟨hreports, hcause⟩ := Action.not_isLimit_of_length_le ⟨d, policy⟩ .start hd
    exact ofResult_not_isLimit hreports hcause
  have hmore (d more : Nat) (hle : d ≤ more)
      (h : ∀ r ∈ Report.ofResult (parse source ⟨d, policy⟩), ¬r.IsLimit) :
      parse source ⟨more, policy⟩ = parse source ⟨d, policy⟩ := by
    obtain ⟨hreports, hcause⟩ := not_isLimit_of_ofResult h
    have hsame := Action.program_eq_of_not_isLimit hle hreports hcause
    simp only [parse_eq_program, Parsed.result, Parsed.reports, hsame]
  refine ⟨fun h more hle => hmore depth more hle h, fun hlong => ⟨hfree depth hlong, ?_⟩⟩
  intro other hother
  calc parse source ⟨other, policy⟩
      = parse source ⟨source.length, policy⟩ := hmore _ _ hother (hfree _ le_rfl)
    _ = parse source ⟨depth, policy⟩ := (hmore _ _ hlong (hfree _ le_rfl)).symm

/-- A limit that is not reached, though it is smaller than the source is long. -/
theorem parse_eq_of_not_isLimit_sample :
    parse "pln [[a|btn c, b]]" ⟨9, .abort⟩ = parse "pln [[a|btn c, b]]" ⟨1, .abort⟩ := by
  have hreports : Report.ofResult (parse "pln [[a|btn c, b]]" ⟨1, .abort⟩) = [] := by
    decide +kernel
  refine (parse_eq_of_not_isLimit _ .abort 1).1 (fun r hr => ?_) 9 (by decide)
  simp [hreports] at hr

end QuestScript
