import QuestScript.Parser
import QuestScript.Proofs.Program.Line
import QuestScript.Proofs.Token.Payload

/-!
Actions that are nothing but a jump.

A bare target is a jump without any reading. The word `goto` and a target that is not bare are read
as a program, and that program is the same jump.

An action that is the word `goto`, a blank and a bare target is known for a jump from its characters
alone. The scanner and the reader of programs go another way: they look the word up in lower case,
drop one blank behind it, take the rest of the line for the payload, and trim that. Both ways end
at one target (`Action.exists_of_directTarget?`, `Action.scan_directTarget`), so the shortcut never
changes what an action is read as (`Action.read_directTarget`).
-/

namespace QuestScript

open Text

namespace Action

variable {options : Options} {place : Position} {text target : List Char}

/-! ### What reading an action does -/

lemma read_of_target? (budget : Nat) (h : target? text = some target) :
    read options budget place text = .pure (.jump (String.ofList target) place.line) := by
  unfold read
  simp only [h]

lemma read_zero (h : target? text = none) :
    read options 0 place text = .drop (.nestingLimit options.maxNesting) place := by
  unfold read
  simp only [h]

/-- The program that the text of an action is, with so many levels of nesting left inside it. -/
def program (options : Options) (budget : Nat) (place : Position) (text : List Char) :
    Parsed Report Program :=
  let scanned := Lexeme.untilEnd (Scan.read .fresh place text).lexemes
  Program.read ⟨options.policy, read options budget, scanned.2⟩ scanned.1

lemma read_succ (n : Nat) (h : target? text = none) :
    read options (n + 1) place text =
      ofProgram place text (Scan.read .fresh place text).reports
        (program options n place text).outcome := by
  conv_lhs => unfold read
  simp only [h]
  rfl

/-! ### Jumps -/

lemma read_of_isBareTarget (budget : Nat) (h : isBareTarget target = true) :
    read options budget place target = .pure (.jump (String.ofList target) place.line) :=
  read_of_target? budget (by rw [target?, if_pos h])

lemma target?_goto (htrim : trim target = target) (hbare : isBareTarget target = false) :
    target? ("goto ".toList ++ target) = none := by
  have hspace : isBareTarget ("goto ".toList ++ target) = false := by
    simp [isBareTarget, isWordChar_space]
  have hblank : trim (' ' :: target) = target := by
    rw [trim, trimStart, List.dropWhile_cons_of_pos (by decide)]
    exact htrim
  rw [target?, hspace, directTarget?]
  simp [hblank, hbare]

lemma scan_goto (place : Position) (hplain : Payload.IsPlain target)
    (htrim : trim target = target) :
    Scan.read .fresh place ("goto ".toList ++ target) =
      ⟨[⟨.payload .goto (String.ofList target), String.ofList ("goto ".toList ++ target), place⟩,
        ⟨.mark .sourceEnd, "", place.advance ("goto ".toList ++ target)⟩], []⟩ := by
  have hreturn : dropReturn target = target := by
    refine dropReturn_eq_self fun h => ?_
    have := isBlank_getLast?_of_trim htrim '\r' h
    exact absurd this (by decide)
  have h := Scan.read_carrier 'g' "oto".toList place (by decide)
    (List.all_eq_true.1 (by decide)) (by decide)
    (by decide : Carrier.goto ≠ .button) hplain
  rw [hreturn] at h
  exact h

lemma read_lexemes_jump (ctx : Context) {l : Lexeme} {payload : String}
    (hl : l.token = .payload .goto payload) (hne : trim payload.toList ≠ []) :
    Program.read ctx [l] =
      ⟨.pure ⟨[.jump (String.ofList (trim payload.toList)) l.start.line]⟩, 1⟩ := by
  have hstatement : Statement.read ctx [l] =
      ⟨.pure (.goto (String.ofList (trim payload.toList))), 1⟩ := by
    rw [Statement.read_payload [] hl]
    simp [Statement.readPayload, requiredName, hne, Outcome.pure, Outcome.map, Except.map]
  exact Program.read_statement hstatement

/-- **A written jump.** The word `goto` and a target read as the jump to that target. -/
theorem read_goto (n : Nat) (hne : target ≠ []) (hplain : Payload.IsPlain target)
    (htrim : trim target = target) (hbare : isBareTarget target = false) :
    read options (n + 1) place ("goto ".toList ++ target) =
      .pure (.jump (String.ofList target) place.line) := by
  have hscan := scan_goto place hplain htrim
  have hpayload : trim (String.ofList target).toList = target := by
    rw [String.toList_ofList, htrim]
  rw [read_succ n (target?_goto htrim hbare), program, hscan]
  rw [← List.singleton_append, Lexeme.untilEnd_append [] (by simp) rfl,
    read_lexemes_jump _ rfl (by rwa [hpayload]), hpayload]
  rfl

end Action

/-! ### The shortcut -/

lemma Keyword.ofWord?_goto {word : List Char} (h : word.map Char.toLower = ['g', 'o', 't', 'o']) :
    ofWord? word = some (.carrier .goto) := by
  rw [ofWord?_congr (b := ['g', 'o', 't', 'o']) h]
  decide

namespace Action

variable {options : Options} {place : Position} {text target : List Char}

/-- What the text of an action is read as when it is read as a program in any case. -/
def readFully (options : Options) (budget : Nat) : ActionReader := fun place text =>
  ofProgram place text (Scan.read .fresh place text).reports
    (program options budget place text).outcome

/-! ### Direct jumps -/

lemma isBareTarget_ne_nil (h : isBareTarget target = true) : target ≠ [] := by
  rintro rfl
  simp [isBareTarget] at h

lemma isPlain_of_isBareTarget (h : isBareTarget target = true) : Payload.IsPlain target := by
  simp only [isBareTarget, Bool.and_eq_true, List.all_eq_true, Bool.or_eq_true,
    decide_eq_true_eq] at h
  intro c hc
  constructor <;> rintro rfl <;> exact absurd (h.2 _ hc) (by decide)

/-- A direct jump is the word `goto` in some case, a gap, and a text that is the target when
trimmed. -/
lemma exists_of_directTarget? (h : directTarget? text = some target) :
    ∃ c word gap behind, text = c :: word ++ gap :: behind ∧
      (c :: word).map Char.toLower = ['g', 'o', 't', 'o'] ∧ Payload.isGap gap = true ∧
      trim behind = target ∧ isBareTarget target = true := by
  unfold directTarget? at h
  simp only [Option.ite_none_right_eq_some, Option.some.injEq, Bool.and_eq_true,
    decide_eq_true_eq] at h
  obtain ⟨⟨⟨hword, hgap⟩, hbare⟩, htrim⟩ := h
  have htext := (List.take_append_drop 4 text).symm
  rcases htake : text.take 4 with _ | ⟨c, word⟩
  · simp [htake] at hword
  rcases hdrop : text.drop 4 with _ | ⟨gap, behind⟩
  · simp [hdrop] at hgap
  rw [htake, hdrop] at htext
  rw [htake] at hword
  rw [hdrop] at hgap htrim
  have hgap : gap = ' ' ∨ gap = '\t' := by simpa using hgap
  have hblank : isBlank gap = true := by rcases hgap with rfl | rfl <;> decide
  refine ⟨c, word, gap, behind, htext, hword, by simpa [Payload.isGap] using hgap, ?_, htrim ▸ ?_⟩
  · rw [← htrim, trim, trim, trimStart, trimStart, List.dropWhile_cons_of_pos hblank]
  · simpa [hdrop] using hbare

lemma isPlain_of_trim {behind : List Char} (hline : '\n' ∉ behind)
    (hbare : isBareTarget (trim behind) = true) : Payload.IsPlain behind := by
  have hamp : isBlank '&' = false := by decide
  obtain ⟨blanks, htrim, hblanks⟩ := isTrimmedOf_trimEnd (trimStart behind)
  have hbehind : behind = behind.takeWhile isBlank ++ (trim behind ++ blanks) := by
    rw [trim, ← htrim, trimStart, List.takeWhile_append_dropWhile]
  intro c hc
  refine ⟨?_, fun h => hline (h ▸ hc)⟩
  rintro rfl
  rw [hbehind, List.mem_append, List.mem_append] at hc
  rcases hc with hfront | htarget | hback
  · simp [List.mem_takeWhile_imp hfront] at hamp
  · exact (isPlain_of_isBareTarget hbare _ htarget).1 rfl
  · simp [hblanks _ hback] at hamp

lemma target?_of_directTarget? (h : directTarget? text = some target) :
    target? text = some target := by
  obtain ⟨c, word, gap, behind, rfl, -, hgap, -⟩ := exists_of_directTarget? h
  have hgap : gap = ' ' ∨ gap = '\t' := by simpa [Payload.isGap] using hgap
  have hword : (isWordChar gap || gap = '.' || gap = '-') = false := by
    rcases hgap with rfl | rfl <;> decide
  rw [target?, if_neg (by simp [isBareTarget, hword]), h]

/-! ### The full path -/

lemma scan_directTarget (place : Position) (hline : '\n' ∉ text)
    (h : directTarget? text = some target) :
    ∃ payload lexeme finish : String, trim payload.toList = target ∧
      Scan.read .fresh place text =
        ⟨[⟨.payload .goto payload, lexeme, place⟩,
          ⟨.mark .sourceEnd, finish, place.advance text⟩], []⟩ := by
  obtain ⟨c, word, gap, behind, rfl, hword, hgap, rfl, hbare⟩ := exists_of_directTarget? h
  have hletters : ∀ d ∈ c :: word, isAlphabetic d = true := fun d hd => by
    have hlower : d.toLower ∈ ['g', 'o', 't', 'o'] := hword ▸ List.mem_map_of_mem hd
    rw [← isAlphabetic_toLower]
    exact List.all_eq_true.mp (by decide :
      ['g', 'o', 't', 'o'].all isAlphabetic = true) _ hlower
  have hplain : Payload.IsPlain behind := isPlain_of_trim (fun hmem => hline (by simp [hmem])) hbare
  refine ⟨_, _, "", ?_, Scan.read_carrier c word place (hletters c (by simp))
    (fun d hd => by simp [isWordChar, hletters d (by simp [hd])]) (Keyword.ofWord?_goto hword)
    (by decide) hplain gap hgap⟩
  rw [String.toList_ofList, (isTrimmedOf_dropReturn behind).trim_eq]

/-- **The shortcut is no other way to read.** A direct jump without a line feed is scanned without a
report at any place. A reader of programs that starts with these tokens makes no report either and
gives the group that jumps to the target, and nothing else. So the action is that group, whether it
is read through or known from its characters, whatever levels of nesting are left. -/
theorem read_directTarget (options : Options) (place : Position) (hline : '\n' ∉ text)
    (h : directTarget? text = some target) :
    (Scan.read .fresh place text).reports = [] ∧
      (∃ behind, (Parser.ofLexemes (Scan.read .fresh place text).lexemes options).run =
          (.ok ⟨[.jump (String.ofList target) place.line]⟩, behind) ∧ behind.reports = []) ∧
      ∀ budget, readFully options budget place text =
          .pure (.jump (String.ofList target) place.line) ∧
        read options (budget + 1) place text = readFully options budget place text := by
  obtain ⟨payload, lexeme, finish, htrim, hscan⟩ := scan_directTarget place hline h
  obtain ⟨-, -, -, -, -, -, -, -, hbare⟩ := exists_of_directTarget? h
  have hne : trim payload.toList ≠ [] := htrim ▸ isBareTarget_ne_nil hbare
  have huntil : Lexeme.untilEnd (Scan.read .fresh place text).lexemes =
      ([⟨.payload .goto payload, lexeme, place⟩],
        ⟨.mark .sourceEnd, finish, place.advance text⟩) := by
    rw [hscan, ← List.singleton_append]
    exact Lexeme.untilEnd_append [] (by simp) rfl
  have hfully (budget : Nat) : readFully options budget place text =
      .pure (.jump (String.ofList target) place.line) := by
    rw [readFully, program, huntil, read_lexemes_jump _ rfl hne, htrim, hscan]
    rfl
  refine ⟨by rw [hscan], ?_, fun budget => ⟨hfully budget, ?_⟩⟩
  · -- a parser of the tokens
    have hrun := read_lexemes_jump (l := ⟨.payload .goto payload, lexeme, place⟩)
      (Parser.context (Parser.ofLexemes (Scan.read .fresh place text).lexemes options)) rfl hne
    rw [Parser.ofLexemes, huntil] at hrun ⊢
    rw [Parser.run, hrun, htrim]
    exact ⟨_, rfl, rfl⟩
  · -- the shortcut
    rw [hfully, read_of_target? (budget + 1) (target?_of_directTarget? h)]

/-- The word `goto` in capitals and small letters, a tab and an ideographic space, and a keyword for
the name of the location. -/
theorem read_directTarget_sample :
    ('\n' ∉ "GoTo\t\u3000else".toList ∧
        directTarget? "GoTo\t\u3000else".toList = some "else".toList) ∧
      (Scan.read .fresh ⟨3, 7⟩ "GoTo\t\u3000else".toList).reports = [] ∧
      readFully {} 0 ⟨3, 7⟩ "GoTo\t\u3000else".toList = .pure (.jump "else" 3) ∧
      read {} 1 ⟨3, 7⟩ "GoTo\t\u3000else".toList = .pure (.jump "else" 3) := by
  have hline : '\n' ∉ "GoTo\t\u3000else".toList := by decide
  have htarget : directTarget? "GoTo\t\u3000else".toList = some "else".toList := by decide
  obtain ⟨hreports, -, hread⟩ := read_directTarget {} ⟨3, 7⟩ hline htarget
  rw [String.ofList_toList] at hread
  exact ⟨⟨hline, htarget⟩, hreports, (hread 0).1, (hread 0).2.trans (hread 0).1⟩

end Action

end QuestScript
