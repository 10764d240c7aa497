import Mathlib.Data.List.Nodup
import QuestScript.Parser
import QuestScript.Proofs.Position
import QuestScript.Proofs.Token.Standing

/-!
What becomes of every character.

A source falls into parts: the lexemes of its tokens, blanks, comments and directives that are
passed over, and characters that are reported. Tokens and reports are placed where their parts
stand, and no two reports stand at one place. So nothing is lost without a report.
-/

namespace QuestScript

open Text

/-! ### Texts that are passed over -/

/-- The text is a comment or a directive, with what stands behind it. Some of them only stand where
a line begins. A comment that is not closed goes on to the end of the source and is reported. -/
inductive IsPassage (reported : Prop) (lineStart : Bool) (behind : List Char) : List Char → Prop
  | remark {rest : List Char} (hline : '\n' ∉ rest) (hend : ∀ c ∈ behind.head?, c = '\n') :
      IsPassage reported lineStart behind (';' :: rest)
  | doubled {c : Char} {rest : List Char} (hc : c = '/' ∨ c = '-') (hstart : lineStart = true)
      (hline : '\n' ∉ rest) (hend : ∀ c ∈ behind.head?, c = '\n') :
      IsPassage reported lineStart behind (c :: c :: rest)
  | directive {text : List Char} (hstart : lineStart = true)
      (hword : lowercase (text.takeWhile isWordChar) = "instr".toList)
      (hline : '\n' ∉ text) (hend : ∀ c ∈ behind.head?, c = '\n') :
      IsPassage reported lineStart behind text
  | block {inner : List Char} (hinner : ¬['*', '/'] <:+: inner ++ ['*']) :
      IsPassage reported lineStart behind (['/', '*'] ++ inner ++ ['*', '/'])
  | unclosed {inner : List Char} (hinner : ¬['*', '/'] <:+: inner) (hbehind : behind = [])
      (hreported : reported) : IsPassage reported lineStart behind (['/', '*'] ++ inner)

lemma IsPassage.imp {reported reported' : Prop} {lineStart : Bool} {behind text : List Char}
    (hreported : reported → reported') (h : IsPassage reported lineStart behind text) :
    IsPassage reported' lineStart behind text := by
  cases h with
  | remark hline hend => exact .remark hline hend
  | doubled hc hstart hline hend => exact .doubled hc hstart hline hend
  | directive hstart hword hline hend => exact .directive hstart hword hline hend
  | block hinner => exact .block hinner
  | unclosed hinner hbehind h => exact .unclosed hinner hbehind (hreported h)

namespace Keyword

lemma lowercase_of_instruction {word : List Char} (h : ofWord? word = some .instruction) :
    lowercase word = "instr".toList := by
  have hmem : (String.ofList (lowercase word), Keyword.instruction) ∈ table := by
    obtain ⟨front, back, htable, -⟩ := List.lookup_eq_some_iff.mp h
    rw [htable]
    simp
  have hword : String.ofList (lowercase word) = "instr" := by simpa [table] using hmem
  rw [← hword, String.toList_ofList]

end Keyword

namespace Piece

variable {mode : Mode} {c : Char} {rest cs : List Char}

lemma take_commentEnd? {n : Nat} (h : commentEnd? cs = some n) :
    ∃ inner, cs.take n = inner ++ ['*', '/'] ∧ ¬['*', '/'] <:+: inner ++ ['*'] := by
  fun_induction commentEnd? cs generalizing n with
  | case1 => simp at h
  | case2 => simp at h
  | case3 c d cs hc =>
    obtain rfl : 2 = n := by simpa using h
    obtain ⟨rfl, rfl⟩ : c = '*' ∧ d = '/' := by simpa using hc
    exact ⟨[], rfl, fun hinfix => by simpa using hinfix.length_le⟩
  | case4 c d cs hc ih =>
    obtain ⟨k, hk, rfl⟩ := Option.map_eq_some_iff.mp h
    obtain ⟨inner, htake, hinner⟩ := ih hk
    refine ⟨c :: inner, by simp [htake], ?_⟩
    rw [List.cons_append, List.infix_cons_iff, not_or]
    refine ⟨fun hprefix => hc ?_, hinner⟩
    obtain ⟨k, rfl⟩ : ∃ m, k = m + 1 :=
      Nat.exists_eq_succ_of_ne_zero fun hzero => by simp [hzero] at htake
    -- the two letters that would close the comment here
    rcases inner with _ | ⟨e, inner⟩
    · simp at hprefix
    · obtain ⟨rfl, -⟩ : d = e ∧ _ := by simpa using htake
      obtain ⟨rfl, rfl⟩ : '*' = c ∧ '/' = d := by simpa using hprefix
      rfl

lemma not_infix_of_commentEnd? (h : commentEnd? cs = none) : ¬['*', '/'] <:+: cs := by
  fun_induction commentEnd? cs with
  | case1 => simp
  | case2 c => exact fun hinfix => by simpa using hinfix.length_le
  | case3 => simp at h
  | case4 c d cs hc ih =>
    rw [List.infix_cons_iff, not_or]
    refine ⟨fun hprefix => hc ?_, ih (Option.map_eq_none_iff.mp h)⟩
    obtain ⟨rfl, rfl⟩ : '*' = c ∧ '/' = d := by simpa using hprefix
    rfl

lemma line_eq (cs : List Char) : cs.take (lineLength cs) = cs.takeWhile (· != '\n') ∧
    '\n' ∉ cs.takeWhile (· != '\n') ∧ ∀ c ∈ (cs.drop (lineLength cs)).head?, c = '\n' := by
  refine ⟨(List.prefix_iff_eq_take.mp (List.takeWhile_prefix _)).symm,
    notMem_takeWhile (by simp) cs, fun c hc => ?_⟩
  rw [lineLength, drop_takeWhile] at hc
  have hnot := List.head?_dropWhile_not (· != '\n') cs
  rw [Option.mem_def.mp hc] at hnot
  simpa using hnot

lemma takeWhile_takeWhile_line (cs : List Char) :
    (cs.takeWhile (· != '\n')).takeWhile isWordChar = cs.takeWhile isWordChar := by
  have hword : isWordChar '\n' = false := by decide +kernel
  rw [List.takeWhile_takeWhile]
  congr 1
  funext c
  by_cases hc : c = '\n' <;> simp [hc, hword]

lemma isPassage_ofComment (lineStart : Bool) (body : List Char) :
    IsPassage ((ofComment ('/' :: '*' :: body)).fault.isSome = true) lineStart
      (('/' :: '*' :: body).drop (ofComment ('/' :: '*' :: body)).width)
      (('/' :: '*' :: body).take (ofComment ('/' :: '*' :: body)).width) := by
  have hwidth : (ofComment ('/' :: '*' :: body)).width =
      (commentEnd? body).elim ('/' :: '*' :: body).length (· + 2) := by
    simp only [ofComment]
    split <;> rfl
  have hfault : (ofComment ('/' :: '*' :: body)).fault.isSome = !(commentEnd? body).isSome := by
    simp only [ofComment, List.drop_succ_cons, List.drop_zero]
    cases (commentEnd? body).isSome <;> split <;> rfl
  rw [hwidth, hfault]
  rcases hend : commentEnd? body with _ | n
  · -- the comment runs to the end of the text
    rw [Option.elim_none, List.take_length, List.drop_length]
    exact .unclosed (not_infix_of_commentEnd? hend) rfl rfl
  · obtain ⟨inner, htake, hinner⟩ := take_commentEnd? hend
    rw [Option.elim_some, List.take_succ_cons, List.take_succ_cons, htake]
    exact .block hinner

/-- The text that a piece covers is passed over. -/
def IsPassedOver (mode : Mode) (cs : List Char) (piece : Piece) : Prop :=
  (∀ c ∈ cs.take piece.width, isBlank c = true) ∨
    IsPassage (piece.fault.isSome = true) mode.lineStart (cs.drop piece.width)
      (cs.take piece.width) ∨
    piece.width = 1 ∧ piece.fault.isSome = true

lemma isPassedOver_line
    (h : ∀ behind, '\n' ∉ cs.takeWhile (· != '\n') → (∀ c ∈ behind.head?, c = '\n') →
      IsPassage False mode.lineStart behind (cs.takeWhile (· != '\n'))) :
    (skipped (lineLength cs)).IsPassedOver mode cs := by
  obtain ⟨htake, hline, hend⟩ := line_eq cs
  have hpassage := h _ hline hend
  rw [← htake] at hpassage
  exact .inr (.inl (hpassage.imp False.elim))

/-- A piece without a lexeme covers blanks, a comment, a directive, or a character that is
reported. -/
theorem isPassedOver_read (mode : Mode) (c : Char) (rest : List Char) :
    (∀ entry ∈ (read mode c rest).token, Scan.keeps mode entry.1 = false) →
      (read mode c rest).IsPassedOver mode (c :: rest) := by
  have hkept {piece : Piece} {token : Token} {lexeme : List Char}
      (htoken : piece.token = some (token, lexeme)) (hne : token ≠ .mark .lineBreak)
      (h : ∀ entry ∈ piece.token, Scan.keeps mode entry.1 = false) :
      piece.IsPassedOver mode (c :: rest) := by
    simp [htoken, Scan.keeps, hne] at h
  refine read_cases (motive := fun piece =>
    (∀ entry ∈ piece.token, Scan.keeps mode entry.1 = false) → piece.IsPassedOver mode (c :: rest))
    ?lineBreak ?line ?comment ?label ?string ?number ?word ?operator
  case lineBreak =>
    intro _ _
    refine .inl fun d hd => ?_
    have hrun := List.mem_takeWhile_imp
      (List.prefix_iff_eq_take.mp (List.takeWhile_prefix _) ▸ hd)
    simp only [Bool.or_eq_true, decide_eq_true_eq] at hrun
    rcases hrun with ((rfl | rfl) | rfl) | rfl <;> decide
  case line =>
    intro hc hstart _
    refine isPassedOver_line fun behind hline hend => ?_
    rw [List.takeWhile_cons_of_pos (by simpa using hc)] at hline ⊢
    rcases hstart with rfl | ⟨hstart, hmark, hnext⟩
    · exact .remark (fun hmem => hline (List.mem_cons_of_mem _ hmem)) hend
    · obtain ⟨tail, rfl⟩ := List.head?_eq_some_iff.mp hnext
      rw [List.takeWhile_cons_of_pos (by simpa using hc)] at hline ⊢
      exact .doubled hmark hstart (fun hmem => hline (by simp [hmem])) hend
  case comment =>
    rintro rfl hstar _
    obtain ⟨body, rfl⟩ := List.head?_eq_some_iff.mp hstar
    refine .inr (.inl (isPassage_ofComment _ body))
  case label => exact fun _ => hkept rfl (by simp)
  case string =>
    intro _
    unfold ofString
    split
    · exact hkept rfl (by simp)
    · exact fun _ => .inr (.inr ⟨rfl, rfl⟩)
  case number => exact fun _ => hkept rfl (by simp)
  case word =>
    intro hc
    refine ofWord_cases (motive := fun piece => (∀ entry ∈ piece.token,
      Scan.keeps mode entry.1 = false) → piece.IsPassedOver mode (c :: rest)) rfl
      ?name ?mark ?carrier ?signed ?line
    case name => exact hkept rfl (by simp)
    case mark => exact fun m hm => hkept rfl (by simpa using (not_end_of_ofWord? hm).1)
    case carrier => exact fun carrier => hkept rfl (by simp)
    case signed => exact fun carrier _ _ _ => hkept rfl (by simp)
    case line =>
      intro hstart hword _
      refine isPassedOver_line fun behind hline hend => .directive hstart ?_ hline hend
      rw [takeWhile_takeWhile_line]
      exact Keyword.lowercase_of_instruction hword
  case operator =>
    intro _
    unfold ofOperator
    split
    · next hop => exact hkept rfl (by simpa using (not_end_of_operator? hop).1)
    · exact fun _ => .inr (.inr ⟨rfl, rfl⟩)

end Piece

/-! ### Reports in order -/

namespace Scan

/-- Each report is placed behind the ones before it. -/
theorem pairwise_reports (mode : Mode) (place : Position) (cs : List Char) :
    (read mode place cs).reports.Pairwise fun r s => r.place < s.place := by
  refine read_induction (motive := fun mode place cs =>
    (read mode place cs).reports.Pairwise fun r s => r.place < s.place) ?_ ?_ ?_ mode place cs
  · -- the end of the text
    intro mode place
    simp [read_nil]
  · -- a blank
    intro mode place c rest hc ih
    rwa [read_padding mode place hc]
  · -- a piece: its own report stands before all later ones
    intro mode place c rest hc ih
    rw [read_piece mode place hc]
    refine List.pairwise_append.mpr ⟨?_, ih, fun r hr s hs => ?_⟩
    · unfold made
      cases (Piece.read mode c rest).fault <;> simp
    · obtain ⟨fault, -, rfl⟩ := exists_of_mem_made hr
      obtain ⟨front, -, -, hplace, -⟩ := exists_of_mem_reports hs
      obtain ⟨more, hmore⟩ :=
        Nat.exists_eq_succ_of_ne_zero (Nat.ne_of_gt (Piece.fits_read mode c rest).1)
      rw [hplace, ← Position.advance_append, hmore, List.take_succ_cons, List.cons_append]
      exact Position.lt_advance_cons place c _

end Scan

/-! ### Parts -/

/-- A part of a source. -/
inductive Part
  | lexeme (l : Lexeme)
  | blank (c : Char)
  /-- A text that is passed over. -/
  | passage (text : List Char)
  /-- A character that is reported. -/
  | wrong (c : Char)

namespace Part

/-- The characters of the part. -/
def text : Part → List Char
  | lexeme l => l.text.toList
  | blank c | wrong c => [c]
  | passage text => text

def lexeme? : Part → Option Lexeme
  | lexeme l => some l
  | _ => none

/-- Why the characters of the part are not lost: they are a lexeme, placed where it stands, or
blank, or passed over, or reported. -/
def IsAccounted (reported : Position → Prop) (lineStart : Bool) (place : Position)
    (behind : List Char) : Part → Prop
  | lexeme l => l.start = place
  | blank c => isBlank c = true
  | passage text => IsPassage (reported place) lineStart behind text
  | wrong _ => reported place

/-- Each part is accounted for at its place in the text, which starts at the given place. -/
def Accounts (reported : Position → Prop) (mode : Mode) (place : Position) (behind : List Char)
    (parts : List Part) : Prop :=
  ∀ front part back, parts = front ++ part :: back →
    part.IsAccounted reported (Scan.lineStartBehind mode (front.filterMap lexeme?))
      (place.advance (front.flatMap text)) (back.flatMap text ++ behind)

variable {reported : Position → Prop} {mode later : Mode} {place : Position} {behind : List Char}
  {parts more : List Part}

lemma accounts_singleton {part : Part}
    (h : part.IsAccounted reported mode.lineStart place behind) :
    Accounts reported mode place behind [part] := by
  intro front other back heq
  obtain ⟨rfl, rfl, rfl⟩ : front = [] ∧ other = part ∧ back = [] := by
    rcases front with _ | ⟨_, front⟩
    · simpa [eq_comm] using heq
    · simp at heq
  exact h

lemma Accounts.append (h : Accounts reported mode place (more.flatMap text ++ behind) parts)
    (hmore : Accounts reported later (place.advance (parts.flatMap text)) behind more)
    (hlater : later.lineStart = Scan.lineStartBehind mode (parts.filterMap lexeme?)) :
    Accounts reported mode place behind (parts ++ more) := by
  intro front part back heq
  have hbehind (tail : List Part) (htail : more = tail ++ part :: back) :
      part.IsAccounted reported
        (Scan.lineStartBehind mode ((parts ++ tail).filterMap lexeme?))
        (place.advance ((parts ++ tail).flatMap text)) (back.flatMap text ++ behind) := by
    rw [List.filterMap_append, Scan.lineStartBehind_append _ _ hlater, List.flatMap_append,
      Position.advance_append]
    exact hmore tail part back htail
  rcases List.append_eq_append_iff.mp heq with ⟨tail, rfl, htail⟩ | ⟨tail, rfl, htail⟩
  · -- the part stands in `more`
    exact hbehind tail htail
  · -- the part is one of `parts`, or `parts` ends right before it
    rcases tail with _ | ⟨first, tail⟩
    · simpa using hbehind [] (by simpa using htail.symm)
    · obtain ⟨rfl, rfl⟩ : part = first ∧ back = tail ++ more := by simpa using htail
      simpa using h front part tail rfl

lemma flatMap_text_blanks (cs : List Char) : (cs.map blank).flatMap text = cs := by
  induction cs with
  | nil => rfl
  | cons c cs ih => rw [List.map_cons, List.flatMap_cons, ih]; rfl

lemma filterMap_lexeme?_blanks (cs : List Char) : (cs.map blank).filterMap lexeme? = [] := by
  simp [lexeme?]

lemma accounts_blanks {cs : List Char} (h : ∀ c ∈ cs, isBlank c = true) :
    Accounts reported mode place behind (cs.map blank) := by
  intro front part back heq
  obtain ⟨c, hc, rfl⟩ := List.mem_map.mp (heq ▸ List.mem_append_right front List.mem_cons_self)
  exact h c hc

lemma accounts_lexeme {l : Lexeme} {cs : List Char} (hl : l.start = place)
    (h : ∀ c ∈ cs, isBlank c = true) :
    Accounts reported mode place behind (lexeme l :: cs.map blank) := by
  intro front part back heq
  rcases front with _ | ⟨first, front⟩
  · obtain ⟨rfl, -⟩ := List.cons.inj heq
    exact hl
  · have hmem : part ∈ cs.map blank := by
      rw [(List.cons.inj heq).2]
      exact List.mem_append_right front List.mem_cons_self
    obtain ⟨c, hc, rfl⟩ := List.mem_map.mp hmem
    exact h c hc

/-! ### Sources -/

variable {c : Char} {rest cs : List Char}

lemma exists_parts_of_piece (mode : Mode) (place : Position) (c : Char) (rest : List Char)
    (h : ∀ r ∈ Scan.made place (Piece.read mode c rest), reported r.place) :
    ∃ parts : List Part,
      parts.flatMap text = (c :: rest).take (Piece.read mode c rest).width ∧
      parts.filterMap lexeme? = Scan.kept mode place (Piece.read mode c rest) ∧
      Accounts reported mode place ((c :: rest).drop (Piece.read mode c rest).width) parts := by
  have hreported (hfault : (Piece.read mode c rest).fault.isSome = true) : reported place := by
    obtain ⟨fault, hfault⟩ := Option.isSome_iff_exists.mp hfault
    exact h ⟨fault, place⟩ (by simp [Scan.made, hfault])
  by_cases hkeeps : ∃ entry ∈ (Piece.read mode c rest).token, Scan.keeps mode entry.1 = true
  · -- the lexeme is kept, and the blanks behind it
    obtain ⟨⟨token, lexeme⟩, htoken, hkeeps⟩ := hkeeps
    obtain ⟨blanks, hcover, hblanks⟩ := Piece.isTrimmedOf_read mode c rest _ htoken
    refine ⟨Part.lexeme ⟨token, String.ofList lexeme, place⟩ :: blanks.map blank, ?_, ?_,
      accounts_lexeme rfl hblanks⟩
    · rw [List.flatMap_cons, flatMap_text_blanks, hcover, text, String.toList_ofList]
    · change _ :: (blanks.map blank).filterMap lexeme? = _
      rw [filterMap_lexeme?_blanks, Scan.kept, Option.mem_def.mp htoken]
      exact (if_pos hkeeps).symm
  · -- nothing is kept: blanks, a comment or a wrong character
    have hnone : Scan.kept mode place (Piece.read mode c rest) = [] := by
      rw [Scan.kept]
      split
      · next token lexeme htoken => exact if_neg fun hkept => hkeeps ⟨_, htoken, hkept⟩
      · rfl
    rw [hnone]
    rcases Piece.isPassedOver_read mode c rest (by simpa using hkeeps) with
      hblank | hpassage | ⟨hwidth, hfault⟩
    · exact ⟨_, flatMap_text_blanks _, filterMap_lexeme?_blanks _, accounts_blanks hblank⟩
    · exact ⟨[passage _], List.append_nil _, rfl, accounts_singleton (hpassage.imp hreported)⟩
    · rw [hwidth]
      exact ⟨[wrong c], rfl, rfl, accounts_singleton (hreported hfault)⟩

/-- Every character of a text is accounted for. -/
theorem exists_parts_of_read (reported : Position → Prop) (mode : Mode) (place : Position)
    (cs : List Char) (h : ∀ r ∈ (Scan.read mode place cs).reports, reported r.place) :
    ∃ parts : List Part, parts.flatMap text = cs ∧
      parts.filterMap lexeme? = (Scan.read mode place cs).lexemes ∧
      Accounts reported mode place [] parts := by
  revert h
  refine Scan.read_induction (motive := fun mode place cs =>
    (∀ r ∈ (Scan.read mode place cs).reports, reported r.place) →
      ∃ parts : List Part, parts.flatMap text = cs ∧
        parts.filterMap lexeme? = (Scan.read mode place cs).lexemes ∧
        Accounts reported mode place [] parts) ?_ ?_ ?_ mode place cs
  · -- the end of the text
    intro mode place _
    rw [Scan.read_nil]
    exact ⟨[lexeme ⟨.mark .sourceEnd, "", place⟩], rfl, rfl, accounts_singleton rfl⟩
  · -- a blank
    intro mode place c rest hc ih h
    rw [Scan.read_padding mode place hc] at h ⊢
    obtain ⟨parts, rfl, hlexemes, haccounts⟩ := ih h
    refine ⟨[blank c] ++ parts, rfl, hlexemes, ?_⟩
    exact Accounts.append (accounts_singleton hc.isBlank) haccounts rfl
  · -- a piece
    intro mode place c rest hc ih h
    rw [Scan.read_piece mode place hc] at h ⊢
    obtain ⟨hmade, hlater⟩ := List.forall_mem_append.mp h
    obtain ⟨front, hfront, hkept, hfrontal⟩ := exists_parts_of_piece mode place c rest hmade
    obtain ⟨back, hback, hlexemes, hbackal⟩ := ih hlater
    refine ⟨front ++ back, ?_, ?_, Accounts.append ?_ (hfront ▸ hbackal) ?_⟩
    · rw [List.flatMap_append, hfront, hback, List.take_append_drop]
    · rw [List.filterMap_append, hkept, hlexemes]
    · rwa [hback, List.append_nil]
    · have hstart := Scan.lineStartBehind_kept mode place (Piece.read mode c rest) []
      rw [List.append_nil] at hstart
      rw [hkept, hstart]
      rfl

end Part

/-- **No character is lost without a report.** A source falls into parts one behind the other, and
its tokens are the lexemes among them, in order. A lexeme is placed at the line and column where it
stands, and all other characters are blanks, comments, directives, or the place of exactly one
report. No two reports on characters have one place. -/
theorem tokenize_accounts (source : String) :
    (∃ parts : List Part,
      parts.flatMap Part.text = source.toList ∧
      parts.filterMap Part.lexeme? = (tokenize source).1 ∧
      ∀ front part back, parts = front ++ part :: back →
        part.IsAccounted (fun place => ((tokenize source).2.map Report.place).count place = 1)
          (Scan.lineStartBehind .fresh (front.filterMap Part.lexeme?))
          (.ofOffset source.toList (front.flatMap Part.text).length)
          (back.flatMap Part.text)) ∧
      ((tokenize source).2.map Report.place).Nodup ∧
      ∀ r ∈ (tokenize source).2, r.fault.kind = .lexical := by
  have hnodup : ((tokenize source).2.map Report.place).Nodup :=
    List.pairwise_map.mpr ((Scan.pairwise_reports .fresh .start source.toList).imp ne_of_lt)
  refine ⟨?_, hnodup, fun r hr => Scan.lexical_of_mem_reports hr⟩
  obtain ⟨parts, hsource, hlexemes, haccounts⟩ := Part.exists_parts_of_read
    (fun place => ((tokenize source).2.map Report.place).count place = 1)
      .fresh .start source.toList
    fun r hr => List.count_eq_one_of_mem hnodup (List.mem_map_of_mem hr)
  refine ⟨parts, hsource, hlexemes, fun front part back hparts => ?_⟩
  have hpart := haccounts front part back hparts
  have hsplit : source.toList = front.flatMap Part.text ++ (part :: back).flatMap Part.text := by
    rw [← hsource, hparts, List.flatMap_append]
  rwa [Position.advance_start_left _ ((part :: back).flatMap Part.text), ← hsplit,
    List.append_nil] at hpart

end QuestScript
