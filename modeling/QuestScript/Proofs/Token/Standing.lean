import QuestScript.Proofs.Position
import QuestScript.Proofs.Token.Layout

/-!
What stands where tokens and reports are placed.

A text is read piece by piece, each at the place behind the pieces in front of it. So a lexeme is
placed where its text stands, and a report is placed where the source shows what it is about.
Nothing but the places depends on where the text starts.
-/

namespace QuestScript

open Text

/-! ### Faults and what shows them -/

/-- The text starts with what the fault is about. -/
def Fault.ShownAt (cs : List Char) : Fault → Prop
  | unterminatedComment => ['/', '*'] <+: cs
  | unterminatedString => ['"'] <+: cs
  | unexpectedCharacter c => [c] <+: cs
  | badCharacterCode _ => ['#'] <+: cs
  | _ => True

lemma Fault.ShownAt.append {cs : List Char} {fault : Fault} (h : fault.ShownAt cs)
    (back : List Char) : fault.ShownAt (cs ++ back) := by
  have hmore {front : List Char} (hfront : front <+: cs) : front <+: cs ++ back :=
    hfront.trans (List.prefix_append cs back)
  unfold ShownAt at h ⊢
  split <;> first | exact hmore h | trivial

lemma Fault.shownAt_of_syntactic {fault : Fault} (h : fault.kind = .syntactic) (cs : List Char) :
    fault.ShownAt cs := by
  unfold kind at h
  split at h <;> simp_all [ShownAt]

lemma Piece.shownAt_read (mode : Mode) (c : Char) (rest : List Char) :
    ∀ fault ∈ (read mode c rest).fault, fault.ShownAt (c :: rest) := by
  intro fault hfault
  rcases fault_of_read mode c rest fault hfault with ⟨rfl, rfl, hstar⟩ | ⟨rfl, rfl⟩ | rfl
  · obtain ⟨tail, rfl⟩ := List.head?_eq_some_iff.mp hstar
    exact List.prefix_append ['/', '*'] tail
  · exact List.prefix_append ['"'] rest
  · exact List.prefix_append [c] rest

/-! ### Where lexemes and reports are placed -/

namespace Scan

variable {mode : Mode} {place : Position} {cs : List Char} {l : Lexeme} {r : Report}

lemma exists_of_drop {P : List Char → List Char → Prop} {n : Nat}
    (h : ∃ front back, cs.drop n = front ++ back ∧ P front back) :
    ∃ front back, cs = cs.take n ++ front ++ back ∧ P front back := by
  obtain ⟨front, back, heq, hP⟩ := h
  exact ⟨front, back, by rw [List.append_assoc, ← heq, List.take_append_drop], hP⟩

/-- A lexeme is placed where its text stands. -/
theorem exists_of_mem_lexemes (h : l ∈ (read mode place cs).lexemes) :
    ∃ front back, cs = front ++ back ∧ l.start = place.advance front ∧ l.text.toList <+: back ∧
      (l.token ≠ .mark .sourceEnd → back ≠ []) := by
  rcases eq_end_or_exists_piece h with rfl |
    ⟨inner, front, c, rest, text, rfl, hplace, htoken, htext⟩
  · exact ⟨cs, [], by simp, rfl, List.nil_prefix, fun h => absurd rfl h⟩
  · refine ⟨front, c :: rest, rfl, hplace, ?_, fun _ => by simp⟩
    rw [htext, String.toList_ofList]
    exact (Piece.isTrimmedOf_read inner c rest _ htoken).isPrefix.trans (List.take_prefix _ _)

/-- A report is placed where the text shows what it is about. -/
theorem exists_of_mem_reports (h : r ∈ (read mode place cs).reports) :
    ∃ front back, cs = front ++ back ∧ r.place = place.advance front ∧ r.fault.ShownAt back ∧
      back ≠ [] := by
  revert h
  refine read_induction (motive := fun mode place cs => r ∈ (read mode place cs).reports →
    ∃ front back, cs = front ++ back ∧ r.place = place.advance front ∧ r.fault.ShownAt back ∧
      back ≠ []) ?_ ?_ ?_ mode place cs
  · -- the end of the text
    intro mode place h
    simp [read_nil] at h
  · -- a blank
    intro mode place c rest hc ih h
    rw [read_padding _ _ hc] at h
    obtain ⟨front, back, rfl, hplace, hshown⟩ := ih h
    exact ⟨c :: front, back, rfl, hplace, hshown⟩
  · -- a piece: its own report, or one of those behind it
    intro mode place c rest hc ih h
    rw [read_piece _ _ hc] at h
    rcases List.mem_append.mp h with h | h
    · obtain ⟨fault, hfault, rfl⟩ := exists_of_mem_made h
      exact ⟨[], c :: rest, rfl, rfl, Piece.shownAt_read mode c rest fault hfault, by simp⟩
    · obtain ⟨front, back, heq, hplace, hshown⟩ := exists_of_drop (ih h)
      exact ⟨_, back, heq, by rw [hplace, Position.advance_append], hshown⟩

lemma suffix_of_mem_lexemes {carrier : Carrier} {text : String}
    (h : l ∈ (read mode place cs).lexemes) (hl : l.token = .payload carrier text) :
    '\n' ∉ l.text.toList ∧ text.toList <:+ l.text.toList := by
  obtain ⟨inner, c, rest, lexeme, -, htoken, htext⟩ := exists_piece_of_mem h (by simp [hl])
  rw [htext, String.toList_ofList]
  exact Piece.sits_read inner c rest carrier text lexeme (hl ▸ htoken)

/-- A payload is placed where it stands, on the line of its lexeme. -/
theorem exists_of_payload {carrier : Carrier} {text : String}
    (h : l ∈ (read mode place cs).lexemes) (hl : l.token = .payload carrier text) :
    ∃ front back, cs = front ++ text.toList ++ back ∧ l.payloadStart = place.advance front ∧
      '\n' ∉ text.toList ∧ ∃ n, l.payloadStart = l.start.right n := by
  obtain ⟨front, back, rfl, hplace, ⟨tail, rfl⟩, -⟩ := exists_of_mem_lexemes h
  obtain ⟨hline, word, hword⟩ := suffix_of_mem_lexemes h hl
  have hlead : '\n' ∉ word := fun hmem => hline (by simp [← hword, hmem])
  have hlength : l.payloadStart = l.start.right word.length := by
    simp only [Lexeme.payloadStart, hl, Token.text?, Option.elim, ← String.length_toList, ← hword,
      List.length_append, Nat.add_sub_cancel]
  refine ⟨front ++ word, tail, by simp [← hword], ?_, ?_, _, hlength⟩
  · rw [hlength, hplace, Position.advance_append, Position.advance_of_notMem hlead]
  · exact fun hmem => hline (by simp [← hword, hmem])

end Scan

/-! ### Texts that start elsewhere -/

/-- The lexeme of a text that starts at the origin. -/
def Lexeme.embed (origin : Position) (l : Lexeme) : Lexeme :=
  { l with start := origin.embed l.start }

/-- The report on a text that starts at the origin. -/
def Report.embed (origin : Position) (r : Report) : Report :=
  { r with place := origin.embed r.place }

/-- **Places are all that tells where a text starts.** The same tokens are read from a text and the
same reports made on it wherever it starts. -/
theorem Scan.read_embed (origin : Position) (mode : Mode) {place : Position} (cs : List Char)
    (h : place.IsCounted) :
    read mode (origin.embed place) cs =
      ⟨(read mode place cs).lexemes.map (Lexeme.embed origin),
        (read mode place cs).reports.map (Report.embed origin)⟩ := by
  revert h
  refine read_induction (motive := fun mode place cs => place.IsCounted →
    read mode (origin.embed place) cs = ⟨(read mode place cs).lexemes.map (Lexeme.embed origin),
      (read mode place cs).reports.map (Report.embed origin)⟩) ?_ ?_ ?_ mode place cs
  · intro mode place _
    rw [read_nil, read_nil]
    rfl
  · intro mode place c rest hc ih h
    rw [read_padding _ _ hc, read_padding _ _ hc, ← ih (h.next c), Position.embed_next origin h]
  · intro mode place c rest hc ih h
    have hkept : kept mode (origin.embed place) (Piece.read mode c rest) =
        (kept mode place (Piece.read mode c rest)).map (Lexeme.embed origin) := by
      unfold kept
      split
      · split <;> rfl
      · rfl
    have hmade : made (origin.embed place) (Piece.read mode c rest) =
        (made place (Piece.read mode c rest)).map (Report.embed origin) := by
      unfold made
      rw [List.map_map]
      rfl
    rw [read_piece _ _ hc, read_piece _ _ hc, ← Position.embed_advance origin h,
      ih (h.advance _), hkept, hmade, List.map_append, List.map_append]

/-- A comment is a line break if it ends on another line than it starts on, whichever line that is.
So comparing lines does not tell where a text starts either. -/
theorem Piece.ofComment_spans (place : Position) (cs : List Char) :
    (ofComment cs).token.map Prod.fst =
      if (place.advance (cs.take (ofComment cs).width)).line = place.line then none
      else some (.mark .lineBreak) := by
  rw [ofComment]
  by_cases hline : '\n' ∈ cs.take ((commentEnd? (cs.drop 2)).elim cs.length (· + 2))
  · have hspans := Position.line_lt_advance place hline
    simp only [List.contains_eq_mem, hline, decide_true, if_true]
    exact (if_neg (Nat.ne_of_gt hspans)).symm
  · have hspans := congrArg Position.line (Position.advance_of_notMem hline place)
    simp only [List.contains_eq_mem, hline, decide_false, Bool.false_eq_true, if_false]
    exact (if_pos hspans).symm

namespace Scanner

/-- The scanner of a text that starts at the origin. -/
def embed (origin : Position) (s : Scanner) : Scanner :=
  { s with place := origin.embed s.place, reports := s.reports.map (Report.embed origin) }

lemma run_embed (origin : Position) {s : Scanner} (h : s.place.IsCounted) :
    (s.embed origin).run = (s.run.1.map (Lexeme.embed origin), s.run.2.embed origin) := by
  simp only [run, embed, Scan.read_embed origin .fresh s.rest h, List.map_append,
    Position.embed_advance origin h]

/-- **A text that starts elsewhere is read the same.** The tokens of a text that starts at any
origin are those of the text by itself, with the same lexemes, and so are the reports on it. Only
the places differ: those on the first line stand as many columns behind the origin as they stood
behind the start of the text, and those on other lines keep their column and move down. -/
theorem run_ofText (source : String) (origin : Position) :
    (ofText source origin).run =
        ((ofText source .start).run.1.map (Lexeme.embed origin),
          (ofText source .start).run.2.embed origin) ∧
      (∀ l ∈ (ofText source .start).run.1, l.start.IsCounted) ∧
      ∀ r ∈ (ofText source .start).run.2.reports, r.place.IsCounted := by
  refine ⟨run_embed (s := ofText source .start) origin Position.isCounted_start, ?_, ?_⟩
  · intro l hl
    obtain ⟨front, -, -, hstart, -⟩ := Scan.exists_of_mem_lexemes hl
    exact hstart ▸ Position.isCounted_start.advance front
  · intro r hr
    have hread : r ∈ (Scan.read .fresh .start source.toList).reports := by
      simpa [run, ofText] using hr
    obtain ⟨front, -, -, hplace, -⟩ := Scan.exists_of_mem_reports hread
    exact hplace ▸ Position.isCounted_start.advance front

/-- Behind a comment that spans two lines columns count from one, in front of it they do not. -/
example : ((ofText "/* a\n*/ goto b" ⟨12, 30⟩).run.1.map Lexeme.start,
    (ofText "|" ⟨12, 30⟩).run.2.reports.map Report.place) = ([⟨13, 4⟩, ⟨13, 10⟩], [⟨12, 30⟩]) := by
  decide +kernel

end Scanner

end QuestScript
