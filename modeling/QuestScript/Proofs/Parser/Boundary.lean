import QuestScript.Parser
import QuestScript.Proofs.Program.Line
import QuestScript.Proofs.Token.Stop

/-!
The boundary behind a payload.

What stands behind a payload token is a boundary of statements or branches, or the operator `&&`,
whose first ampersand ended the payload. So what is reported as left over right behind a payload
statement is that operator, or an `else` that belongs to no `if`.
-/

namespace QuestScript

namespace Lexeme

variable {front back : List Lexeme} {l : Lexeme}

lemma untilEnd_append_cons (hfront : ∀ o ∈ front, o.token ≠ .mark .sourceEnd)
    (hl : l.token ≠ .mark .sourceEnd) :
    (untilEnd (front ++ l :: back)).1 = front ++ l :: (untilEnd back).1 := by
  have hfront' : ∀ o ∈ front, (o.token != .mark .sourceEnd) = true := by simpa using hfront
  simp only [untilEnd]
  rw [List.takeWhile_append_of_pos hfront', List.takeWhile_cons_of_pos (by simpa using hl)]

lemma head?_untilEnd {o : Lexeme} (h : o ∈ (untilEnd (l :: back)).1.head?) :
    o = l ∧ l.token ≠ .mark .sourceEnd := by
  simp only [untilEnd, List.head?_takeWhile, List.head?_cons, Option.mem_def,
    Option.filter_eq_some_iff, Option.some.injEq, bne_iff_ne, ne_eq] at h
  exact ⟨h.1.symm, h.1 ▸ h.2⟩

end Lexeme

namespace Group

variable {ctx : Context} {back : List Lexeme}

lemma exists_of_trailing_ne_nil (h : trailing ctx back ≠ []) :
    ∃ l ∈ back.head?, l.endsStatement = false := by
  unfold trailing at h
  split at h
  · next hany => simpa [Option.any_eq_true] using hany
  · exact absurd rfl h

lemma not_endsStatement_of_trailing {next : Lexeme} {later : List Lexeme}
    (h : trailing ctx (Lexeme.untilEnd (next :: later)).1 ≠ []) :
    next.token ≠ .mark .ampersand ∧ next.token ≠ .mark .lineBreak ∧
      next.token ≠ .mark .sourceEnd := by
  obtain ⟨o, ho, hends⟩ := exists_of_trailing_ne_nil h
  obtain ⟨rfl, hend⟩ := Lexeme.head?_untilEnd ho
  simp only [Lexeme.endsStatement, Bool.or_eq_false_iff, decide_eq_false_iff_not] at hends
  exact ⟨hends.1, hends.2, hend⟩

end Group

lemma Scan.ne_sourceEnd_of_append {mode : Mode} {place : Position} {cs : List Char}
    {front back : List Lexeme} (h : (read mode place cs).lexemes = front ++ back)
    (hback : back ≠ []) : ∀ o ∈ front, o.token ≠ .mark .sourceEnd := by
  obtain ⟨ts, hts, hfree⟩ := exists_lexemes_eq mode place cs
  have hfront : ts = front ++ back.dropLast := by
    have := congrArg List.dropLast (h.symm.trans hts)
    rwa [List.dropLast_concat, List.dropLast_append_of_ne_nil hback, eq_comm] at this
  exact fun o ho => hfree o (hfront ▸ List.mem_append_left _ ho)

/-- **A payload ends at a boundary**, unless it ends at two ampersands in a row, which are the
operator `and`. So right behind a payload statement, which takes its one token, nothing is reported
as left over but that operator or an `else`. -/
theorem exists_boundary_of_payload {source : String} {front back : List Lexeme} {l : Lexeme}
    {carrier : Carrier} {text : String} (h : (tokenize source).1 = front ++ l :: back)
    (hl : l.token = .payload carrier text) :
    ∃ next later, back = next :: later ∧
      (next.IsBoundary ∨ next.token = .mark .and ∧ next.text = "&&") ∧
      (Lexeme.untilEnd (tokenize source).1).1 = front ++ l :: (Lexeme.untilEnd back).1 ∧
      ∀ ctx : Context, (Statement.read ctx (l :: (Lexeme.untilEnd back).1)).taken = 1 ∧
        (Group.trailing ctx (Lexeme.untilEnd back).1 ≠ [] →
          next.token = .mark .and ∨ next.token = .mark .elseWord) := by
  have hend : l.token ≠ .mark .sourceEnd := by simp [hl]
  have hfront := Scan.ne_sourceEnd_of_append h (List.cons_ne_nil l back)
  obtain ⟨inner, c, rest, lexeme, -, hpiece, -, hback⟩ :=
    Scan.exists_piece_of_append Mode.isCounted_fresh h hend
  obtain ⟨lead, hcarries⟩ := Piece.carries_read (hl ▸ hpiece)
  -- behind a payload only certain tokens can follow
  obtain ⟨next, later, hread, hnext⟩ := Scan.exists_lexeme_of_standsAt
    (l.start.advance ((c :: rest).take (Piece.read inner c rest).width))
    (show (inner.after l.token).lineStart = false by simp [Scan.lineStart_after, hl])
    hcarries.standsAt
  obtain rfl : back = next :: later := hback.trans hread
  refine ⟨next, later, rfl, hnext, by rw [h, Lexeme.untilEnd_append_cons hfront hend],
    fun ctx => ⟨by rw [Statement.read_payload _ hl], fun htrailing => ?_⟩⟩
  obtain ⟨hampersand, hbreak, hsource⟩ := Group.not_endsStatement_of_trailing htrailing
  rcases hnext with (h | h | h | h) | ⟨h, -⟩
  · exact absurd h hampersand
  · exact absurd h hbreak
  · exact .inr h
  · exact absurd h hsource
  · exact .inl h

/-- A payload in a branch, which an `else` ends. -/
theorem exists_boundary_of_payload_sample :
    ∃ next later, (tokenize "if a then goto b else p c").1.drop 4 = next :: later ∧
      (next.IsBoundary ∨ next.token = .mark .and ∧ next.text = "&&") ∧
      (Lexeme.untilEnd (tokenize "if a then goto b else p c").1).1 =
        (tokenize "if a then goto b else p c").1.take 3 ++
          ⟨.payload .goto "b", "goto b", ⟨1, 11⟩⟩ ::
            (Lexeme.untilEnd ((tokenize "if a then goto b else p c").1.drop 4)).1 ∧
      ∀ ctx : Context, (Statement.read ctx (⟨.payload .goto "b", "goto b", ⟨1, 11⟩⟩ ::
          (Lexeme.untilEnd ((tokenize "if a then goto b else p c").1.drop 4)).1)).taken = 1 ∧
        (Group.trailing ctx
            (Lexeme.untilEnd ((tokenize "if a then goto b else p c").1.drop 4)).1 ≠ [] →
          next.token = .mark .and ∨ next.token = .mark .elseWord) :=
  exists_boundary_of_payload (by decide +kernel) rfl

/-- Two ampersands in a row end a payload, and are no boundary. -/
theorem not_isBoundary_behind_payload :
    ¬∀ (source : String) (front back : List Lexeme) (l : Lexeme) (carrier : Carrier)
      (text : String), (tokenize source).1 = front ++ l :: back →
      l.token = .payload carrier text → ∃ next later, back = next :: later ∧ next.IsBoundary := by
  intro h
  obtain ⟨next, later, hback, hnext⟩ := h "goto a && goto b" []
    [⟨.mark .and, "&&", ⟨1, 8⟩⟩, ⟨.payload .goto "b", "goto b", ⟨1, 11⟩⟩,
      ⟨.mark .sourceEnd, "", ⟨1, 17⟩⟩]
    ⟨.payload .goto "a", "goto a", ⟨1, 1⟩⟩ .goto "a" (by decide +kernel) rfl
  obtain ⟨rfl, -⟩ := List.cons.inj hback
  exact absurd hnext (by decide)

end QuestScript
