import QuestScript.Proofs.Token.Trailing

/-!
Texts where a line begins, and the same texts in the middle of a line.

Some texts are read otherwise where a line begins: two slashes or two minus signs start a remark
there, a colon a label, the word `instr` a directive, and `inv` with a sign behind it an inventory
statement. What a text has behind the padding and comments at its start decides. A text that opens
no line is read in both places alike (`Scan.read_fresh`); from one that does, a payload is read
first where a line begins, or no token at all (`Scan.head?_of_opensLine`).
-/

namespace QuestScript

open Text

/-- The mode behind the first token of a line, while no `if` is open. -/
def Mode.inside : Mode := ⟨false, false, 0⟩

/-- Whether the text is read otherwise where a line begins than in the middle of one. -/
def opensLine : List Char → Bool
  | [] => false
  | c :: rest =>
    let word := (c :: rest).takeWhile isWordChar
    ((c = '/' || c = '-') && rest.head? = some c) || c = ':' ||
      (isAlphabetic c && match Keyword.ofWord? word with
        | some .instruction => true
        | some .inventory =>
          ((c :: rest).drop word.length).head?.any fun sign => sign = '+' || sign = '-'
        | _ => false)

/-- The text behind the padding and the comments at its start. -/
def opening (cs : List Char) : List Char :=
  match cs with
  | [] => []
  | c :: rest =>
    if c = ' ' || c = '\t' || c = '\r' then opening rest
    else if c = '/' && rest.head? = some '*' then
      opening (rest.drop ((Piece.ofComment (c :: rest)).width - 1))
    else c :: rest
termination_by cs.length

variable {c : Char} {rest cs : List Char}

/-! ### Pieces -/

namespace Piece

lemma read_comment (mode : Mode) (hc : c = '/') (hstar : rest.head? = some '*') :
    read mode c rest = ofComment (c :: rest) := by
  subst hc
  simp [read, hstar]

lemma token_ofComment_of_notMem (h : '\n' ∉ cs) : (ofComment cs).token = none := by
  unfold ofComment
  simp only
  split
  · next hmem => exact absurd (List.mem_of_mem_take (List.contains_iff_mem.mp hmem)) h
  · rfl

lemma eq_skipped_of_read {mode : Mode} :
    (read mode c rest).token = none → (read mode c rest).fault = none →
      ¬(c = '/' ∧ rest.head? = some '*') →
      read mode c rest = skipped (lineLength (c :: rest)) := by
  refine read_cases (motive := fun piece => piece.token = none → piece.fault = none →
    ¬(c = '/' ∧ rest.head? = some '*') → piece = skipped (lineLength (c :: rest)))
    ?lineBreak ?line ?comment ?label ?string ?number ?word ?operator
  case lineBreak => simp [ofLineBreak, plain]
  case line => exact fun _ _ _ _ _ => rfl
  case comment => exact fun hc hstar _ _ hcomment => absurd ⟨hc, hstar⟩ hcomment
  case label => simp [ofLabel]
  case string =>
    intro _
    unfold ofString
    split <;> simp [plain, wrong]
  case number => simp [ofNumber, plain]
  case word =>
    intro _
    refine ofWord_cases (motive := fun piece => piece.token = none → piece.fault = none →
      ¬(c = '/' ∧ rest.head? = some '*') → piece = skipped (lineLength (c :: rest))) rfl
      ?name ?mark ?carrier ?signed ?line
    case line => exact fun _ _ _ _ _ => rfl
    all_goals simp [plain, ofCarrier, payload]
  case operator =>
    intro _
    unfold ofOperator
    split <;> simp [plain, wrong]

lemma ofWord_fresh (hc : isAlphabetic c = true) (h : opensLine (c :: rest) = false) :
    ofWord .fresh (c :: rest) = ofWord .inside (c :: rest) := by
  simp only [opensLine, hc, Bool.true_and, Bool.or_eq_false_iff] at h
  unfold ofWord
  simp only
  split
  · rfl
  · rfl
  · next hword =>
    have hsign := h.2
    simp only [hword] at hsign
    rcases hhead : ((c :: rest).drop ((c :: rest).takeWhile isWordChar).length).head? with _ | sign
    · simp [Mode.fresh, Mode.inside]
    · simp only [hhead, Option.any_some, Bool.or_eq_false_iff, decide_eq_false_iff_not] at hsign
      simp only [Mode.fresh, Mode.inside, if_true, Bool.false_eq_true, if_false]
      split <;> simp_all
  · next hword => simp [hword] at h
  · rfl

lemma read_fresh (h : opensLine (c :: rest) = false) :
    read .fresh c rest = read .inside c rest := by
  have hword (hc : isAlphabetic c = true) := ofWord_fresh hc h
  have hfresh : Mode.fresh.lineStart = true := rfl
  have hinside : Mode.inside.lineStart = false := rfl
  have hmarks := h
  simp only [opensLine, Bool.or_eq_false_iff] at hmarks
  obtain ⟨⟨hdouble, hcolon⟩, -⟩ := hmarks
  unfold read
  simp +contextual only [hfresh, hinside, hdouble, hcolon, hword, Bool.true_and, Bool.false_and,
    Bool.false_eq_true, if_false]

lemma read_of_opensLine (h : opensLine (c :: rest) = true) :
    read .fresh c rest = skipped (lineLength (c :: rest)) ∨
      ∃ carrier text lexeme, (read .fresh c rest).token = some (.payload carrier text, lexeme) := by
  simp only [opensLine, Bool.or_eq_true, Bool.and_eq_true, decide_eq_true_eq] at h
  rcases h with (⟨hmark, hnext⟩ | rfl) | ⟨hc, hword⟩
  · -- a remark to the end of the line
    refine .inl ?_
    rcases hmark with rfl | rfl <;> simp [read, hnext, Mode.fresh]
  · exact .inr ⟨.label, _, _, rfl⟩
  · -- a word that starts a statement with a payload, or `rem`
    rw [read_of_isAlphabetic _ _ hc]
    unfold ofWord
    simp only
    split
    · next hkey => simp [hkey] at hword
    · next hkey => simp [hkey] at hword
    · next hkey =>
      simp only [hkey, Option.any_eq_true, Bool.or_eq_true, decide_eq_true_eq] at hword
      obtain ⟨sign, hsign, rfl | rfl⟩ := hword
      all_goals
        simp only [hsign, Mode.fresh, if_true]
        exact .inr ⟨_, _, _, rfl⟩
    · exact .inl rfl
    · next hkey => simp [hkey] at hword

end Piece

/-! ### Texts -/

namespace Scan

lemma read_comment (mode : Mode) (place : Position) (hc : c = '/') (hstar : rest.head? = some '*')
    (hline : '\n' ∉ c :: rest) :
    let width := (Piece.ofComment (c :: rest)).width
    let behind := read mode (place.advance ((c :: rest).take width)) (rest.drop (width - 1))
    read mode place (c :: rest) =
      ⟨behind.lexemes, made place (Piece.ofComment (c :: rest)) ++ behind.reports⟩ := by
  have hpadding : ¬IsPadding c := by simp [IsPadding, hc]
  have hpiece := Piece.read_comment mode hc hstar
  have htoken := Piece.token_ofComment_of_notMem hline
  obtain ⟨hpos, -⟩ := Piece.fits_read mode c rest
  rw [hpiece] at hpos
  obtain ⟨n, hn⟩ := Nat.exists_eq_succ_of_ne_zero (Nat.ne_of_gt hpos)
  rw [read_piece mode place hpadding, hpiece]
  simp only [kept, modeBehind, htoken, Option.elim_none, List.nil_append, hn, Nat.succ_eq_add_one,
    List.drop_succ_cons, Nat.add_sub_cancel]

lemma isPadding_iff : IsPadding c ↔ (c = ' ' || c = '\t' || c = '\r') = true := by
  simp [IsPadding, or_assoc]

lemma read_skipped (mode : Mode) (place : Position) (hc : ¬IsPadding c) (hline : '\n' ∉ c :: rest)
    (h : Piece.read mode c rest = Piece.skipped (Piece.lineLength (c :: rest))) :
    read mode place (c :: rest) = ⟨[⟨.mark .sourceEnd, "", place.advance (c :: rest)⟩], []⟩ := by
  rw [read_piece mode place hc, h]
  simp [Piece.skipped, Piece.lineLength_of_notMem hline, kept, made, read_nil]

/-- **A text that opens no line** and has nothing wrong with it in the middle of a line is read the
same where a line begins. -/
theorem read_fresh (place : Position) (hline : '\n' ∉ cs)
    (hclean : (read .inside place cs).reports = []) (h : opensLine (opening cs) = false) :
    read .fresh place cs = read .inside place cs := by
  fun_induction opening cs generalizing place with
  | case1 => rw [read_nil, read_nil]
  | case2 c rest hc ih =>
    have hpadding := isPadding_iff.mpr hc
    rw [read_padding _ _ hpadding] at hclean ⊢
    rw [read_padding _ _ hpadding]
    exact ih _ (fun hmem => hline (List.mem_cons_of_mem c hmem)) hclean h
  | case3 c rest _ hc ih =>
    simp only [Bool.and_eq_true, decide_eq_true_eq] at hc
    obtain ⟨hc, hstar⟩ := hc
    rw [read_comment _ place hc hstar hline] at hclean ⊢
    rw [read_comment _ place hc hstar hline]
    have hbehind := ih _ (fun hmem => hline (List.mem_cons_of_mem c (List.mem_of_mem_drop hmem)))
      (List.append_eq_nil_iff.mp hclean).2 h
    rw [hbehind]
  | case4 c rest hc hcomment =>
    have hpadding : ¬IsPadding c := fun hpad => hc (isPadding_iff.mp hpad)
    have hpiece := Piece.read_fresh h
    rcases htoken : (Piece.read .inside c rest).token with _ | ⟨token, text⟩
    · -- Behind a remark nothing is left, and a wrong character would have been reported.
      rw [read_piece _ _ hpadding] at hclean
      have hfault : (Piece.read .inside c rest).fault = none := by
        simpa [made] using (List.append_eq_nil_iff.mp hclean).1
      have hskipped := Piece.eq_skipped_of_read htoken hfault
        (by simpa using hcomment)
      rw [read_skipped _ _ hpadding hline hskipped,
        read_skipped _ _ hpadding hline (hpiece.trans hskipped)]
    · have hbreak : token ≠ .mark .lineBreak := fun hbreak =>
        hline (List.mem_of_mem_take ((Piece.end_of_read .inside c rest _ htoken).2 hbreak))
      have hafter : Mode.fresh.after token = Mode.inside.after token := by
        unfold Mode.after
        split <;> simp_all [Mode.fresh, Mode.inside]
      rw [read_piece _ _ hpadding, read_piece _ _ hpadding, hpiece]
      simp only [kept, modeBehind, htoken, Option.elim_some, keeps, hbreak, hafter, decide_false,
        Bool.and_false]

/-- **A text that opens a line** is read there as a payload first, or has no tokens at all. -/
theorem head?_of_opensLine (place : Position) (hline : '\n' ∉ cs)
    (h : opensLine (opening cs) = true) : ∀ l ∈ (read .fresh place cs).lexemes.head?,
      l.token = .mark .sourceEnd ∨ ∃ carrier text, l.token = .payload carrier text := by
  fun_induction opening cs generalizing place with
  | case1 => simp [opensLine] at h
  | case2 c rest hc ih =>
    rw [read_padding _ _ (isPadding_iff.mpr hc)]
    exact ih _ (fun hmem => hline (List.mem_cons_of_mem c hmem)) h
  | case3 c rest _ hc ih =>
    simp only [Bool.and_eq_true, decide_eq_true_eq] at hc
    rw [read_comment _ place hc.1 hc.2 hline]
    exact ih _ (fun hmem => hline (List.mem_cons_of_mem c (List.mem_of_mem_drop hmem))) h
  | case4 c rest hc _ =>
    have hpadding : ¬IsPadding c := fun hpad => hc (isPadding_iff.mp hpad)
    rcases Piece.read_of_opensLine h with hskipped | ⟨carrier, text, lexeme, htoken⟩
    · simp [read_skipped _ _ hpadding hline hskipped]
    · rw [read_piece _ _ hpadding]
      simp [kept, htoken, keeps]

end Scan

end QuestScript
