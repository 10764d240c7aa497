import QuestScript.Text.Basic
import QuestScript.Token.Scan

/-!
How far the readers of one piece of source reach.

Every piece covers at least one character and none behind the end of the text (`Piece.fits_read`).
So what reading a text passes over is a cut of that text, and reading always goes on.
-/

namespace QuestScript.Payload

/-- A payload ends within the text. -/
theorem extent_le (elseEnds fresh : Bool) (cs : List Char) :
    (extent elseEnds fresh cs).1 ≤ cs.length := by
  fun_induction extent elseEnds fresh cs with
  | case1 => simp
  | case2 => simp
  | case3 => simp
  | case4 => simp
  | case5 fresh c rest _ _ _ more tail ih =>
    have hm : more ≤ rest.length := by
      cases h : LinkSpan.length? (c :: rest) with
      | none => simp [more, h]
      | some n =>
        have := LinkSpan.length?_le h
        simp only [more, h, Option.getD_some, List.length_cons] at this ⊢
        omega
    simp only [tail, List.length_drop, List.length_cons] at ih ⊢
    omega

/-- The comma that ends the caption of a button is a character of the text. -/
theorem comma?_lt {elseEnds fresh : Bool} {cs : List Char} {n : Nat}
    (h : comma? elseEnds fresh cs = some n) : n < cs.length := by
  fun_induction comma? elseEnds fresh cs generalizing n with
  | case1 => simp at h
  | case2 => simp at h
  | case3 => simp at h; simp [← h]
  | case4 => simp at h
  | case5 =>
    rename_i ih
    obtain ⟨k, hk, rfl⟩ := Option.map_eq_some_iff.1 h
    have := ih hk
    simp only [List.length_drop, List.length_cons] at this ⊢
    omega

/-- The payload of a button ends within the text. -/
theorem buttonExtent_le (elseEnds : Bool) (cs : List Char) :
    (buttonExtent elseEnds cs).1 ≤ cs.length := by
  unfold buttonExtent
  split
  · rename_i n h
    have h₁ := comma?_lt h
    have h₂ := extent_le elseEnds true (cs.drop (n + 1))
    rw [List.length_drop] at h₂
    simp only
    omega
  · exact extent_le _ _ _

end QuestScript.Payload

namespace QuestScript.Numeral

theorem length_digits_le (cs : List Char) : (digits cs).length ≤ cs.length :=
  (List.takeWhile_sublist _).length_le

theorem length_fractionAt_le (cs : List Char) :
    (pointed (fractionAt cs)).length ≤ cs.length := by
  have hp : ∀ ds : List Char, (pointed ds).length ≤ ds.length + 1 := fun ds => by
    unfold pointed
    split <;> simp
  unfold fractionAt
  split
  · split
    · exact Nat.le_trans (hp _) (Nat.succ_le_succ (length_digits_le _))
    · simp [pointed]
  · simp [pointed]

theorem length_exponentAt_le (cs : List Char) :
    (exponentAt cs).1.length + (exponentAt cs).2.length ≤ cs.length := by
  unfold exponentAt
  split
  · rename_i c cs
    split
    · extract_lets sign power
      have h₁ : sign.length ≤ cs.length :=
        Nat.le_trans (List.length_filter_le _ _) (List.length_take_le' 1 cs)
      have h₂ := length_digits_le (cs.drop sign.length)
      rw [List.length_drop] at h₂
      split
      · simp
      · simp only [List.length_cons]
        simp only [power]
        omega
    · simp
  · simp

/-- A literal is no longer than the text it starts. -/
theorem length_text_ofText_le (cs : List Char) : (ofText cs).text.length ≤ cs.length := by
  have h₁ := length_digits_le cs
  have h₂ := length_fractionAt_le (cs.drop (digits cs).length)
  have h₃ := length_exponentAt_le (cs.drop
    ((digits cs).length + (pointed (fractionAt (cs.drop (digits cs).length))).length))
  rw [List.length_drop] at h₂ h₃
  simp only [text, ofText, List.length_append]
  omega

end QuestScript.Numeral

namespace QuestScript.Piece

open Text

/-- What holds of all that can be read at the start of a text holds of what is read there. -/
theorem read_cases {motive : Piece → Prop} {mode : Mode} {c : Char} {rest : List Char}
    (lineBreak : c = '\n' → motive (ofLineBreak (c :: rest)))
    (line : c ≠ '\n' → (c = ';' ∨ mode.lineStart = true ∧ (c = '/' ∨ c = '-') ∧
      rest.head? = some c) → motive (skipped (lineLength (c :: rest))))
    (comment : c = '/' → rest.head? = some '*' → motive (ofComment (c :: rest)))
    (label : c = ':' → motive (ofLabel mode (c :: rest)))
    (string : c = '"' → motive (ofString (c :: rest)))
    (number : (c.isDigit || (c = '.' && rest.head?.any Char.isDigit)) = true →
      motive (ofNumber (c :: rest)))
    (word : isAlphabetic c = true → motive (ofWord mode (c :: rest)))
    (operator : c ≠ '\n' → motive (ofOperator c rest)) : motive (read mode c rest) := by
  unfold read
  simp only
  split
  · exact lineBreak ‹_›
  have hline : c ≠ '\n' := ‹_›
  split
  · exact line hline (.inl ‹_›)
  split
  · next h =>
    simp only [Bool.and_eq_true, decide_eq_true_eq] at h
    exact comment h.1 h.2
  split
  · next h =>
    simp only [Bool.and_eq_true, Bool.or_eq_true, decide_eq_true_eq, and_assoc] at h
    exact line hline (.inr h)
  split
  · next h => exact label (by simpa using (Bool.and_eq_true_iff.1 h).2)
  split
  · exact string ‹_›
  split
  · exact number ‹_›
  split
  · exact word ‹_›
  · exact operator hline

/-- What holds of all that a word can stand for holds of what it stands for. -/
theorem ofWord_cases {motive : Piece → Prop} {mode : Mode} {cs word : List Char}
    (hword : cs.takeWhile isWordChar = word)
    (name : motive (plain (.name (String.ofList word)) word.length cs))
    (mark : ∀ m, Keyword.ofWord? word = some (.mark m) → motive (plain (.mark m) word.length cs))
    (carrier : ∀ carrier, motive (ofCarrier mode carrier word.length cs))
    (signed : ∀ carrier sign, sign ≠ '\n' → (cs.drop word.length).head? = some sign →
      motive (ofCarrier mode carrier (word.length + 1) cs))
    (line : mode.lineStart = true → Keyword.ofWord? word = some .instruction →
      motive (skipped (lineLength cs))) : motive (ofWord mode cs) := by
  subst hword
  unfold ofWord
  simp only
  split
  · exact mark _ ‹_›
  · exact carrier _
  · split
    · split
      · exact signed _ '+' (by decide) ‹_›
      · exact signed _ '-' (by decide) ‹_›
      · exact name
    · exact name
  · split
    · exact line ‹_› ‹_›
    · exact name
  · exact name

theorem length_takeWhile_pos {p : Char → Bool} {c : Char} (h : p c = true)
    (rest : List Char) : 0 < ((c :: rest).takeWhile p).length := by
  simp [h]

/-- What a piece covers is there: it is at least one character, and no more than the text has. -/
def Fits (piece : Piece) (cs : List Char) : Prop := 0 < piece.width ∧ piece.width ≤ cs.length

theorem fits_plain {token : Token} {width : Nat} {cs : List Char} (h₁ : 0 < width)
    (h₂ : width ≤ cs.length) : (plain token width cs).Fits cs := ⟨h₁, h₂⟩

theorem fits_skipped_line {c : Char} (h : c ≠ '\n') (rest : List Char) :
    (skipped (lineLength (c :: rest))).Fits (c :: rest) :=
  ⟨length_takeWhile_pos (by simpa using h) _, (List.takeWhile_sublist _).length_le⟩

theorem fits_ofCarrier (mode : Mode) (carrier : Carrier) {length : Nat} {cs : List Char}
    (h₁ : 0 < length) (h₂ : length ≤ cs.length) : (ofCarrier mode carrier length cs).Fits cs := by
  have hgap : ((cs.drop length).take 1 |>.filter Payload.isGap).length ≤ cs.length - length := by
    refine Nat.le_trans (List.length_filter_le _ _) ?_
    rw [← List.length_drop]
    exact List.length_take_le' 1 _
  have hext := Payload.extent_le mode.elseEnds true
    (cs.drop (length + ((cs.drop length).take 1 |>.filter Payload.isGap).length))
  have hbtn := Payload.buttonExtent_le mode.elseEnds
    (cs.drop (length + ((cs.drop length).take 1 |>.filter Payload.isGap).length))
  rw [List.length_drop] at hext hbtn
  unfold Fits ofCarrier payload
  simp only
  split <;> omega

theorem fits_ofWord (mode : Mode) {c : Char} {rest : List Char} (h : isAlphabetic c = true) :
    (ofWord mode (c :: rest)).Fits (c :: rest) := by
  have hpos : 0 < ((c :: rest).takeWhile isWordChar).length :=
    length_takeWhile_pos (by simp [isWordChar, h]) _
  have hle : ((c :: rest).takeWhile isWordChar).length ≤ (c :: rest).length :=
    (List.takeWhile_sublist _).length_le
  refine ofWord_cases (motive := (Fits · (c :: rest))) rfl ?name ?mark ?carrier ?signed ?line
  case name => exact fits_plain hpos hle
  case mark => exact fun m _ => fits_plain hpos hle
  case carrier => exact fun carrier => fits_ofCarrier mode carrier hpos hle
  case signed =>
    intro carrier sign _ hsign
    have hmore : 0 < ((c :: rest).drop ((c :: rest).takeWhile isWordChar).length).length :=
      List.length_pos_iff.2 fun hnil => by simp [hnil] at hsign
    rw [List.length_drop] at hmore
    exact fits_ofCarrier mode carrier (by omega) (by omega)
  case line => exact fun _ _ => fits_skipped_line (by rintro rfl; simp [isAlphabetic] at h) rest

/-- A comment ends within the text. -/
theorem commentEnd?_le {cs : List Char} {n : Nat} (h : commentEnd? cs = some n) :
    n ≤ cs.length := by
  fun_induction commentEnd? cs generalizing n with
  | case1 => simp at h
  | case2 => simp at h
  | case3 => simp at h; simp [← h]
  | case4 c d cs _ ih =>
    obtain ⟨k, hk, rfl⟩ := Option.map_eq_some_iff.1 h
    exact Nat.succ_le_succ (ih hk)

theorem fits_ofComment {cs : List Char} (h : 2 ≤ cs.length) : (ofComment cs).Fits cs := by
  have hw : 0 < (commentEnd? (cs.drop 2)).elim cs.length (· + 2) ∧
      (commentEnd? (cs.drop 2)).elim cs.length (· + 2) ≤ cs.length := by
    cases hc : commentEnd? (cs.drop 2) with
    | none => simp; omega
    | some n =>
      have := commentEnd?_le hc
      rw [List.length_drop] at this
      simp
      omega
  unfold Fits ofComment
  simp only
  split <;> exact hw

theorem fits_ofLabel (mode : Mode) (c : Char) (rest : List Char) :
    (ofLabel mode (c :: rest)).Fits (c :: rest) := by
  have hgap : (rest.takeWhile fun c => c = ' ' || c = '\t' || c = '\r').length ≤ rest.length :=
    (List.takeWhile_sublist _).length_le
  have hext := Payload.extent_le mode.elseEnds true ((c :: rest).drop
    ((rest.takeWhile fun c => c = ' ' || c = '\t' || c = '\r').length + 1))
  rw [List.length_drop, List.length_cons] at hext
  unfold Fits ofLabel
  simp only [List.tail_cons, List.length_cons]
  omega

theorem fits_ofString (c : Char) (rest : List Char) :
    (ofString (c :: rest)).Fits (c :: rest) := by
  unfold ofString
  split
  · rename_i h
    simp only [List.tail_cons] at h ⊢
    obtain ⟨behind, hb⟩ := eq_takeWhile_append (by simpa using h : '"' ∈ rest)
    have := congrArg List.length hb
    simp only [List.length_append, List.length_cons] at this
    exact fits_plain (by omega) (by simp only [List.length_cons]; omega)
  · exact ⟨Nat.one_pos, by simp [wrong]⟩

/-- An operator of two characters has a second one. -/
theorem operator?_width {c : Char} {next : Option Char} {m : Mark} {width : Nat}
    (h : operator? c next = some (m, width)) : width = 1 ∨ (width = 2 ∧ next.isSome) := by
  unfold operator? at h
  split at h <;> (try split at h) <;> (try split at h) <;> simp_all

theorem fits_ofNumber {c : Char} {rest : List Char}
    (h : (c.isDigit || (c = '.' && rest.head?.any Char.isDigit)) = true) :
    (ofNumber (c :: rest)).Fits (c :: rest) := by
  refine fits_plain ?_ (Numeral.length_text_ofText_le _)
  simp only [Numeral.text, Numeral.ofText, List.length_append]
  by_cases hc : c.isDigit = true
  · have := length_takeWhile_pos hc rest
    simp only [Numeral.digits]
    omega
  · cases rest with
    | nil => simp [hc] at h
    | cons d rest =>
      obtain ⟨rfl, hd⟩ : c = '.' ∧ d.isDigit = true := by simpa [hc] using h
      have hwhole : Numeral.digits ('.' :: d :: rest) = [] := rfl
      have hpointed : 0 < (Numeral.pointed (Numeral.fractionAt ('.' :: d :: rest))).length := by
        simp [Numeral.digits, Numeral.fractionAt, Numeral.pointed, hd]
      simp only [hwhole, List.length_nil, List.drop_zero]
      omega

theorem fits_ofOperator (c : Char) (rest : List Char) :
    (ofOperator c rest).Fits (c :: rest) := by
  unfold ofOperator
  split
  · rename_i m width h
    rcases operator?_width h with rfl | ⟨rfl, hn⟩
    · exact fits_plain Nat.one_pos (by simp)
    · cases rest with
      | nil => simp at hn
      | cons d rest => exact fits_plain Nat.two_pos (by simp)
  · exact ⟨Nat.one_pos, by simp [wrong]⟩

/-- Every piece makes progress and stays within the text. -/
theorem fits_read (mode : Mode) (c : Char) (rest : List Char) :
    (read mode c rest).Fits (c :: rest) := by
  refine read_cases (motive := (Fits · (c :: rest)))
    ?lineBreak ?line ?comment ?label ?string ?number ?word ?operator
  case lineBreak =>
    rintro rfl
    exact fits_plain (length_takeWhile_pos (by simp) _) (List.takeWhile_sublist _).length_le
  case line => exact fun h _ => fits_skipped_line h rest
  case comment =>
    intro _ h
    refine fits_ofComment ?_
    cases rest with
    | nil => simp at h
    | cons d rest => simp
  case label => exact fun _ => fits_ofLabel mode c rest
  case string => exact fun _ => fits_ofString c rest
  case number => exact fits_ofNumber
  case word => exact fits_ofWord mode
  case operator => exact fun _ => fits_ofOperator c rest

end QuestScript.Piece
