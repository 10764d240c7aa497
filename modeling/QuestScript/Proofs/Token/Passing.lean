import QuestScript.Proofs.Token.Layout
import QuestScript.Proofs.Token.Payload

/-!
Tokens on one line, in front of whatever follows them.

A scanner passes a front of the text when it reads known tokens from it, reports nothing, stays on
the line, and goes on with the text behind in a known mode (`Scan.Passes`). Passages are put
together by `Scan.Passes.trans`. Words and names are passed in front of a blank, and a payload that
nothing ends is passed whole in front of an ampersand, of an `else` that the mode waits for, or of
the end of the text (`Scan.passes_carrier`).
-/

namespace QuestScript

open Text

/-! ### Payloads that stand whole -/

namespace Payload

/-- The word `else` stands by itself at the given place: at the start of the text or behind a blank,
in any ASCII case, and not as the start of a longer word. -/
def ElseAt (text : List Char) (n : Nat) : Prop :=
  (n = 0 ∨ ∃ c ∈ text[n - 1]?, c = ' ' ∨ c = '\t') ∧
    ((text.drop n).take 4).map Char.toLower = ['e', 'l', 's', 'e'] ∧
    ∀ c ∈ text[n + 4]?, isWordChar c = false

instance (text : List Char) (n : Nat) : Decidable (ElseAt text n) :=
  decidable_of_iff ((n = 0 ∨ (text[n - 1]?.any fun c => c = ' ' || c = '\t') = true) ∧
      ((text.drop n).take 4).map Char.toLower = ['e', 'l', 's', 'e'] ∧
      (text[n + 4]?.all fun c => !isWordChar c) = true)
    (by simp [ElseAt, Option.any_eq_true, Option.all_eq_true])

/-- The text is one payload wherever it stands: there are no blanks around it, nothing in it ends a
payload, and no link span begins in it. -/
structure IsWhole (text : List Char) : Prop where
  ne_nil : text ≠ []
  trim_eq : trim text = text
  plain : ∀ c ∈ text, c ≠ '&' ∧ c ≠ '\n' ∧ c ≠ '['
  noElse : ∀ n < text.length, ¬ElseAt text n

instance (text : List Char) : Decidable (IsWhole text) :=
  decidable_of_iff (text ≠ [] ∧ trim text = text ∧
      (text.all fun c => c ≠ '&' ∧ c ≠ '\n' ∧ c ≠ '[') = true ∧ ∀ n < text.length, ¬ElseAt text n)
    ⟨fun ⟨hne, htrim, hplain, helse⟩ => ⟨hne, htrim, by simpa using hplain, helse⟩,
      fun h => ⟨h.ne_nil, h.trim_eq, by simpa using h.plain, h.noElse⟩⟩

/-- What may stand behind a payload on its line, and what the payload then ends at. -/
inductive EndsAt (elseEnds : Bool) : List Char → Stop → Prop
  | lineEnd : EndsAt elseEnds [] .lineEnd
  | ampersand (back : List Char) : EndsAt elseEnds (' ' :: '&' :: back) .ampersand
  | elseWord {back : List Char} (hends : elseEnds = true) (hback : startsElse back = true) :
    EndsAt elseEnds (' ' :: back) .elseWord

variable {elseEnds : Bool} {text back : List Char} {stop : Stop}

lemma EndsAt.not_isWordChar (h : EndsAt elseEnds back stop) :
    ∀ c ∈ back.head?, isWordChar c = false := by
  cases h <;> simp [isWordChar_space]

lemma extent_space (fresh : Bool) (cs : List Char) :
    extent elseEnds fresh (' ' :: cs) =
      ((extent elseEnds true cs).1 + 1, (extent elseEnds true cs).2) := by
  have helse : startsElse (' ' :: cs) = false := by simp [startsElse]
  rw [extent, if_neg (by decide), if_neg (by decide), if_neg (by simp [helse])]
  simp [LinkSpan.length?_of_ne, isGap]

lemma EndsAt.extent_eq (h : EndsAt elseEnds back stop) (fresh : Bool) :
    extent elseEnds fresh back = ((back.take 1).length, stop) := by
  cases h with
  | lineEnd => rw [extent]; rfl
  | ampersand back =>
    have hstop : extent elseEnds true ('&' :: back) = (0, .ampersand) := by
      rw [extent, if_neg (by decide), if_pos rfl]
    rw [extent_space, hstop]
    rfl
  | @elseWord back hends hback =>
    have hstop : extent elseEnds true back = (0, .elseWord) := by
      rcases back with _ | ⟨c, back⟩
      · simp [startsElse] at hback
      have hletter : c.toLower = 'e' := by
        simp only [startsElse, List.take_succ_cons, List.map_cons, List.cons.injEq,
          Bool.and_eq_true, decide_eq_true_eq] at hback
        exact hback.1.1
      have hline : c ≠ '\n' := by
        rintro rfl
        exact absurd hletter (by decide)
      have hampersand : c ≠ '&' := by
        rintro rfl
        exact absurd hletter (by decide)
      rw [extent, if_neg hline, if_neg hampersand, if_pos (by simp [hends, hback])]
    rw [extent_space, hstop]
    rfl

/-- Whether an `else` at the given place would stand at the start or behind a gap, where the start
of the text is as told. -/
def freshAt (fresh : Bool) (text : List Char) : Nat → Bool
  | 0 => fresh
  | n + 1 => text[n]?.any isGap

lemma freshAt_cons (fresh : Bool) (c : Char) (text : List Char) (n : Nat) :
    freshAt fresh (c :: text) (n + 1) = freshAt (isGap c) text n := by
  cases n <;> simp [freshAt]

lemma extent_append (elseEnds : Bool) (back : List Char)
    (hplain : ∀ c ∈ text, c ≠ '&' ∧ c ≠ '\n' ∧ c ≠ '[')
    (fresh : Bool) (helse : ∀ n < text.length, freshAt fresh text n = true →
      startsElse (text.drop n ++ back) = false) :
    ∃ later, extent elseEnds fresh (text ++ back) =
      (text.length + (extent elseEnds later back).1, (extent elseEnds later back).2) := by
  induction text generalizing fresh with
  | nil => exact ⟨fresh, by simp⟩
  | cons c text ih =>
    obtain ⟨⟨hampersand, hline, hbracket⟩, htext⟩ := List.forall_mem_cons.mp hplain
    have hhere : ¬(elseEnds && fresh && startsElse (c :: (text ++ back))) = true := by
      have := helse 0 (by simp)
      cases fresh <;> simp_all [freshAt]
    obtain ⟨later, hlater⟩ := ih htext (isGap c) fun n hn hfresh =>
      helse (n + 1) (by simpa using hn) (by rwa [freshAt_cons])
    refine ⟨later, ?_⟩
    rw [List.cons_append, extent, if_neg hline, if_neg hampersand, if_neg hhere]
    simp only [LinkSpan.length?_of_ne _ hbracket, Option.getD_none, Nat.sub_self, List.drop_zero,
      decide_true, Bool.true_and, hlater, List.length_cons, Prod.mk.injEq, and_true]
    omega

namespace IsWhole

variable (h : IsWhole text)

include h

lemma not_startsElse (hback : ∀ c ∈ back.head?, isWordChar c = false) (n : Nat)
    (hn : n < text.length) (hfresh : freshAt true text n = true) :
    startsElse (text.drop n ++ back) = false := by
  rw [startsElse_append _ hback]
  by_contra hstarts
  simp only [startsElse, List.drop_drop, List.head?_drop, Bool.not_eq_false, Bool.and_eq_true,
    decide_eq_true_eq, Bool.not_eq_true'] at hstarts
  refine h.noElse n hn ⟨?_, hstarts.1, fun c hc => ?_⟩
  · cases n with
    | zero => exact .inl rfl
    | succ n =>
      refine .inr ⟨text[n], by simp, ?_⟩
      simpa [freshAt, isGap, List.getElem?_eq_getElem (Nat.lt_of_succ_lt hn)] using hfresh
  · simpa [Option.mem_def.mp hc] using hstarts.2

lemma extent_eq (hback : EndsAt elseEnds back stop) :
    extent elseEnds true (text ++ back) = ((text ++ back.take 1).length, stop) := by
  obtain ⟨later, hlater⟩ := extent_append elseEnds back h.plain true
    (h.not_startsElse hback.not_isWordChar)
  rw [hlater, hback.extent_eq later, List.length_append]

lemma settle_eq (hback : EndsAt elseEnds back stop) :
    settle stop (text ++ back.take 1) = text := by
  have hlast := isBlank_getLast?_of_trim h.trim_eq
  have hgap : ∀ c ∈ text.getLast?, (isGap c || c = '\r') = false := by
    intro c hc
    by_contra hgap
    have hblank : isBlank c = true := by
      simp only [isGap, Bool.not_eq_false, Bool.or_eq_true, decide_eq_true_eq] at hgap
      rcases hgap with (rfl | rfl) | rfl <;> decide
    rw [hlast c hc] at hblank
    exact Bool.noConfusion hblank
  have hspace : dropEndWhile (fun c => isGap c || c = '\r') (text ++ [' ']) = text := by
    rw [dropEndWhile, List.reverse_append, List.reverse_singleton, List.singleton_append,
      List.dropWhile_cons_of_pos (by decide)]
    exact dropEndWhile_eq_self hgap
  cases hback with
  | lineEnd =>
    refine (congrArg dropReturn (List.append_nil text)).trans (dropReturn_eq_self fun hreturn => ?_)
    exact absurd (hlast '\r' hreturn) (by decide)
  | ampersand back => exact hspace
  | elseWord hends hback => exact hspace

end IsWhole

end Payload

/-! ### Passing tokens -/

namespace Scan

/-- From the text in the mode, the tokens are read, all on the line where the text starts, nothing
is reported, and reading goes on behind them in the later mode, still on that line. -/
def Passes (mode : Mode) (cs : List Char) (ts : List Token) (later : Mode) (back : List Char) :
    Prop :=
  ∀ place : Position, ∃ (ls : List Lexeme) (behind : Position),
    ls.map Lexeme.token = ts ∧ (∀ l ∈ ls, l.start.line = place.line) ∧
      behind.line = place.line ∧
      read mode place cs =
        ⟨ls ++ (read later behind back).lexemes, (read later behind back).reports⟩

variable {mode middle later : Mode} {cs inner back : List Char} {ts us : List Token}

namespace Passes

lemma trans (h : Passes mode cs ts middle inner) (h' : Passes middle inner us later back) :
    Passes mode cs (ts ++ us) later back := by
  intro place
  obtain ⟨ls, between, rfl, hlines, hbetween, hread⟩ := h place
  obtain ⟨ms, behind, rfl, hmore, hbehind, hread'⟩ := h' between
  refine ⟨ls ++ ms, behind, List.map_append, ?_, hbehind.trans hbetween, ?_⟩
  · refine List.forall_mem_append.mpr ⟨hlines, fun l hl => ?_⟩
    rw [hmore l hl, hbetween]
  · rw [hread, hread', List.append_assoc]

lemma space (mode : Mode) (back : List Char) : Passes mode (' ' :: back) [] mode back :=
    fun place =>
  ⟨[], place.next ' ', rfl, by simp, rfl, read_padding mode place (.inl rfl)⟩

/-- A token is passed with its piece, unless the piece is more than a part of a line. -/
lemma piece {c : Char} {rest text : List Char} {width : Nat} {token : Token}
    (hc : ¬IsPadding c) (hpiece : Piece.read mode c rest = ⟨width, some (token, text), none⟩)
    (htoken : token ≠ .mark .lineBreak) (hline : '\n' ∉ (c :: rest).take width) :
    Passes mode (c :: rest) [token] (mode.after token) ((c :: rest).drop width) := by
  intro place
  have hkept : kept mode place (Piece.read mode c rest) = [⟨token, String.ofList text, place⟩] := by
    simp [hpiece, kept, keeps, htoken]
  refine ⟨[⟨token, String.ofList text, place⟩], place.advance ((c :: rest).take width), rfl,
    by simp, by simp [Position.advance_of_notMem hline, Position.right], ?_⟩
  rw [read_piece mode place hc, hkept, hpiece]
  rfl

end Passes

/-! ### Words -/

variable {word : List Char}

lemma passes_word (back : List Char) {width : Nat} {token : Token} {text : List Char}
    (hword : IsWord word)
    (hpiece : Piece.ofWord mode (word ++ back) = ⟨width, some (token, text), none⟩)
    (htoken : token ≠ .mark .lineBreak) (hline : '\n' ∉ (word ++ back).take width) :
    Passes mode (word ++ back) [token] (mode.after token) ((word ++ back).drop width) := by
  rcases word with _ | ⟨c, word⟩
  · simp [IsWord] at hword
  obtain ⟨hc, -⟩ := isWord_cons.mp hword
  exact .piece (not_isPadding hc) ((Piece.read_of_isAlphabetic mode _ hc).trans hpiece) htoken hline

lemma passes_plain {token : Token} (back : List Char) (hword : IsWord word)
    (htoken : token ≠ .mark .lineBreak)
    (hpiece : (word ++ ' ' :: back).takeWhile isWordChar = word →
      Piece.ofWord mode (word ++ ' ' :: back) =
        Piece.plain token word.length (word ++ ' ' :: back)) :
    Passes mode (word ++ ' ' :: back) [token] (mode.after token) back := by
  have htake : (word ++ ' ' :: back).takeWhile isWordChar = word :=
    takeWhile_word hword.2 (by simp [isWordChar_space])
  have hline : '\n' ∉ (word ++ ' ' :: back).take word.length := by
    rw [List.take_left]
    exact fun h => absurd (hword.2 '\n' h) (by decide +kernel)
  have hpasses := passes_word (' ' :: back) hword (hpiece htake) htoken hline
  rw [List.drop_left] at hpasses
  exact hpasses.trans (.space _ back)

/-- A keyword that swallows no text is passed together with the blank behind it. -/
theorem passes_mark (mode : Mode) (word back : List Char) {m : Mark} (hword : IsWord word)
    (hkey : Keyword.ofWord? word = some (.mark m)) (hm : m ≠ .lineBreak) :
    Passes mode (word ++ ' ' :: back) [.mark m] (mode.after (.mark m)) back := by
  refine passes_plain back hword (by simpa using hm) fun htake => ?_
  unfold Piece.ofWord
  simp only [htake, hkey]

/-- The word is a name where no statement begins: it is no keyword but those that only begin
statements. -/
def IsName (word : List Char) : Prop :=
  IsWord word ∧ ∀ key, Keyword.ofWord? word = some key → key = .inventory ∨ key = .instruction

/-- A name is passed where no statement begins. -/
theorem passes_name (mode : Mode) (back : List Char) (hname : IsName word)
    (hline : mode.lineStart = false) (hstatement : mode.statementStart = false) :
    Passes mode (word ++ ' ' :: back) [.name (String.ofList word)]
      (mode.after (.name (String.ofList word))) back := by
  refine passes_plain back hname.1 (by simp) fun htake => ?_
  unfold Piece.ofWord
  simp only [htake, hline, hstatement]
  rcases hkey : Keyword.ofWord? word with _ | key
  · rfl
  · rcases hname.2 key hkey with rfl | rfl <;> rfl

/-- An ampersand in front of a blank is passed together with it. -/
theorem passes_ampersand (mode : Mode) (back : List Char) :
    Passes mode ('&' :: ' ' :: back) [.mark .ampersand] (mode.after (.mark .ampersand)) back := by
  have hpiece : Piece.read mode '&' (' ' :: back) = Piece.plain (.mark .ampersand) 1
      ('&' :: ' ' :: back) := by
    have hletter : isAlphabetic '&' = false := by decide +kernel
    simp [Piece.read, Piece.ofOperator, Piece.operator?, hletter]
  have hpasses := Passes.piece (by simp [IsPadding]) hpiece (by simp) (by simp)
  exact hpasses.trans (.space _ back)

/-- A keyword and its whole payload are passed up to what ends the payload. -/
theorem passes_carrier (mode : Mode) (word : List Char) {carrier : Carrier} {text : List Char}
    {stop : Payload.Stop}
    (hword : IsWord word) (hkey : Keyword.ofWord? word = some (.carrier carrier))
    (hbutton : carrier ≠ .button) (htext : Payload.IsWhole text)
    (hback : Payload.EndsAt mode.elseEnds back stop) :
    Passes mode (word ++ ' ' :: (text ++ back)) [.payload carrier (String.ofList text)]
      (mode.after (.payload carrier (String.ofList text))) back.tail := by
  have htake : (word ++ ' ' :: (text ++ back)).takeWhile isWordChar = word :=
    takeWhile_word hword.2 (by simp [isWordChar_space])
  have hfront : text ++ back = (text ++ back.take 1) ++ back.tail := by
    rw [List.append_assoc, ← List.drop_one, List.take_append_drop]
  have hsplit : word ++ ' ' :: (text ++ back) =
      (word ++ ' ' :: (text ++ back.take 1)) ++ back.tail := by
    rw [List.append_assoc, List.cons_append, ← hfront]
  have hwidth : word.length + 1 + (text ++ back.take 1).length =
      (word ++ ' ' :: (text ++ back.take 1)).length := by
    simp only [List.length_append, List.length_cons]
    omega
  have hpiece : Piece.ofWord mode (word ++ ' ' :: (text ++ back)) =
      ⟨(word ++ ' ' :: (text ++ back.take 1)).length,
        some (.payload carrier (String.ofList text), word ++ ' ' :: text), none⟩ := by
    have hgap := Piece.ofCarrier_gap mode word (text ++ back) hbutton (htext.extent_eq hback)
    have hpayload : (text ++ back).take (text ++ back.take 1).length = text ++ back.take 1 := by
      rw [hfront, List.take_left]
    simp only [hwidth, hpayload, htext.settle_eq hback] at hgap
    unfold Piece.ofWord
    simp only [htake, hkey, hgap]
  have hline : '\n' ∉ word ++ ' ' :: (text ++ back.take 1) := by
    intro h
    simp only [List.mem_append, List.mem_cons] at h
    rcases h with h | h | h | h
    · exact absurd (hword.2 '\n' h) (by decide +kernel)
    · exact absurd h (by decide)
    · exact (htext.plain '\n' h).2.1 rfl
    · cases hback <;> simp at h
  have hpasses := passes_word (' ' :: (text ++ back)) hword hpiece (by simp)
    (by rw [hsplit, List.take_left]; exact hline)
  rwa [hsplit, List.drop_left, ← hsplit] at hpasses

/-! ### Names -/

lemma name_of_ofWord {text : List Char} {value : String}
    (h : (Piece.ofWord mode cs).token = some (.name value, text)) :
    String.ofList (cs.takeWhile isWordChar) = value ∧
      ∀ key, Keyword.ofWord? (cs.takeWhile isWordChar) = some key →
        key = .inventory ∨ key = .instruction := by
  have hplain (h : (Piece.plain (.name (String.ofList (cs.takeWhile isWordChar)))
      (cs.takeWhile isWordChar).length cs).token = some (.name value, text)) :
      String.ofList (cs.takeWhile isWordChar) = value := by
    simp only [Piece.plain, Option.some.injEq, Prod.mk.injEq, Token.name.injEq] at h
    exact h.1
  unfold Piece.ofWord at h
  simp only at h
  split at h
  · simp [Piece.plain] at h
  · simp [Piece.ofCarrier, Piece.payload] at h
  · next hkey =>
    refine ⟨?_, fun key hkey' => .inl (by simpa [hkey] using hkey'.symm)⟩
    split at h
    · split at h
      · simp [Piece.ofCarrier, Piece.payload] at h
      · simp [Piece.ofCarrier, Piece.payload] at h
      · exact hplain h
    · exact hplain h
  · next hkey =>
    refine ⟨?_, fun key hkey' => .inr (by simpa [hkey] using hkey'.symm)⟩
    split at h
    · simp [Piece.skipped] at h
    · exact hplain h
  · next hkey => exact ⟨hplain h, fun key hkey' => by simp [hkey] at hkey'⟩

lemma isName_of_piece {c : Char} {rest text : List Char} {value : String}
    (h : (Piece.read mode c rest).token = some (.name value, text)) : IsName value.toList := by
  revert h
  refine Piece.read_cases (motive := fun piece => piece.token = some (.name value, text) →
    IsName value.toList) ?lineBreak ?line ?comment ?label ?string ?number ?word ?operator
  case lineBreak => simp [Piece.ofLineBreak, Piece.plain]
  case line => simp [Piece.skipped]
  case comment =>
    intro _ _
    unfold Piece.ofComment
    simp only
    split <;> simp [Piece.plain, Piece.skipped]
  case label => simp [Piece.ofLabel]
  case string =>
    intro _
    unfold Piece.ofString
    split <;> simp [Piece.plain, Piece.wrong]
  case number => simp [Piece.ofNumber, Piece.plain]
  case operator =>
    intro _
    unfold Piece.ofOperator
    split <;> simp [Piece.plain, Piece.wrong]
  case word =>
    intro hc h
    obtain ⟨rfl, hkey⟩ := name_of_ofWord h
    have hletter : isWordChar c = true := by simp [isWordChar, hc]
    rw [List.takeWhile_cons_of_pos hletter] at hkey ⊢
    rw [String.toList_ofList]
    exact ⟨isWord_cons.mpr ⟨hc, List.all_eq_true.mp List.all_takeWhile⟩, hkey⟩

/-- The names among the tokens of a text are names. -/
theorem isName_of_mem_lexemes {place : Position} {l : Lexeme} {value : String}
    (h : l ∈ (read mode place cs).lexemes) (hl : l.token = .name value) :
    IsName value.toList := by
  obtain ⟨inner, c, rest, text, -, htoken, -⟩ := exists_piece_of_mem h (by simp [hl])
  exact isName_of_piece (hl ▸ htoken)

end Scan

end QuestScript
