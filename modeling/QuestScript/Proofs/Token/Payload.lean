import QuestScript.Proofs.LinkSpan
import QuestScript.Proofs.Text.Letters
import QuestScript.Proofs.Token.Piecewise

/-!
Statements that are a keyword and its payload.

A word ends in front of whatever is no word character (`Text.takeWhile_word`), and a payload keyword
swallows what its payload extends over (`Piece.ofCarrier_gap`). A payload without ampersands and
line feeds that no `else` can end runs to the end of the text (`Payload.extent_of_plain`). So a text
that is a payload keyword, a gap and such a payload is read as one token (`Scan.read_carrier`). The
inventory keywords take the sign behind the word in as well (`Scan.read_inventory`).
-/

namespace QuestScript

open Text

/-! ### Words -/

namespace Text

lemma isAlphabetic_ne {c d : Char} (h : isAlphabetic c = true) (hd : isAlphabetic d = false) :
    c ≠ d := by
  rintro rfl
  simp [h] at hd

lemma isDigit_of_isAlphabetic {c : Char} (h : isAlphabetic c = true) : c.isDigit = false := by
  by_contra hd
  simp only [Bool.not_eq_false, Char.isDigit, Bool.and_eq_true, decide_eq_true_eq, ge_iff_le,
    UInt32.le_iff_toNat_le] at hd
  have hn : c.toNat = c.val.toNat := rfl
  have e : '0'.val.toNat = 48 ∧ '9'.val.toNat = 57 := by decide
  have hlt : c.toNat < 0x80 := by omega
  simp only [isAlphabetic, hlt, if_true, isAlpha_iff] at h
  omega

lemma isWordChar_space : isWordChar ' ' = false := by decide

lemma isWordChar_of_mem_blankRanges :
    ∀ r ∈ blankRanges, ∀ n ∈ List.range' r.1 (r.2 + 1 - r.1),
      isWordChar (Char.ofNat n) = false := by
  decide

lemma isBlank_of_isWordChar {c : Char} (h : isWordChar c = true) : isBlank c = false := by
  by_contra hblank
  obtain ⟨r, hr, hle⟩ : ∃ r ∈ blankRanges, r.1 ≤ c.toNat ∧ c.toNat ≤ r.2 := by
    simpa [isBlank, inRanges] using hblank
  have hmem : c.toNat ∈ List.range' r.1 (r.2 + 1 - r.1) := by
    simp only [List.mem_range'_1]
    omega
  have := isWordChar_of_mem_blankRanges r hr c.toNat hmem
  rw [Char.ofNat_toNat] at this
  simp [this] at h

lemma isAlpha_of_isUpper {c : Char} (h : c.isUpper = true) : c.isAlpha = true :=
  Bool.or_eq_true_iff.mpr (.inl h)

lemma toLower_of_not_isWordChar {c : Char} (h : isWordChar c = false) : c.toLower = c := by
  have hupper : ¬c.isUpper = true := fun hc => by
    have halpha := isAlphabetic_of_isAlpha c (isAlpha_of_isUpper hc)
    simp [isWordChar, halpha] at h
  unfold Char.toLower
  exact dif_neg fun hbounds => hupper (decide_eq_true hbounds)

/-- A letter, and word characters behind it. -/
def IsWord (word : List Char) : Prop :=
  word.head?.any isAlphabetic = true ∧ ∀ c ∈ word, isWordChar c = true

instance (word : List Char) : Decidable (IsWord word) :=
  decidable_of_iff (word.head?.any isAlphabetic = true ∧ word.all isWordChar = true)
    (by rw [IsWord, List.all_eq_true])

lemma isWord_cons {c : Char} {word : List Char} :
    IsWord (c :: word) ↔ isAlphabetic c = true ∧ ∀ d ∈ word, isWordChar d = true := by
  have hletter : isAlphabetic c = true → isWordChar c = true := fun h => by simp [isWordChar, h]
  simp only [IsWord, List.head?_cons, Option.any_some, List.mem_cons, forall_eq_or_imp]
  tauto

lemma takeWhile_word {word back : List Char} (hword : ∀ c ∈ word, isWordChar c = true)
    (hback : ∀ c ∈ back.head?, isWordChar c = false) :
    (word ++ back).takeWhile isWordChar = word := by
  rw [List.takeWhile_append_of_pos hword]
  cases back with
  | nil => simp
  | cons d back => rw [List.takeWhile_cons_of_neg (by simp [hback d rfl]), List.append_nil]

end Text

lemma Keyword.ofWord?_congr {a b : List Char} (h : a.map Char.toLower = b.map Char.toLower) :
    ofWord? a = ofWord? b := by
  rw [ofWord?, ofWord?, lowercase_congr h]

lemma Piece.read_of_isAlphabetic (mode : Mode) {c : Char} (rest : List Char)
    (h : isAlphabetic c = true) : Piece.read mode c rest = Piece.ofWord mode (c :: rest) := by
  have hne : ∀ d, isAlphabetic d = false → c ≠ d := fun d => isAlphabetic_ne h
  have h₁ := hne '\n' (by decide)
  have h₂ := hne ';' (by decide)
  have h₃ := hne '/' (by decide)
  have h₄ := hne '-' (by decide)
  have h₅ := hne ':' (by decide)
  have h₆ := hne '"' (by decide)
  have h₇ := hne '.' (by decide)
  simp [Piece.read, h₁, h₂, h₃, h₄, h₅, h₆, h₇, isDigit_of_isAlphabetic h, h]

/-! ### Payloads -/

lemma isWordChar_of_isGap {c : Char} (h : Payload.isGap c = true) : isWordChar c = false := by
  rcases (by simpa [Payload.isGap] using h : c = ' ' ∨ c = '\t') with rfl | rfl <;> decide

namespace Payload

lemma startsElse_append (cs : List Char) {back : List Char}
    (h : ∀ c ∈ back.head?, isWordChar c = false) : startsElse (cs ++ back) = startsElse cs := by
  rcases back with _ | ⟨d, back⟩
  · rw [List.append_nil]
  have hword : isWordChar d = false := h d rfl
  have hne : ∀ e ∈ ['e', 'l', 's'], d.toLower ≠ e := by
    rw [toLower_of_not_isWordChar hword]
    rintro e he rfl
    have hletters : ∀ e ∈ ['e', 'l', 's'], isWordChar e = true :=
      List.all_eq_true.mp (by decide)
    simp [hletters _ he] at hword
  simp only [List.mem_cons, List.not_mem_nil, or_false, forall_eq_or_imp, forall_eq] at hne
  -- the word may reach over the end of `cs` by up to three letters
  match cs with
  | [] => simp [startsElse, hne]
  | [a] => simp [startsElse, hne]
  | [a, b] => simp [startsElse, hne]
  | [a, b, c] => simp [startsElse, hne]
  | a :: b :: c :: e :: cs =>
    have hnext : (cs ++ d :: back).head?.any isWordChar = cs.head?.any isWordChar := by
      cases cs <;> simp [hword]
    have hstart : startsElse (a :: b :: c :: e :: cs) =
        ([a, b, c, e].map Char.toLower = ['e', 'l', 's', 'e'] && !cs.head?.any isWordChar) := rfl
    rw [hstart, ← hnext]
    rfl

/-- No character of the text ends a payload. -/
def IsPlain (cs : List Char) : Prop := ∀ c ∈ cs, c ≠ '&' ∧ c ≠ '\n'

lemma extent_of_plain {fresh : Bool} {cs : List Char} (h : IsPlain cs) :
    extent false fresh cs = (cs.length, .lineEnd) := by
  fun_induction extent false fresh cs with
  | case1 => rfl
  | case2 => simp [IsPlain] at h
  | case3 => simp [IsPlain] at h
  | case4 fresh c rest _ _ he => simp at he
  | case5 fresh c rest _ _ _ more tail ih =>
    have hm : more ≤ rest.length := LinkSpan.stride_le c rest
    have ht : tail = ((rest.drop more).length, .lineEnd) :=
      ih fun d hd => h d (List.mem_cons_of_mem _ (List.mem_of_mem_drop hd))
    rw [ht, List.length_drop, List.length_cons]
    simp only [Prod.mk.injEq, and_true]
    omega

end Payload

/-! ### A keyword with its payload -/

lemma Piece.ofCarrier_gap (mode : Mode) {carrier : Carrier} (word behind : List Char)
    {extent : Nat × Payload.Stop} (hbutton : carrier ≠ .button)
    (hextent : Payload.extent mode.elseEnds true behind = extent) (gap : Char := ' ')
    (hgap : Payload.isGap gap = true := by decide) :
    ofCarrier mode carrier word.length (word ++ gap :: behind) =
      ⟨word.length + 1 + extent.1,
        some (.payload carrier (String.ofList (Payload.settle extent.2 (behind.take extent.1))),
          word ++ gap :: Payload.settle extent.2 (behind.take extent.1)), none⟩ := by
  have hone : (((word ++ gap :: behind).drop word.length).take 1).filter Payload.isGap =
      [gap] := by
    rw [List.drop_left]
    simp [hgap]
  have hlead : word.length + 1 = (word ++ [gap]).length := by simp
  have happ : word ++ gap :: behind = (word ++ [gap]) ++ behind := by simp
  simp only [ofCarrier, hone, if_neg hbutton, payload, List.length_singleton, hlead]
  rw [happ, List.drop_left, List.take_left, hextent]
  simp only [List.append_assoc, List.singleton_append]

lemma Piece.ofCarrier_plain {mode : Mode} {carrier : Carrier} (word : List Char) {text : List Char}
    (hmode : mode.elseEnds = false) (hbutton : carrier ≠ .button) (htext : Payload.IsPlain text)
    (gap : Char := ' ') (hgap : Payload.isGap gap = true := by decide) :
    ofCarrier mode carrier word.length (word ++ gap :: text) =
      ⟨(word ++ gap :: text).length, some (.payload carrier (String.ofList (dropReturn text)),
        word ++ gap :: dropReturn text), none⟩ := by
  have hextent : Payload.extent mode.elseEnds true text = (text.length, .lineEnd) := by
    rw [hmode, Payload.extent_of_plain htext]
  rw [ofCarrier_gap mode word text hbutton hextent gap hgap]
  simp only [Payload.settle, List.take_length, List.length_append, List.length_cons]
  congr 1
  omega

lemma Scan.not_isPadding {c : Char} (hc : isAlphabetic c = true) : ¬IsPadding c := by
  rintro (rfl | rfl | rfl) <;> exact absurd hc (by decide)

/-- A payload keyword, a gap and a plain payload are read as one token. -/
theorem Scan.read_carrier {carrier : Carrier} {text : List Char} (c : Char) (word : List Char)
    (place : Position) (hc : isAlphabetic c = true) (hword : ∀ d ∈ word, isWordChar d = true)
    (hkey : Keyword.ofWord? (c :: word) = some (.carrier carrier)) (hbutton : carrier ≠ .button)
    (htext : Payload.IsPlain text) (gap : Char := ' ')
    (hgap : Payload.isGap gap = true := by decide) :
    Scan.read .fresh place (c :: word ++ gap :: text) =
      ⟨[⟨.payload carrier (String.ofList (dropReturn text)),
          String.ofList (c :: word ++ gap :: dropReturn text), place⟩,
        ⟨.mark .sourceEnd, "", place.advance (c :: word ++ gap :: text)⟩], []⟩ := by
  have hw : (c :: word ++ gap :: text).takeWhile isWordChar = c :: word :=
    takeWhile_word (isWord_cons.mpr ⟨hc, hword⟩).2 (by simp [isWordChar_of_isGap hgap])
  have hpiece : Piece.ofWord .fresh (c :: word ++ gap :: text) =
      ⟨(c :: word ++ gap :: text).length, some (.payload carrier (String.ofList (dropReturn text)),
        c :: word ++ gap :: dropReturn text), none⟩ := by
    rw [Piece.ofWord, hw]
    simp only [hkey]
    exact Piece.ofCarrier_plain (c :: word) rfl hbutton htext gap hgap
  rw [List.cons_append] at hpiece ⊢
  exact read_whole .fresh place (not_isPadding hc)
    ((Piece.read_of_isAlphabetic _ _ hc).trans hpiece) (by simp)

/-- The keyword of an inventory change. -/
def InventoryChange.keyword (remove : Bool) : List Char :=
  ['i', 'n', 'v', if remove then '-' else '+']

/-- What an inventory change is read as. -/
def InventoryChange.carrier (remove : Bool) : Carrier :=
  if remove then .inventoryRemove else .inventoryAdd

/-- An inventory keyword, a gap and a plain payload are read as one token. -/
theorem Scan.read_inventory (remove : Bool) (place : Position) {text : List Char}
    (htext : Payload.IsPlain text) :
    Scan.read .fresh place (InventoryChange.keyword remove ++ ' ' :: text) =
      ⟨[⟨.payload (InventoryChange.carrier remove) (String.ofList (dropReturn text)),
          String.ofList (InventoryChange.keyword remove ++ ' ' :: dropReturn text), place⟩,
        ⟨.mark .sourceEnd, "",
          place.advance (InventoryChange.keyword remove ++ ' ' :: text)⟩], []⟩ := by
  have hc : isAlphabetic 'i' = true := by decide
  have hkey : Keyword.ofWord? ['i', 'n', 'v'] = some .inventory := by decide
  have hsign : isWordChar (if remove then '-' else '+') = false := by
    cases remove <;> decide
  have hw : (InventoryChange.keyword remove ++ ' ' :: text).takeWhile isWordChar =
      ['i', 'n', 'v'] := by
    have hletters : ∀ d ∈ ['i', 'n', 'v'], isWordChar d = true :=
      List.all_eq_true.mp (by decide)
    exact takeWhile_word hletters (by simpa using hsign)
  have hpiece : Piece.ofWord .fresh (InventoryChange.keyword remove ++ ' ' :: text) =
      Piece.ofCarrier .fresh (InventoryChange.carrier remove)
        (InventoryChange.keyword remove).length
        (InventoryChange.keyword remove ++ ' ' :: text) := by
    rw [Piece.ofWord, hw]
    simp only [hkey]
    cases remove <;> rfl
  rw [Piece.ofCarrier_plain _ rfl (by cases remove <;> decide) htext] at hpiece
  exact read_whole (c := 'i') .fresh place (not_isPadding hc)
    ((Piece.read_of_isAlphabetic _ _ hc).trans hpiece) (by simp)

end QuestScript
