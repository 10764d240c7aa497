import QuestScript.Proofs.Token.Payload
import QuestScript.Proofs.Token.Standing

/-!
What a blank behind a text changes.

The blank is the last character of the text, or it is a line feed and more lines follow
(`Text.Ends`). Either way it ends words, numbers and operators as the end of the text does. Only
what runs to the end of the line takes the blank as well, if it is no line feed: payloads, and what
is passed over (`Piece.grows_read`). A carriage return is no part of a payload even then.
-/

namespace QuestScript

open Text
open List (drop_append_of_le_length take_append_of_le_length)

variable {b c : Char} {cs rest behind : List Char}

namespace Text

lemma ne_of_isBlank (hb : isBlank b = true) (hc : isBlank c = false) : b ≠ c := by
  rintro rfl
  simp [hb] at hc

lemma isWordChar_of_isBlank (hb : isBlank b = true) : isWordChar b = false := by
  by_contra h
  simp [isBlank_of_isWordChar (by simpa using h)] at hb

lemma isWordChar_of_isDigit (h : c.isDigit = true) : isWordChar c = true := by
  have hascii : c.toNat < 0x80 := by
    simp only [Char.isDigit, Bool.and_eq_true, decide_eq_true_eq, ge_iff_le,
      UInt32.le_iff_toNat_le] at h
    have hn : c.toNat = c.val.toNat := rfl
    have e : '9'.val.toNat = 57 := by decide
    omega
  simp [isWordChar, isNumeric, hascii, h]

lemma isDigit_of_isBlank (hb : isBlank b = true) : b.isDigit = false := by
  by_contra h
  simp [isBlank_of_isWordChar (isWordChar_of_isDigit (by simpa using h))] at hb

/-- A blank that ends what stands in front of it: the last character of the text, or a line feed
with anything behind it. -/
structure Ends (b : Char) (behind : List Char) : Prop where
  isBlank : isBlank b = true
  last : b = '\n' ∨ behind = []

lemma ends_lineFeed (behind : List Char) : Ends '\n' behind := ⟨by decide, .inl rfl⟩

lemma ends_of_isBlank (hb : isBlank b = true) : Ends b [] := ⟨hb, .inr rfl⟩

lemma Ends.ne (h : Ends b behind) (hc : Text.isBlank c = false) : b ≠ c :=
  ne_of_isBlank h.isBlank hc

lemma takeWhile_append_cons {p : Char → Bool} (hp : p b = false) (cs : List Char) :
    (cs ++ b :: behind).takeWhile p = cs.takeWhile p := by
  induction cs with
  | nil => simp [hp]
  | cons c cs ih => by_cases hc : p c = true <;> simp [hc, ih]

lemma takeWhile_append_of_mem {p : Char → Bool} (h : ∃ c ∈ cs, p c = false) :
    (cs ++ behind).takeWhile p = cs.takeWhile p := by
  obtain ⟨c, hc, hp⟩ := h
  obtain ⟨front, back, rfl⟩ := List.append_of_mem hc
  rw [List.append_assoc, List.cons_append, takeWhile_append_cons hp, takeWhile_append_cons hp]

lemma any_head?_append_cons {p : Char → Bool} (hp : p b = false) :
    (cs ++ b :: behind).head?.any p = cs.head?.any p := by
  cases cs <;> simp [hp]

lemma head?_append_cons (hc : b ≠ c) : (cs ++ b :: behind).head? = some c ↔ cs.head? = some c := by
  cases cs <;> simp [hc]

end Text

section

variable (h : Ends b behind)

include h

/-! ### Payloads -/

namespace LinkSpan

lemma upToClosing?_ends (cs : List Char) : upToClosing? (cs ++ b :: behind) = upToClosing? cs := by
  have hclosing : b ≠ ']' := h.ne (by decide)
  have hnone : upToClosing? (b :: behind) = none := by
    rcases h.last with rfl | rfl
    · cases behind <;> simp [upToClosing?]
    · rfl
  fun_induction upToClosing? cs with
  | case1 => exact hnone
  | case2 c => simp [upToClosing?, hclosing, hnone]
  | case3 d cs => simp [upToClosing?]
  | case4 c d cs hn hc => simp [upToClosing?, hn, hc]
  | case5 c d cs hn hc ih =>
    rw [List.cons_append, List.cons_append, upToClosing?, if_neg hn, if_neg hc, ← ih,
      List.cons_append]

lemma length?_ends (cs : List Char) : length? (cs ++ b :: behind) = length? cs := by
  have hopening : b ≠ '[' := h.ne (by decide)
  have hinner : inner? (cs ++ b :: behind) = inner? cs := by
    match cs with
    | [] => rcases behind with _ | ⟨d, _ | ⟨e, behind⟩⟩ <;> simp [inner?, hopening]
    | [a] => rcases behind with _ | ⟨d, behind⟩ <;> simp [inner?, hopening]
    | [a, c] => rcases h.last with rfl | rfl <;> simp [inner?, upToClosing?]
    | a :: c :: d :: cs => simp [inner?, upToClosing?_ends h cs]
  rw [length?, length?, hinner]

end LinkSpan

namespace Payload

omit h in
/-- The extents of payloads without and with a blank behind a text of the given length. They are the
same, unless the payload runs to the end of the text and the blank is no line feed. -/
def Grows (b : Char) (n : Nat) (extent extent' : Nat × Stop) : Prop :=
  (b ≠ '\n' ∧ extent = (n, .lineEnd) ∧ extent' = (n + 1, .lineEnd)) ∨ extent' = extent

omit h in
lemma Grows.add {n k : Nat} {extent extent' : Nat × Stop} (h : Grows b n extent extent') :
    Grows b (n + k) (extent.1 + k, extent.2) (extent'.1 + k, extent'.2) := by
  rcases h with ⟨hb, rfl, rfl⟩ | rfl
  · exact .inl ⟨hb, rfl, by simp only [Prod.mk.injEq, and_true]; omega⟩
  · exact .inr rfl

lemma startsElse_ends (cs : List Char) : startsElse (cs ++ b :: behind) = startsElse cs :=
  startsElse_append cs fun c hc => by
    obtain rfl := Option.some.inj hc
    exact isWordChar_of_isBlank h.isBlank

lemma grows_extent (elseEnds fresh : Bool) (cs : List Char) :
    Grows b cs.length (extent elseEnds fresh cs) (extent elseEnds fresh (cs ++ b :: behind)) := by
  induction hn : cs.length using Nat.strongRecOn generalizing fresh cs with
  | ind n ih =>
  subst hn
  have hlength := LinkSpan.length?_ends h cs
  have helse := startsElse_ends h cs
  rcases cs with _ | ⟨c, rest⟩
  · -- Nothing but the blank is left. A line feed ends the payload, any other blank belongs to it.
    by_cases hline : b = '\n'
    · refine .inr ?_
      rw [List.nil_append, extent, extent, if_pos hline]
    · obtain rfl := h.last.resolve_left hline
      have hamp : b ≠ '&' := h.ne (by decide)
      have helse' : startsElse [b] = false := helse
      have hnone : LinkSpan.length? [b] = none := hlength
      refine .inl ⟨hline, by rw [extent]; rfl, ?_⟩
      rw [List.nil_append, extent, if_neg hline, if_neg hamp]
      simp [helse', hnone, extent]
  rw [List.cons_append] at hlength helse ⊢
  have hmore : (LinkSpan.length? (c :: rest)).getD 1 - 1 ≤ rest.length := LinkSpan.stride_le c rest
  rw [extent, extent, hlength, helse]
  split
  · exact .inr rfl
  split
  · exact .inr rfl
  split
  · exact .inr rfl
  have hshorter : (rest.drop ((LinkSpan.length? (c :: rest)).getD 1 - 1)).length <
      (c :: rest).length := by
    rw [List.length_drop, List.length_cons]
    omega
  have hgrows := ih _ hshorter (((LinkSpan.length? (c :: rest)).getD 1 - 1 = 0) && isGap c) _ rfl
  rw [← drop_append_of_le_length hmore, List.length_drop] at hgrows
  have hwhole := hgrows.add (k := (LinkSpan.length? (c :: rest)).getD 1 - 1 + 1)
  rwa [show rest.length - ((LinkSpan.length? (c :: rest)).getD 1 - 1) +
    ((LinkSpan.length? (c :: rest)).getD 1 - 1 + 1) = (c :: rest).length by
      rw [List.length_cons]
      omega] at hwhole

lemma comma?_ends (elseEnds fresh : Bool) (cs : List Char) :
    comma? elseEnds fresh (cs ++ b :: behind) = comma? elseEnds fresh cs := by
  induction hn : cs.length using Nat.strongRecOn generalizing fresh cs with
  | ind n ih =>
  have hlength := LinkSpan.length?_ends h cs
  have helse := startsElse_ends h cs
  rcases cs with _ | ⟨c, rest⟩
  · by_cases hline : b = '\n'
    · rw [List.nil_append, comma?, comma?, if_pos hline]
    · obtain rfl := h.last.resolve_left hline
      have hcomma : b ≠ ',' := h.ne (by decide)
      have helse' : startsElse [b] = false := helse
      have hnone : LinkSpan.length? [b] = none := hlength
      simp [comma?, hline, hcomma, helse', hnone]
  rw [List.cons_append] at hlength helse ⊢
  have hmore : (LinkSpan.length? (c :: rest)).getD 1 - 1 ≤ rest.length := LinkSpan.stride_le c rest
  have hshorter : (rest.drop ((LinkSpan.length? (c :: rest)).getD 1 - 1)).length < n := by
    simp only [List.length_drop, List.length_cons] at hn ⊢
    omega
  rw [comma?, comma?, hlength, helse]
  simp only [drop_append_of_le_length hmore, ih _ hshorter _ _ rfl]

lemma grows_buttonExtent (elseEnds : Bool) (cs : List Char) :
    Grows b cs.length (buttonExtent elseEnds cs) (buttonExtent elseEnds (cs ++ b :: behind)) := by
  unfold buttonExtent
  rw [comma?_ends h]
  split
  · next n hcomma =>
    have hlt := comma?_lt hcomma
    have hgrows := (grows_extent h elseEnds true (cs.drop (n + 1))).add (k := n + 1)
    rw [← drop_append_of_le_length hlt, List.length_drop,
      show cs.length - (n + 1) + (n + 1) = cs.length by omega] at hgrows
    exact hgrows
  · exact grows_extent h elseEnds true cs

end Payload

/-! ### Numbers -/

namespace Numeral

lemma digits_ends (cs : List Char) : digits (cs ++ b :: behind) = digits cs :=
  takeWhile_append_cons (isDigit_of_isBlank h.isBlank) cs

lemma fractionAt_ends (cs : List Char) : fractionAt (cs ++ b :: behind) = fractionAt cs := by
  have hpoint : b ≠ '.' := h.ne (by decide)
  cases cs with
  | nil => simp [fractionAt, hpoint]
  | cons c cs => simp only [List.cons_append, fractionAt, digits_ends h]

lemma exponentAt_ends (cs : List Char) : exponentAt (cs ++ b :: behind) = exponentAt cs := by
  have hne {d : Char} (hd : Text.isBlank d = false) : b ≠ d := h.ne hd
  cases cs with
  | nil => simp [exponentAt, hne (d := 'e') (by decide), hne (d := 'E') (by decide)]
  | cons c cs =>
    have hsign : ((cs ++ b :: behind).take 1).filter (fun d => d = '+' || d = '-') =
        (cs.take 1).filter fun d => d = '+' || d = '-' := by
      cases cs <;> simp [hne (d := '+') (by decide), hne (d := '-') (by decide)]
    have hlen : ((cs.take 1).filter fun d => d = '+' || d = '-').length ≤ cs.length :=
      Nat.le_trans (List.length_filter_le _ _) (List.length_take_le' 1 cs)
    simp only [List.cons_append, exponentAt, hsign, drop_append_of_le_length hlen, digits_ends h]

lemma ofText_ends (cs : List Char) : ofText (cs ++ b :: behind) = ofText cs := by
  have hwhole := length_digits_le cs
  have hfraction := length_fractionAt_le (cs.drop (digits cs).length)
  rw [List.length_drop] at hfraction
  have hlen : (digits cs).length + (pointed (fractionAt (cs.drop (digits cs).length))).length ≤
      cs.length := by omega
  simp only [ofText, digits_ends h, drop_append_of_le_length hwhole, fractionAt_ends h,
    drop_append_of_le_length hlen, exponentAt_ends h]

end Numeral

end

/-! ### Pieces -/

namespace Piece

/-- The tokens of two pieces that run to the end of their texts, of which the first has the given
length and the other has a blank behind it. They are the same where they have to be, up to the
blanks in front of the empty name of a label. -/
inductive Continues (same : Prop) (n : Nat) :
    Option (Token × List Char) → Option (Token × List Char) → Prop
  | nothing : Continues same n none none
  | payload {carrier : Carrier} {text text' : String} {lexeme lexeme' : List Char}
      (h : same → text' = text ∧ (lexeme'.length = lexeme.length ∨
        (carrier = .label ∧ text = "") ∧ lexeme.length = n ∧ lexeme'.length = n + 1)) :
      Continues same n (some (.payload carrier text, lexeme))
        (some (.payload carrier text', lexeme'))

/-- Two pieces that run to the end of their texts, of which the second has a blank behind it. -/
structure GrowsAt (same : Prop) (n : Nat) (piece piece' : Piece) : Prop where
  width : piece.width = n
  width' : piece'.width = n + 1
  fault : piece'.fault = piece.fault
  token : Continues same n piece.token piece'.token

/-- The pieces at the start of a text of the given length without and with a blank behind it. -/
def Grows (b : Char) (same : Prop) (n : Nat) (piece piece' : Piece) : Prop :=
  (b ≠ '\n' ∧ GrowsAt same n piece piece') ∨ piece' = piece

/-- The blank is a carriage return, and the text has no other one. -/
abbrev IsReturn (b : Char) (cs : List Char) : Prop := b = '\r' ∧ '\r' ∉ cs

/-- The piece is not ended before its end is found. -/
def IsTerminated (piece : Piece) : Prop :=
  piece.fault ≠ some .unterminatedString ∧ piece.fault ≠ some .unterminatedComment

variable {mode : Mode} {same : Prop}

lemma growsAt_skipped (n : Nat) : GrowsAt same n (skipped n) (skipped (n + 1)) :=
  ⟨rfl, rfl, rfl, .nothing⟩

lemma plain_append {width : Nat} (token : Token) (h : width ≤ cs.length) :
    plain token width (cs ++ behind) = plain token width cs := by
  rw [plain, plain, take_append_of_le_length h]

lemma lineLength_of_notMem (h : '\n' ∉ cs) : lineLength cs = cs.length := by
  rw [lineLength, List.takeWhile_eq_self_iff.mpr]
  intro c hc
  simpa using fun heq : c = '\n' => h (heq ▸ hc)

lemma settle_return (h : '\r' ∉ cs) :
    Payload.settle .lineEnd (cs ++ ['\r']) = Payload.settle .lineEnd cs := by
  have hlast : cs.getLast? ≠ some '\r' := fun hlast => h (List.mem_of_getLast? hlast)
  simp [Payload.settle, dropReturn, hlast]

lemma commentEnd?_append {n : Nat} (h : commentEnd? cs = some n) :
    commentEnd? (cs ++ behind) = some n := by
  fun_induction commentEnd? cs generalizing n with
  | case1 => simp at h
  | case2 => simp at h
  | case3 c d cs hc => rwa [List.cons_append, List.cons_append, commentEnd?, if_pos hc]
  | case4 c d cs hc ih =>
    obtain ⟨k, hk, rfl⟩ := Option.map_eq_some_iff.mp h
    rw [List.cons_append, List.cons_append, commentEnd?, if_neg hc]
    rw [List.cons_append] at ih
    rw [ih hk, Option.map_some]

section

variable (h : Ends b behind)

include h

lemma grows_payload (carrier : Carrier) (shorten : List Char → List Char) {lead : Nat}
    {extent extent' : Nat × Payload.Stop} (hlead : lead ≤ cs.length)
    (hextent : extent.1 ≤ (cs.drop lead).length)
    (hgrows : Payload.Grows b (cs.drop lead).length extent extent') :
    let text := shorten (Payload.settle extent.2 ((cs.drop lead).take extent.1))
    let text' := shorten (Payload.settle extent'.2 (((cs ++ b :: behind).drop lead).take extent'.1))
    Grows b (IsReturn b cs) cs.length
      ⟨lead + extent.1, some (.payload carrier (String.ofList text), cs.take lead ++ text), none⟩
      ⟨lead + extent'.1, some (.payload carrier (String.ofList text'),
        (cs ++ b :: behind).take lead ++ text'), none⟩ := by
  rcases hgrows with ⟨hline, rfl, rfl⟩ | rfl
  · obtain rfl := h.last.resolve_left hline
    have hlength : lead + (cs.drop lead).length = cs.length := by
      rw [List.length_drop]
      omega
    have hall : ((cs ++ [b]).drop lead).take ((cs.drop lead).length + 1) = cs.drop lead ++ [b] := by
      rw [drop_append_of_le_length hlead, List.take_of_length_le (by simp)]
    refine .inl ⟨hline, hlength, by simp only; omega, rfl, .payload fun hreturn => ?_⟩
    obtain ⟨rfl, hfree⟩ := hreturn
    rw [hall, settle_return fun hmem => hfree (List.mem_of_mem_drop hmem),
      take_append_of_le_length hlead, List.take_length]
    exact ⟨rfl, .inl rfl⟩
  · refine .inr ?_
    simp only [drop_append_of_le_length hlead, take_append_of_le_length hlead,
      take_append_of_le_length hextent]

lemma grows_line (hcs : b ≠ '\n' → '\n' ∉ cs) :
    Grows b same cs.length (skipped (lineLength cs))
      (skipped (lineLength (cs ++ b :: behind))) := by
  by_cases hline : b = '\n'
  · refine .inr ?_
    rw [lineLength, lineLength, takeWhile_append_cons (by simp [hline])]
  · obtain rfl := h.last.resolve_left hline
    have hcs' : '\n' ∉ cs ++ [b] := by simp [hcs hline, Ne.symm hline]
    rw [lineLength_of_notMem (hcs hline), lineLength_of_notMem hcs', List.length_append]
    exact .inl ⟨hline, growsAt_skipped _⟩

lemma grows_ofCarrier (carrier : Carrier) {length : Nat} (hlength : length ≤ cs.length) :
    Grows b (IsReturn b cs) cs.length (ofCarrier mode carrier length cs)
      (ofCarrier mode carrier length (cs ++ b :: behind)) := by
  by_cases hgap : cs.drop length = [] ∧ Payload.isGap b = true
  · -- The keyword is the whole text, and the gap behind it is no part of the payload.
    obtain ⟨hbehind, hgap⟩ := hgap
    have hline : b ≠ '\n' := by
      rintro rfl
      simp [Payload.isGap] at hgap
    have hreturn : ¬IsReturn b cs := by
      rintro ⟨rfl, -⟩
      simp [Payload.isGap] at hgap
    obtain rfl := h.last.resolve_left hline
    obtain rfl : length = cs.length := Nat.le_antisymm hlength (List.drop_eq_nil_iff.mp hbehind)
    have hdrop : (cs ++ [b]).drop cs.length = [b] := List.drop_left
    have hnone : (cs ++ [b]).drop (cs.length + 1) = [] := by simp
    have hempty : (if carrier = .button then Payload.buttonExtent mode.elseEnds []
        else Payload.extent mode.elseEnds true []) = (0, .lineEnd) := by
      simp [Payload.buttonExtent, Payload.comma?, Payload.extent]
    unfold ofCarrier
    simp only [hbehind, hdrop, List.take_nil, List.filter_nil, List.length_nil, Nat.add_zero,
      List.take_succ_cons, List.filter_cons_of_pos hgap, List.length_singleton, hnone, hempty]
    exact .inl ⟨hline, rfl, rfl, rfl, .payload fun h => absurd h hreturn⟩
  · -- The gap is the same, and the payload behind it grows or does not.
    have hfilter : (((cs ++ b :: behind).drop length).take 1).filter Payload.isGap =
        ((cs.drop length).take 1).filter Payload.isGap := by
      rw [drop_append_of_le_length hlength]
      rcases hbehind : cs.drop length with _ | ⟨d, tail⟩
      · simpa using fun h => hgap ⟨hbehind, h⟩
      · rfl
    have hlead : length + (((cs.drop length).take 1).filter Payload.isGap).length ≤ cs.length := by
      have hone := Nat.le_trans (List.length_filter_le Payload.isGap ((cs.drop length).take 1))
        (List.length_take_le' 1 (cs.drop length))
      rw [List.length_drop] at hone
      omega
    unfold ofCarrier
    simp only [hfilter]
    generalize length + (((cs.drop length).take 1).filter Payload.isGap).length = lead at hlead
    rw [drop_append_of_le_length hlead]
    split
    · exact grows_payload h carrier id hlead (Payload.buttonExtent_le _ _)
        (Payload.grows_buttonExtent h _ _)
    · exact grows_payload h carrier id hlead (Payload.extent_le _ _ _)
        (Payload.grows_extent h _ _ _)

lemma grows_ofLabel (c : Char) (rest : List Char) :
    Grows b (IsReturn b (c :: rest)) (c :: rest).length (ofLabel mode (c :: rest))
      (ofLabel mode (c :: (rest ++ b :: behind))) := by
  let pad : Char → Bool := fun c => c = ' ' || c = '\t' || c = '\r'
  have hpad : (fun c => decide (c = ' ') || decide (c = '\t') || decide (c = '\r')) = pad := rfl
  by_cases hgap : rest.takeWhile pad = rest ∧ pad b = true
  · -- The name is blank, and the blank behind it is one more.
    obtain ⟨hrest, hb⟩ := hgap
    have hline : b ≠ '\n' := by
      rintro rfl
      simp [pad] at hb
    obtain rfl := h.last.resolve_left hline
    have hmore : (rest ++ [b]).takeWhile pad = rest ++ [b] := by
      rw [List.takeWhile_append, hrest]
      simp [hb]
    have hnone : (c :: rest).drop (rest.length + 1) = [] := by simp
    have hnone' : (c :: (rest ++ [b])).drop ((rest ++ [b]).length + 1) = [] := by simp
    have hempty : Payload.extent mode.elseEnds true [] = (0, .lineEnd) := by
      rw [Payload.extent]
    have hname : trimEnd (Payload.settle .lineEnd []) = [] := rfl
    unfold ofLabel
    simp only [List.tail_cons]
    rw [hpad, hrest, hmore, hnone, hnone', hempty]
    simp only [List.take_nil, hname]
    exact .inl ⟨hline, rfl, by simp, rfl,
      .payload fun _ => ⟨rfl, .inr ⟨⟨rfl, rfl⟩, by simp⟩⟩⟩
  · -- The blanks in front of the name are the same.
    have hsame : (rest ++ b :: behind).takeWhile pad = rest.takeWhile pad := by
      rw [List.takeWhile_append]
      split
      · next hall =>
        have hrest : rest.takeWhile pad = rest :=
          (List.takeWhile_prefix pad).eq_of_length hall
        have hb : ¬pad b = true := fun hb => hgap ⟨hrest, hb⟩
        rw [List.takeWhile_cons_of_neg hb, List.append_nil, hrest]
      · rfl
    have hlead : (rest.takeWhile pad).length + 1 ≤ (c :: rest).length :=
      Nat.succ_le_succ (List.takeWhile_sublist _).length_le
    unfold ofLabel
    simp only [List.tail_cons]
    rw [hpad, hsame, ← List.cons_append]
    refine grows_payload h .label trimEnd hlead (Payload.extent_le _ _ _) ?_
    rw [drop_append_of_le_length hlead]
    exact Payload.grows_extent h _ _ _

lemma grows_ofWord (hcs : b ≠ '\n' → '\n' ∉ cs) :
    Grows b (IsReturn b cs) cs.length (ofWord mode cs) (ofWord mode (cs ++ b :: behind)) := by
  have hword : (cs ++ b :: behind).takeWhile isWordChar = cs.takeWhile isWordChar :=
    takeWhile_append_cons (isWordChar_of_isBlank h.isBlank) cs
  have hlen : (cs.takeWhile isWordChar).length ≤ cs.length := (List.takeWhile_sublist _).length_le
  unfold ofWord
  simp only [hword, plain_append _ hlen, drop_append_of_le_length hlen]
  split
  · exact .inr rfl
  · exact grows_ofCarrier h _ hlen
  · -- An inventory keyword takes a sign, which the blank is none of.
    split
    · rcases hdrop : cs.drop (cs.takeWhile isWordChar).length with _ | ⟨d, tail⟩
      · have hplus : b ≠ '+' := h.ne (by decide)
        have hminus : b ≠ '-' := h.ne (by decide)
        refine .inr ?_
        simp only [List.nil_append, List.head?_cons]
        split <;> simp_all
      · have hmore : (cs.takeWhile isWordChar).length + 1 ≤ cs.length := by
          have := congrArg List.length hdrop
          rw [List.length_drop, List.length_cons] at this
          omega
        simp only [List.cons_append, List.head?_cons]
        split
        · exact grows_ofCarrier h _ hmore
        · exact grows_ofCarrier h _ hmore
        · exact .inr rfl
    · exact .inr rfl
  · split
    · exact grows_line h hcs
    · exact .inr rfl
  · exact .inr rfl

lemma ofOperator_ends (c : Char) (rest : List Char) :
    ofOperator c (rest ++ b :: behind) = ofOperator c rest := by
  have hnext : operator? c (rest ++ b :: behind).head? = operator? c rest.head? := by
    cases rest with
    | nil =>
      have hne {d : Char} (hd : Text.isBlank d = false) : b ≠ d := h.ne hd
      have h₁ := hne (d := '&') (by decide)
      have h₂ := hne (d := '|') (by decide)
      have h₃ := hne (d := '^') (by decide)
      have h₄ := hne (d := '=') (by decide)
      have h₅ := hne (d := '>') (by decide)
      have h₆ := hne (d := '/') (by decide)
      simp only [List.nil_append, List.head?_cons, List.head?_nil]
      unfold operator?
      split <;> simp [h₁, h₂, h₃, h₄, h₅, h₆]
    | cons d rest => rfl
  unfold ofOperator
  rw [hnext]
  split
  · next m width hoperator =>
    have hwidth : width ≤ (c :: rest).length := by
      rcases operator?_width hoperator with rfl | ⟨rfl, hsome⟩
      · simp
      · cases rest with
        | nil => simp at hsome
        | cons d rest => simp
    rw [← List.cons_append, plain_append _ hwidth]
  · rfl

lemma commentEnd?_concat (hline : b ≠ '\n') (hnone : commentEnd? cs = none) :
    commentEnd? (cs ++ b :: behind) = none := by
  obtain rfl := h.last.resolve_left hline
  have hslash : b ≠ '/' := h.ne (by decide)
  fun_induction commentEnd? cs with
  | case1 => simp [commentEnd?]
  | case2 c => simp [commentEnd?, hslash]
  | case3 c d cs hc => simp at hnone
  | case4 c d cs hc ih =>
    rw [List.cons_append, List.cons_append, commentEnd?, if_neg hc]
    rw [List.cons_append] at ih
    rw [ih (by simpa using hnone), Option.map_none]

lemma grows_ofComment (hcs : b ≠ '\n' → '\n' ∉ c :: rest) (hrest : rest ≠ [])
    (hterminated : b = '\n' → (ofComment (c :: rest)).IsTerminated) :
    Grows b same (c :: rest).length (ofComment (c :: rest))
      (ofComment (c :: (rest ++ b :: behind))) := by
  obtain ⟨d, rest, rfl⟩ := List.exists_cons_of_ne_nil hrest
  rcases hinside : commentEnd? rest with _ | n
  · have hline : b ≠ '\n' := fun hline => by
      refine absurd ?_ (hterminated hline).2
      unfold ofComment
      simp only [List.drop_succ_cons, List.drop_zero, hinside, Option.isSome_none]
      split <;> rfl
    have hinside' := commentEnd?_concat h hline hinside
    obtain rfl := h.last.resolve_left hline
    have hfree : (c :: d :: rest).contains '\n' = false := by simpa using hcs hline
    have hfree' : (c :: d :: (rest ++ [b])).contains '\n' = false := by
      simpa [Ne.symm hline] using hcs hline
    have hall : (c :: d :: (rest ++ [b])).take (c :: d :: (rest ++ [b])).length =
        c :: d :: (rest ++ [b]) := List.take_length
    unfold ofComment
    simp only [List.cons_append, List.drop_succ_cons, List.drop_zero, hinside, hinside',
      Option.elim_none, Option.isSome_none, List.take_length, hfree, hfree', hall]
    exact .inl ⟨hline, rfl, by simp [skipped], rfl, .nothing⟩
  · refine .inr ?_
    have hwidth : n + 2 ≤ (c :: d :: rest).length := by simpa using commentEnd?_le hinside
    unfold ofComment
    simp only [List.cons_append, List.drop_succ_cons, List.drop_zero, hinside,
      commentEnd?_append hinside, Option.elim_some, Option.isSome_some]
    rw [← List.cons_append, ← List.cons_append, take_append_of_le_length hwidth,
      plain_append _ hwidth]

lemma ofString_ends (c : Char) (rest : List Char)
    (hterminated : b = '\n' → (ofString (c :: rest)).IsTerminated) :
    ofString (c :: (rest ++ b :: behind)) = ofString (c :: rest) := by
  by_cases hmem : '"' ∈ rest
  · have hvalue : (rest ++ b :: behind).takeWhile (· != '"') = rest.takeWhile (· != '"') :=
      takeWhile_append_of_mem ⟨'"', hmem, by simp⟩
    have hfits : (rest.takeWhile (· != '"')).length + 2 ≤ (c :: rest).length := by
      obtain ⟨tail, htail⟩ := eq_takeWhile_append hmem
      have := congrArg List.length htail
      simp only [List.length_append, List.length_cons] at this ⊢
      omega
    unfold ofString
    simp only [List.tail_cons, List.contains_eq_mem, List.mem_append, hmem, true_or, decide_true,
      if_true, hvalue]
    rw [← List.cons_append, plain_append _ hfits]
  · have hline : b ≠ '\n' := fun hline => by
      refine absurd ?_ (hterminated hline).1
      simp [ofString, hmem, wrong]
    obtain rfl := h.last.resolve_left hline
    have hquote : b ≠ '"' := h.ne (by decide)
    simp [ofString, hmem, hquote.symm]

/-- **A blank behind a text** is taken by what runs to the end of the line, and ends all else. If it
is a line feed, it ends that as well, but no string or comment that has not ended in front of it. -/
theorem grows_read (mode : Mode) (hc : c ≠ '\n') (hcs : b ≠ '\n' → '\n' ∉ c :: rest)
    (hterminated : b = '\n' → (read mode c rest).IsTerminated) :
    Grows b (IsReturn b (c :: rest)) (c :: rest).length (read mode c rest)
      (read mode c (rest ++ b :: behind)) := by
  have hskipped : Grows b (IsReturn b (c :: rest)) (c :: rest).length
      (skipped (lineLength (c :: rest))) (skipped (lineLength (c :: rest ++ b :: behind))) :=
    grows_line h hcs
  have hstar : (rest ++ b :: behind).head? = some '*' ↔ rest.head? = some '*' :=
    head?_append_cons (h.ne (by decide))
  have hdouble : (mode.lineStart && (c = '/' || c = '-') && (rest ++ b :: behind).head? = some c) =
      (mode.lineStart && (c = '/' || c = '-') && rest.head? = some c) := by
    by_cases hmark : c = '/' ∨ c = '-'
    · have hne : b ≠ c := by rcases hmark with rfl | rfl <;> exact h.ne (by decide)
      simp only [head?_append_cons hne]
    · have hnone : (decide (c = '/') || decide (c = '-')) = false := by simpa [not_or] using hmark
      simp only [hnone, Bool.and_false, Bool.false_and]
  have hdigit : (rest ++ b :: behind).head?.any Char.isDigit = rest.head?.any Char.isDigit :=
    any_head?_append_cons (isDigit_of_isBlank h.isBlank)
  have hnumber : ofNumber (c :: (rest ++ b :: behind)) = ofNumber (c :: rest) := by
    unfold ofNumber
    rw [← List.cons_append, Numeral.ofText_ends h,
      plain_append _ (Numeral.length_text_ofText_le (c :: rest))]
  rw [List.cons_append] at hskipped
  unfold read at hterminated ⊢
  simp only [hstar, hdouble, hdigit, hnumber, ofOperator_ends h, if_neg hc] at hterminated ⊢
  split
  · exact hskipped
  · next hsemicolon =>
    rw [if_neg hsemicolon] at hterminated
    split
    · next hcomment =>
      rw [if_pos hcomment] at hterminated
      refine grows_ofComment h hcs (fun hnil => ?_) hterminated
      simp [hnil] at hcomment
    · next hcomment =>
      rw [if_neg hcomment] at hterminated
      split
      · exact hskipped
      · next hdoubled =>
        rw [if_neg hdoubled] at hterminated
        split
        · exact grows_ofLabel h c rest
        · next hlabel =>
          rw [if_neg hlabel] at hterminated
          split
          · next hquote =>
            rw [if_pos hquote] at hterminated
            exact .inr (ofString_ends h c rest hterminated)
          · split
            · exact .inr rfl
            split
            · exact grows_ofWord h hcs
            · exact .inr rfl

end

/-- **A piece ends in front of a line feed**, unless it is a string or comment that goes on. -/
theorem read_lineFeed (behind : List Char) (mode : Mode) (hc : c ≠ '\n')
    (h : (read mode c rest).IsTerminated) :
    read mode c (rest ++ '\n' :: behind) = read mode c rest :=
  (grows_read (ends_lineFeed behind) mode hc (fun hne => absurd rfl hne) fun _ => h).resolve_left
    fun hgrows => hgrows.1 rfl

end Piece

end QuestScript
