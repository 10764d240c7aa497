import Mathlib.Data.List.Forall2
import QuestScript.Proofs.Token.Locality

/-!
Reading does not see the case of letters.

What is read at the start of a text in lower case is what is read at the start of the text, in lower
case (`Piece.read_map_toLower`): all that a reader looks for is a mark, a class of characters, or a
word in any case. So two texts that differ in the case of letters have the same kinds of tokens at
the same places. What a token holds stands in its lexeme, behind the keyword if it has one. If the
texts differ in the keywords of the first one only, the tokens are the same
(`Scan.Recases.forall₂_read`).
-/

namespace QuestScript

open Text

/-! ### What is found in a text -/

namespace LinkSpan

lemma upToClosing?_map_toLower (cs : List Char) :
    upToClosing? (cs.map Char.toLower) = (upToClosing? cs).map (List.map Char.toLower) := by
  fun_induction upToClosing? cs with
  | case1 => rfl
  | case2 => rfl
  | case3 => simp [upToClosing?]
  | case4 c d cs hline hclosing =>
    simp (disch := decide) only [List.map_cons, upToClosing?, toLower_eq_iff, hline, hclosing,
      if_true, if_false, Option.map_some, List.map_nil]
  | case5 c d cs hline hclosing ih =>
    rw [List.map_cons] at ih
    simp (disch := decide) only [List.map_cons, upToClosing?, toLower_eq_iff, hline, hclosing,
      if_false, ih, Option.map_map]
    rfl

lemma length?_map_toLower (cs : List Char) : length? (cs.map Char.toLower) = length? cs := by
  unfold length? inner?
  rcases cs with _ | ⟨a, _ | ⟨b, _ | ⟨c, cs⟩⟩⟩ <;> try rfl
  simp (disch := decide) only [List.map_cons, toLower_eq_iff, upToClosing?_map_toLower, toLower_bne]
  split
  · simp [Option.map_map, Function.comp_def]
  · rfl

end LinkSpan

namespace Payload

@[simp] lemma isGap_toLower (c : Char) : isGap c.toLower = isGap c :=
  apply_toLower (by decide) c

lemma startsElse_map_toLower (cs : List Char) :
    startsElse (cs.map Char.toLower) = startsElse cs := by
  unfold startsElse
  rw [← List.map_take, ← List.map_drop, List.map_map, List.head?_map, Option.any_map]
  congr 3
  · exact congrArg (List.map · _) (funext toLower_toLower)
  · exact funext isWordChar_toLower

lemma extent_map_toLower (elseEnds fresh : Bool) (cs : List Char) :
    extent elseEnds fresh (cs.map Char.toLower) = extent elseEnds fresh cs := by
  fun_induction extent elseEnds fresh cs with
  | case1 => rw [List.map_nil, extent]
  | case2 => simp [extent]
  | case3 => simp [extent]
  | case4 fresh c rest hline hamp helse =>
    have hstarts := startsElse_map_toLower (c :: rest)
    rw [List.map_cons] at hstarts ⊢
    simp (disch := decide) only [extent, toLower_eq_iff, hline, hamp, hstarts, helse, if_true,
      if_false]
  | case5 fresh c rest hline hamp helse more tail ih =>
    have hstarts := startsElse_map_toLower (c :: rest)
    have hspan := LinkSpan.length?_map_toLower (c :: rest)
    rw [List.map_cons] at hstarts hspan ⊢
    rw [extent]
    simp (disch := decide) only [toLower_eq_iff, hline, hamp, hstarts, helse, if_false, hspan,
      isGap_toLower, ← List.map_drop]
    exact congrArg (fun tail : Nat × Stop => (tail.1 + more + 1, tail.2)) ih

lemma comma?_map_toLower (elseEnds fresh : Bool) (cs : List Char) :
    comma? elseEnds fresh (cs.map Char.toLower) = comma? elseEnds fresh cs := by
  fun_induction comma? elseEnds fresh cs with
  | case1 => rw [List.map_nil, comma?]
  | case2 => simp [comma?]
  | case3 => simp [comma?]
  | case4 fresh c rest hline hcomma helse =>
    have hstarts := startsElse_map_toLower (c :: rest)
    rw [List.map_cons] at hstarts ⊢
    simp (disch := decide) only [comma?, toLower_eq_iff, hline, hcomma, hstarts, helse, if_true,
      if_false]
  | case5 fresh c rest hline hcomma helse more ih =>
    have hstarts := startsElse_map_toLower (c :: rest)
    have hspan := LinkSpan.length?_map_toLower (c :: rest)
    rw [List.map_cons] at hstarts hspan ⊢
    rw [comma?]
    simp (disch := decide) only [toLower_eq_iff, hline, hcomma, hstarts, helse, if_false, hspan,
      isGap_toLower, ← List.map_drop]
    exact congrArg (Option.map (· + more + 1)) ih

lemma buttonExtent_map_toLower (elseEnds : Bool) (cs : List Char) :
    buttonExtent elseEnds (cs.map Char.toLower) = buttonExtent elseEnds cs := by
  simp only [buttonExtent, comma?_map_toLower, ← List.map_drop, extent_map_toLower]

lemma settle_map_toLower (stop : Stop) (cs : List Char) :
    settle stop (cs.map Char.toLower) = (settle stop cs).map Char.toLower := by
  have hgap (c : Char) :
      (isGap c.toLower || c.toLower = '\r') = (isGap c || c = '\r') := by
    simp (disch := decide) only [isGap_toLower, toLower_eq_iff]
  cases stop with
  | lineEnd => exact dropReturn_map_toLower cs
  | ampersand => exact dropEndWhile_map_toLower hgap cs
  | elseWord => exact dropEndWhile_map_toLower hgap cs

end Payload

namespace Numeral

lemma digits_map_toLower (cs : List Char) : digits (cs.map Char.toLower) = digits cs := by
  rw [digits, takeWhile_map_toLower isDigit_toLower, digits]
  refine (List.map_congr_left fun c hc => ?_).trans (List.map_id _)
  have hdigit : c.isDigit = true := List.mem_takeWhile_imp hc
  refine (toLower_eq_iff (Bool.eq_false_iff.mpr fun halpha => ?_)).mpr rfl
  simp [isDigit_of_isAlphabetic (isAlphabetic_of_isAlpha c halpha)] at hdigit

lemma fractionAt_map_toLower (cs : List Char) :
    fractionAt (cs.map Char.toLower) = fractionAt cs := by
  cases cs with
  | nil => rfl
  | cons c cs =>
    simp (disch := decide) only [List.map_cons, fractionAt, toLower_eq_iff, digits_map_toLower]

lemma exponentAt_map_toLower (cs : List Char) :
    exponentAt (cs.map Char.toLower) =
      ((exponentAt cs).1.map Char.toLower, (exponentAt cs).2) := by
  have hmark := apply_toLower (f := fun c => decide (c = 'e' || c = 'E')) (by decide)
  have hsign : ∀ c, (decide (c.toLower = '+') || decide (c.toLower = '-')) =
      (decide (c = '+') || decide (c = '-')) := fun c => by
    simp (disch := decide) only [toLower_eq_iff]
  cases cs with
  | nil => rfl
  | cons c cs =>
    simp only [decide_eq_decide] at hmark
    have hfilter : ((cs.map Char.toLower).take 1).filter (fun d => d = '+' || d = '-') =
        ((cs.take 1).filter fun d => d = '+' || d = '-').map Char.toLower := by
      rw [← List.map_take, List.filter_map]
      exact congrArg (fun p => List.map Char.toLower (List.filter p _)) (funext hsign)
    simp only [List.map_cons, exponentAt, hmark, hfilter, List.length_map, ← List.map_drop,
      digits_map_toLower]
    split
    · split <;> simp
    · rfl

lemma ofText_map_toLower (cs : List Char) :
    ofText (cs.map Char.toLower) =
      { ofText cs with mark := (ofText cs).mark.map Char.toLower } := by
  simp only [ofText, digits_map_toLower, ← List.map_drop, fractionAt_map_toLower,
    exponentAt_map_toLower]

lemma value_map_toLower (cs : List Char) :
    (ofText (cs.map Char.toLower)).value = (ofText cs).value := by
  simp (disch := decide) only [ofText_map_toLower, value, exponent, contains_map_toLower]

lemma length_text_map_toLower (cs : List Char) :
    (ofText (cs.map Char.toLower)).text.length = (ofText cs).text.length := by
  simp only [ofText_map_toLower, text, List.length_append, List.length_map]

end Numeral

/-! ### Pieces -/

/-- The token with the text that it holds in lower case. -/
def Token.lower : Token → Token
  | mark m => mark m
  | payload carrier text => payload carrier (String.ofList (text.toList.map Char.toLower))
  | number value => number value
  | string value => string (String.ofList (value.toList.map Char.toLower))
  | name value => name (String.ofList (value.toList.map Char.toLower))

namespace Piece

/-- The piece with its token and its lexeme in lower case. -/
def lower (piece : Piece) : Piece :=
  { piece with token := piece.token.map fun entry => (entry.1.lower, entry.2.map Char.toLower) }

@[simp] lemma width_lower (piece : Piece) : piece.lower.width = piece.width := rfl

@[simp] lemma fault_lower (piece : Piece) : piece.lower.fault = piece.fault := rfl

lemma lower_plain (token : Token) (width : Nat) (cs : List Char) :
    (plain token width cs).lower = plain token.lower width (cs.map Char.toLower) := by
  simp only [plain, lower, Option.map_some, ← List.map_take, trimEnd_map_toLower]

lemma lower_payload (carrier : Carrier) (lead : Nat) (extent : Nat × Payload.Stop)
    (cs : List Char) :
    (payload carrier lead extent cs).lower = payload carrier lead extent (cs.map Char.toLower) := by
  simp only [payload, lower, Token.lower, Option.map_some, String.toList_ofList, ← List.map_drop,
    ← List.map_take, Payload.settle_map_toLower, List.map_append]

lemma lineLength_map_toLower (cs : List Char) :
    lineLength (cs.map Char.toLower) = lineLength cs := by
  rw [lineLength, takeWhile_map_toLower (toLower_bne (by decide)), List.length_map, lineLength]

lemma ofLineBreak_map_toLower (cs : List Char) :
    ofLineBreak (cs.map Char.toLower) = (ofLineBreak cs).lower := by
  have hblank := takeWhile_map_toLower (p := fun c => c = '\n' || c = ' ' || c = '\t' || c = '\r')
    (fun c => by simp (disch := decide) only [toLower_eq_iff]) cs
  simp only [ofLineBreak, lower_plain, hblank, List.length_map]
  rfl

lemma commentEnd?_map_toLower (cs : List Char) :
    commentEnd? (cs.map Char.toLower) = commentEnd? cs := by
  fun_induction commentEnd? cs with
  | case1 => rfl
  | case2 => rfl
  | case3 c d cs hend =>
    simp (disch := decide) only [List.map_cons, commentEnd?, toLower_eq_iff, hend, if_true]
  | case4 c d cs hend ih =>
    rw [List.map_cons] at ih
    simp (disch := decide) only [List.map_cons, commentEnd?, toLower_eq_iff, hend,
      Bool.false_eq_true, if_false, ih]

lemma ofComment_map_toLower (cs : List Char) :
    ofComment (cs.map Char.toLower) = (ofComment cs).lower := by
  simp (disch := decide) only [ofComment, ← List.map_drop, commentEnd?_map_toLower, List.length_map,
    ← List.map_take, contains_map_toLower]
  split
  · simp only [lower, ← List.map_take, plain, Option.map_some, trimEnd_map_toLower]
    rfl
  · rfl

lemma ofLabel_map_toLower (mode : Mode) (cs : List Char) :
    ofLabel mode (cs.map Char.toLower) = (ofLabel mode cs).lower := by
  have hblank := takeWhile_map_toLower (p := fun c => c = ' ' || c = '\t' || c = '\r')
    (fun c => by simp (disch := decide) only [toLower_eq_iff]) cs.tail
  simp only [ofLabel, ← List.map_tail, hblank, List.length_map, ← List.map_drop,
    Payload.extent_map_toLower, ← List.map_take, Payload.settle_map_toLower, trimEnd_map_toLower,
    lower, Option.map_some, Token.lower, String.toList_ofList, List.map_append]

lemma ofString_map_toLower (cs : List Char) :
    ofString (cs.map Char.toLower) = (ofString cs).lower := by
  have hvalue := takeWhile_map_toLower (p := (· != '"')) (toLower_bne (by decide)) cs.tail
  simp (disch := decide) only [ofString, ← List.map_tail, contains_map_toLower, hvalue,
    List.length_map]
  split
  · rw [lower_plain, Token.lower, String.toList_ofList]
  · rfl

lemma ofNumber_map_toLower (cs : List Char) :
    ofNumber (cs.map Char.toLower) = (ofNumber cs).lower := by
  simp only [ofNumber, Numeral.value_map_toLower, Numeral.length_text_map_toLower, lower_plain,
    Token.lower]

lemma ofCarrier_map_toLower (mode : Mode) (carrier : Carrier) (length : Nat) (cs : List Char) :
    ofCarrier mode carrier length (cs.map Char.toLower) =
      (ofCarrier mode carrier length cs).lower := by
  have hgap (behind : List Char) :
      (((behind.map Char.toLower).take 1).filter Payload.isGap).length =
        ((behind.take 1).filter Payload.isGap).length := by
    rw [← List.map_take, List.filter_map, List.length_map]
    exact congrArg (fun p => (List.filter p _).length) (funext Payload.isGap_toLower)
  simp only [ofCarrier, hgap, ← List.map_drop, Payload.buttonExtent_map_toLower,
    Payload.extent_map_toLower, lower_payload]

lemma ofWord_map_toLower (mode : Mode) (cs : List Char) :
    ofWord mode (cs.map Char.toLower) = (ofWord mode cs).lower := by
  have hkey (word : List Char) : Keyword.ofWord? (word.map Char.toLower) = Keyword.ofWord? word :=
    Keyword.ofWord?_congr (by simp)
  have hname (word : List Char) :
      (plain (.name (String.ofList word)) word.length cs).lower =
        plain (.name (String.ofList (word.map Char.toLower))) word.length
          (cs.map Char.toLower) := by
    rw [lower_plain, Token.lower, String.toList_ofList]
  simp only [ofWord, takeWhile_map_toLower isWordChar_toLower, List.length_map, hkey,
    ← List.map_drop, List.head?_map]
  rcases Keyword.ofWord? (cs.takeWhile isWordChar) with _ | m | carrier | _ | _
  · exact (hname _).symm
  · exact (lower_plain (.mark m) _ _).symm
  · exact ofCarrier_map_toLower mode carrier _ cs
  · simp only
    split
    · rcases (cs.drop (cs.takeWhile isWordChar).length).head? with _ | sign
      · exact (hname _).symm
      by_cases hsign : sign = '+' ∨ sign = '-'
      · rcases hsign with rfl | rfl
        · exact ofCarrier_map_toLower mode .inventoryAdd _ cs
        · exact ofCarrier_map_toLower mode .inventoryRemove _ cs
      · -- the sign is no letter, so lower case keeps it
        have hlower : ¬(sign.toLower = '+' ∨ sign.toLower = '-') := by
          simpa (disch := decide) only [toLower_eq_iff] using hsign
        rw [not_or] at hsign hlower
        simp only [Option.map_some, Option.some.injEq, hsign.1, hsign.2, hlower.1, hlower.2,
          hname, imp_self]
    · exact (hname _).symm
  · simp only [lineLength_map_toLower]
    split
    · rfl
    · exact (hname _).symm

lemma operator?_toLower (c : Char) (next : Option Char) :
    operator? c (next.map Char.toLower) = operator? c next := by
  unfold operator?
  simp (disch := decide) only [map_toLower_eq_some]

lemma ofOperator_map_toLower (c : Char) (rest : List Char) (hc : c.toLower = c) :
    ofOperator c (rest.map Char.toLower) = (ofOperator c rest).lower := by
  rw [ofOperator, List.head?_map, operator?_toLower, ofOperator]
  split
  · rw [lower_plain, List.map_cons, hc]
    rfl
  · rfl

/-- **Reading does not see the case of letters.** What is read at the start of a text in lower case
is what is read at the start of the text, in lower case. -/
theorem read_map_toLower (mode : Mode) (c : Char) (rest : List Char) :
    read mode c.toLower (rest.map Char.toLower) = (read mode c rest).lower := by
  rcases hc : isAlphabetic c with _ | _
  · have halpha : c.isAlpha = false := Bool.eq_false_iff.mpr fun halpha => by
      simp [isAlphabetic_of_isAlpha c halpha] at hc
    have hsame : c.toLower = c := (toLower_eq_iff halpha).mpr rfl
    have hdigit : (rest.head?.map Char.toLower).any Char.isDigit = rest.head?.any Char.isDigit := by
      cases rest.head? <;> simp
    have hcons : c :: rest.map Char.toLower = (c :: rest).map Char.toLower := by
      rw [List.map_cons, hsame]
    rw [hsame]
    simp (disch := first | decide | exact halpha) only [read, List.head?_map, map_toLower_eq_some,
      hdigit, hc, hcons, ofLineBreak_map_toLower, lineLength_map_toLower, ofComment_map_toLower,
      ofLabel_map_toLower, ofString_map_toLower, ofNumber_map_toLower, Bool.false_eq_true, if_false,
      ofOperator_map_toLower c rest hsame]
    simp only [apply_ite lower]
    rfl
  · rw [read_of_isAlphabetic mode rest hc,
      read_of_isAlphabetic mode _ (by rwa [isAlphabetic_toLower]), ← List.map_cons,
      ofWord_map_toLower]

end Piece

/-! ### Tokens and their lexemes -/

namespace Token

/-- Where the text that a token holds stands in its lexeme: at the end, between quotes, or as the
whole of it. -/
def StandsIn (lexeme : List Char) : Token → Prop
  | payload _ text => text.toList <:+ lexeme
  | string value => lexeme = '"' :: value.toList ++ ['"']
  | name value => lexeme = value.toList
  | _ => True

end Token

namespace Lexeme

/-- How many characters of the lexeme are its keyword. Names and literals have none, nor do line
breaks. -/
def keywordLength (l : Lexeme) : Nat :=
  match l.token with
  | .mark .lineBreak => 0
  | .mark _ => l.text.length
  | .payload _ text => l.text.length - text.length
  | _ => 0

lemma keywordLength_le (l : Lexeme) : l.keywordLength ≤ l.text.length := by
  unfold keywordLength
  split <;> omega

lemma token_eq_of_lower {l l' : Lexeme} (hl : l.token.StandsIn l.text.toList)
    (hl' : l'.token.StandsIn l'.text.toList) (hlower : l'.token.lower = l.token.lower)
    (hlength : l'.text.length = l.text.length)
    (hbehind : l'.text.toList.drop l.keywordLength = l.text.toList.drop l.keywordLength) :
    l'.token = l.token := by
  rcases l with ⟨token, lexeme, place⟩
  rcases l' with ⟨token', lexeme', place'⟩
  have hletters {text text' : String}
      (h : String.ofList (text'.toList.map Char.toLower) =
        String.ofList (text.toList.map Char.toLower)) : text'.length = text.length := by
    have hlengths := congrArg List.length (String.ofList_inj.mp h)
    rwa [List.length_map, List.length_map, String.length_toList, String.length_toList] at hlengths
  cases token with
  | mark m => cases token' <;> simp_all [Token.lower]
  | number value => cases token' <;> simp_all [Token.lower]
  | name value =>
    cases token' <;> simp only [Token.lower, reduceCtorEq] at hlower
    exact congrArg Token.name (String.toList_inj.mp (hl'.symm.trans (hbehind.trans hl)))
  | string value =>
    cases token' <;> simp only [Token.lower, reduceCtorEq] at hlower
    have hvalue := hl'.symm.trans (hbehind.trans hl)
    simp only [List.cons_append, List.cons.injEq, List.append_cancel_right_eq, true_and] at hvalue
    exact congrArg Token.string (String.toList_inj.mp hvalue)
  | payload carrier text =>
    cases token' <;> simp only [Token.lower, reduceCtorEq, Token.payload.injEq] at hlower
    obtain ⟨rfl, htext⟩ := hlower
    have hsuffix := List.suffix_iff_eq_drop.mp hl
    have hsuffix' := List.suffix_iff_eq_drop.mp hl'
    simp only [String.length_toList, hletters htext, hlength] at hsuffix hsuffix'
    exact congrArg (Token.payload _)
      (String.toList_inj.mp (hsuffix'.trans (hbehind.trans hsuffix.symm)))

end Lexeme

namespace Piece

variable {mode : Mode} {c : Char} {rest cs : List Char}

lemma standsIn_payload {carrier : Carrier} {lead : List Char} {text : List Char} :
    (Token.payload carrier (String.ofList text)).StandsIn (lead ++ text) := by
  rw [Token.StandsIn, String.toList_ofList]
  exact List.suffix_append lead text

lemma standsIn_word (cs : List Char) : ∀ entry ∈
    (plain (.name (String.ofList (cs.takeWhile isWordChar))) (cs.takeWhile isWordChar).length
      cs).token, entry.1.StandsIn entry.2 := by
  rintro entry ⟨⟩
  have hlast : trimEnd (cs.takeWhile isWordChar) = cs.takeWhile isWordChar :=
    dropEndWhile_eq_self fun c hc =>
      isBlank_of_isWordChar (List.mem_takeWhile_imp (List.mem_of_getLast? hc))
  rw [Token.StandsIn, String.toList_ofList,
    ← List.prefix_iff_eq_take.mp (List.takeWhile_prefix isWordChar), hlast]

/-- The text that a token holds stands in its lexeme. -/
theorem standsIn_read {token : Token} {lexeme : List Char}
    (h : (read mode c rest).token = some (token, lexeme)) : token.StandsIn lexeme := by
  have hcarrier (carrier : Carrier) (length : Nat) :
      ∀ entry ∈ (ofCarrier mode carrier length (c :: rest)).token, entry.1.StandsIn entry.2 := by
    rintro entry ⟨⟩
    exact standsIn_payload
  refine read_cases (motive := fun piece => ∀ entry ∈ piece.token, entry.1.StandsIn entry.2)
    ?lineBreak ?line ?comment ?label ?string ?number ?word ?operator (token, lexeme) h
  case lineBreak => rintro _ entry ⟨⟩; trivial
  case line => rintro _ _ entry ⟨⟩
  case comment =>
    intro _ _
    unfold ofComment
    simp only
    split <;> rintro entry ⟨⟩
    trivial
  case label => rintro _ entry ⟨⟩; exact standsIn_payload
  case string =>
    rintro rfl
    by_cases hclosed : '"' ∈ rest
    · have htake := take_ofString (c := '"') hclosed
      have hstring : ofString ('"' :: rest) =
          plain (.string (String.ofList (rest.takeWhile (· != '"'))))
            ((rest.takeWhile (· != '"')).length + 2) ('"' :: rest) := by
        simp [ofString, hclosed]
      have hlast (value : List Char) : trimEnd ('"' :: value ++ ['"']) = '"' :: value ++ ['"'] :=
        dropEndWhile_eq_self fun c hc => by
          rw [List.getLast?_concat] at hc
          obtain rfl := Option.some.inj hc
          decide
      rw [hstring] at htake ⊢
      rintro entry ⟨⟩
      rw [Token.StandsIn, String.toList_ofList]
      exact (congrArg trimEnd htake).trans (hlast _)
    · simp [ofString, hclosed, wrong]
  case number => rintro _ entry ⟨⟩; trivial
  case word =>
    intro _
    refine ofWord_cases (motive := fun piece => ∀ entry ∈ piece.token, entry.1.StandsIn entry.2) rfl
      (standsIn_word _) ?mark (hcarrier · _) (fun carrier _ _ _ => hcarrier carrier _) ?line
    case mark => rintro m _ entry ⟨⟩; trivial
    case line => rintro _ _ entry ⟨⟩
  case operator =>
    intro _
    unfold ofOperator
    split <;> rintro entry ⟨⟩
    trivial

end Piece

/-! ### Where keywords stand -/

namespace Position

lemma next_toLower (p : Position) (c : Char) : p.next c.toLower = p.next c := by
  simp (disch := decide) only [next, toLower_eq_iff]

lemma advance_map_toLower (p : Position) (cs : List Char) :
    p.advance (cs.map Char.toLower) = p.advance cs := by
  induction cs generalizing p with
  | nil => rfl
  | cons c cs ih =>
    exact (congrArg (advance · (cs.map Char.toLower)) (p.next_toLower c)).trans (ih (p.next c))

lemma advance_take_inj {p : Position} {cs : List Char} {m n : Nat} (hm : m ≤ cs.length)
    (hn : n ≤ cs.length) (h : p.advance (cs.take m) = p.advance (cs.take n)) : m = n := by
  have hlt {m n : Nat} (hmn : m < n) (hn : n ≤ cs.length) :
      p.advance (cs.take m) < p.advance (cs.take n) := by
    obtain ⟨k, rfl⟩ := Nat.exists_eq_add_of_lt hmn
    have hsplit : cs.take (m + k + 1) = cs.take m ++ (cs.drop m).take (k + 1) := by
      rw [Nat.add_assoc, List.take_add]
    rcases hdrop : (cs.drop m).take (k + 1) with _ | ⟨c, front⟩
    · have hlength := congrArg List.length hdrop
      simp only [List.length_take, List.length_drop, List.length_nil] at hlength
      omega
    · rw [hsplit, hdrop, advance_append]
      exact lt_advance_cons _ c front
  rcases Nat.lt_trichotomy m n with hmn | rfl | hmn
  · exact absurd h (hlt hmn hn).ne
  · rfl
  · exact absurd h.symm (hlt hmn hm).ne

end Position

namespace Lexeme

/-- The character of the text at the given index stands in the keyword of one of the lexemes. -/
def KeywordAt (place : Position) (cs : List Char) (ts : List Lexeme) (i : Nat) : Prop :=
  ∃ l ∈ ts, ∃ n ≤ i, l.start = place.advance (cs.take n) ∧ i < n + l.keywordLength

variable {place : Position} {cs : List Char} {ts us : List Lexeme} {w i : Nat}

lemma KeywordAt.cut (h : KeywordAt place cs (ts ++ us) i) (hi : i < cs.length)
    (hts : ∀ l ∈ ts, l.start = place ∧ l.text.length ≤ w)
    (hus : ∀ l ∈ us, ∃ m, w + m ≤ cs.length ∧ l.start = place.advance (cs.take (w + m))) :
    (i < w ∧ ∃ l ∈ ts, i < l.keywordLength) ∨
      (w ≤ i ∧ KeywordAt (place.advance (cs.take w)) (cs.drop w) us (i - w)) := by
  obtain ⟨l, hl, n, hn, hstart, hlt⟩ := h
  rcases List.mem_append.mp hl with hl | hl
  · obtain ⟨hplace, hlength⟩ := hts l hl
    obtain rfl : n = 0 :=
      Position.advance_take_inj (by omega) (Nat.zero_le _) (hstart.symm.trans hplace)
    have := l.keywordLength_le
    exact .inl ⟨by omega, l, hl, by omega⟩
  · obtain ⟨m, hm, hplace⟩ := hus l hl
    obtain rfl : n = w + m := Position.advance_take_inj (by omega) hm (hstart.symm.trans hplace)
    refine .inr ⟨by omega, l, hl, m, by omega, ?_, by omega⟩
    rw [hplace, List.take_add, Position.advance_append]

/-- The lexemes are of one token at one place, and their texts differ at most in the case of ASCII
letters. -/
structure Recased (l l' : Lexeme) : Prop where
  token : l'.token = l.token
  start : l'.start = l.start
  text : sameAsciiLetters l.text.toList l'.text.toList = true

end Lexeme

namespace Scan

variable {mode : Mode} {place : Position} {cs ds : List Char}

lemma exists_start_of_mem {l : Lexeme} {later : Mode} {w : Nat} (hw : w ≤ cs.length)
    (h : l ∈ (read later (place.advance (cs.take w)) (cs.drop w)).lexemes) :
    ∃ m, w + m ≤ cs.length ∧ l.start = place.advance (cs.take (w + m)) := by
  obtain ⟨front, back, hdrop, hstart, -⟩ := exists_of_mem_lexemes h
  have hlength := congrArg List.length hdrop
  simp only [List.length_drop, List.length_append] at hlength
  refine ⟨front.length, Nat.add_le_of_le_sub' hw (by omega), ?_⟩
  rw [hstart, List.take_add, hdrop, List.take_left, Position.advance_append]

/-- Texts that are the same but for the case of letters in keywords of the first one. -/
structure Recases (mode : Mode) (place : Position) (cs ds : List Char) : Prop where
  letters : ds.map Char.toLower = cs.map Char.toLower
  keywords (i : Nat) (h : cs[i]? ≠ ds[i]?) :
    Lexeme.KeywordAt place cs (read mode place cs).lexemes i

namespace Recases

variable {later : Mode} {ts : List Lexeme} {w : Nat}

lemma length_eq (h : Recases mode place cs ds) : ds.length = cs.length := by
  simpa using congrArg List.length h.letters

lemma cut (h : Recases mode place cs ds) (hw : w ≤ cs.length)
    (hread : (read mode place cs).lexemes =
      ts ++ (read later (place.advance (cs.take w)) (cs.drop w)).lexemes)
    (hts : ∀ l ∈ ts, l.start = place ∧ l.text.length ≤ w) :
    (∀ i < w, cs[i]? ≠ ds[i]? → ∃ l ∈ ts, i < l.keywordLength) ∧
      Recases later (place.advance (cs.take w)) (cs.drop w) (ds.drop w) := by
  have hcut (i : Nat) (hi : cs[i]? ≠ ds[i]?) :
      (i < w ∧ ∃ l ∈ ts, i < l.keywordLength) ∨ (w ≤ i ∧ Lexeme.KeywordAt
        (place.advance (cs.take w)) (cs.drop w)
        (read later (place.advance (cs.take w)) (cs.drop w)).lexemes (i - w)) := by
    refine (hread ▸ h.keywords i hi).cut ?_ hts fun l hl => exists_start_of_mem hw hl
    by_contra hlong
    rw [List.getElem?_eq_none (by omega), List.getElem?_eq_none (by rw [h.length_eq]; omega)] at hi
    exact hi rfl
  refine ⟨fun i hi hne => ?_, ⟨?_, fun i hne => ?_⟩⟩
  · rcases hcut i hne with ⟨-, hfront⟩ | ⟨hle, -⟩
    · exact hfront
    · omega
  · rw [List.map_drop, h.letters, List.map_drop]
  · rw [List.getElem?_drop, List.getElem?_drop] at hne
    rcases hcut (w + i) hne with ⟨hlt, -⟩ | ⟨-, hbehind⟩
    · omega
    · rwa [Nat.add_sub_cancel_left] at hbehind

end Recases

lemma isPadding_of_toLower {c d : Char} (h : d.toLower = c.toLower) :
    IsPadding d ↔ IsPadding c := by
  have hlower (c : Char) : IsPadding c.toLower ↔ IsPadding c := by
    simp (disch := decide) only [IsPadding, toLower_eq_iff]
  rw [← hlower d, h, hlower]

lemma modeBehind_lower (mode : Mode) (piece : Piece) :
    modeBehind mode piece.lower = modeBehind mode piece := by
  rcases htoken : piece.token with _ | ⟨token, text⟩
  · simp [modeBehind, Piece.lower, htoken]
  · cases token <;> simp [modeBehind, Piece.lower, htoken, Token.lower, Mode.after]

lemma keeps_lower (mode : Mode) (token : Token) : keeps mode token.lower = keeps mode token := by
  cases token <;> simp [keeps, Token.lower]

lemma drop_congr {text text' : List Char} {w n : Nat} (htext : text <+: cs.take w)
    (htext' : text' <+: ds.take w) (hlength : text'.length = text.length)
    (h : ∀ i < w, cs[i]? ≠ ds[i]? → i < n) : text'.drop n = text.drop n := by
  have hget {text cs : List Char} (htext : text <+: cs.take w) {i : Nat} (hi : i < text.length) :
      i < w ∧ text[i]? = cs[i]? := by
    have hle := htext.length_le
    rw [List.length_take] at hle
    have hlt : i < w := by omega
    refine ⟨hlt, ?_⟩
    rw [List.prefix_iff_eq_take.mp htext, List.getElem?_take_of_lt (by simpa using hi),
      List.getElem?_take_of_lt hlt]
  refine List.ext_getElem? fun k => ?_
  rw [List.getElem?_drop, List.getElem?_drop]
  by_cases hk : n + k < text.length
  · obtain ⟨hlt, hcs⟩ := hget htext hk
    rw [hcs, (hget htext' (hlength ▸ hk)).2]
    by_contra hne
    have := h (n + k) hlt (Ne.symm hne)
    omega
  · rw [List.getElem?_eq_none (by omega), List.getElem?_eq_none (by omega)]

lemma forall₂_kept {piece piece' : Piece} (hlower : piece'.lower = piece.lower)
    (hpiece : ∀ entry ∈ piece.token, entry.1.StandsIn entry.2 ∧ entry.2 <+: cs.take piece.width)
    (hpiece' : ∀ entry ∈ piece'.token,
      entry.1.StandsIn entry.2 ∧ entry.2 <+: ds.take piece'.width)
    (hfront : ∀ i < piece.width, cs[i]? ≠ ds[i]? →
      ∃ l ∈ kept mode place piece, i < l.keywordLength) :
    List.Forall₂ Lexeme.Recased (kept mode place piece) (kept mode place piece') := by
  have hwidth : piece'.width = piece.width := by simpa using congrArg Piece.width hlower
  have htokens := congrArg Piece.token hlower
  simp only [Piece.lower] at htokens
  rcases htoken : piece.token with _ | ⟨token, text⟩ <;>
    rcases htoken' : piece'.token with _ | ⟨token', text'⟩ <;>
    simp only [htoken, htoken', Option.map_some, Option.map_none, Option.some.injEq,
      Prod.mk.injEq, reduceCtorEq] at htokens
  · simp only [kept, htoken, htoken']
    exact .nil
  obtain ⟨htokens, htexts⟩ := htokens
  have hkeeps : keeps mode token' = keeps mode token := by
    rw [← keeps_lower, htokens, keeps_lower]
  by_cases hkept : keeps mode token = true
  · have hlexemes : kept mode place piece = [⟨token, String.ofList text, place⟩] := by
      simp only [kept, htoken, hkept, if_true]
    have hlexemes' : kept mode place piece' = [⟨token', String.ofList text', place⟩] := by
      simp only [kept, htoken', hkeeps, hkept, if_true]
    have hlength : text'.length = text.length := by simpa using congrArg List.length htexts
    obtain ⟨hstands, htext⟩ := hpiece _ htoken
    obtain ⟨hstands', htext'⟩ := hpiece' _ htoken'
    rw [hwidth] at htext'
    rw [hlexemes] at hfront
    rw [hlexemes, hlexemes']
    refine .cons ⟨Lexeme.token_eq_of_lower ?_ ?_ htokens ?_ ?_, rfl, ?_⟩ .nil
    · simpa using hstands
    · simpa using hstands'
    · simpa using hlength
    · rw [String.toList_ofList, String.toList_ofList]
      exact drop_congr htext htext' hlength fun i hi => by simpa using hfront i hi
    · simp [sameAsciiLetters, htexts]
  · simp only [kept, htoken, htoken', hkeeps, hkept]
    exact .nil

/-- **Texts that differ in the case of keywords only have the same tokens**, at the same places, and
the same is reported on them. -/
theorem Recases.forall₂_read (h : Recases mode place cs ds) :
    List.Forall₂ Lexeme.Recased (read mode place cs).lexemes (read mode place ds).lexemes ∧
      (read mode place ds).reports = (read mode place cs).reports := by
  revert ds
  refine read_induction (motive := fun mode place cs => ∀ {ds}, Recases mode place cs ds →
    List.Forall₂ Lexeme.Recased (read mode place cs).lexemes (read mode place ds).lexemes ∧
      (read mode place ds).reports = (read mode place cs).reports) ?_ ?_ ?_ mode place cs
  · -- the end of the text
    intro mode place ds h
    obtain rfl : ds = [] := by simpa using h.letters
    rw [read_nil]
    exact ⟨.cons ⟨rfl, rfl, by simp [sameAsciiLetters]⟩ .nil, rfl⟩
  · -- a blank
    intro mode place c rest hc ih ds h
    rcases ds with _ | ⟨d, behind⟩
    · simpa using h.letters
    have hletter : d.toLower = c.toLower := (List.cons.inj h.letters).1
    have hread : (read mode place (c :: rest)).lexemes =
        [] ++ (read mode (place.advance ((c :: rest).take 1)) ((c :: rest).drop 1)).lexemes := by
      rw [read_padding mode place hc]
      rfl
    obtain ⟨-, hbehind⟩ := h.cut (by simp) hread (by simp)
    have hnext : place.next d = place.next c := by
      rw [← Position.next_toLower, hletter, Position.next_toLower]
    rw [read_padding mode place hc, read_padding mode place ((isPadding_of_toLower hletter).mpr hc),
      hnext]
    exact ih hbehind
  · -- a piece, which is as long and does the same to the mode
    intro mode place c rest hc ih ds h
    rcases ds with _ | ⟨d, behind⟩
    · simpa using h.letters
    have hletter : d.toLower = c.toLower := (List.cons.inj h.letters).1
    have hletters : behind.map Char.toLower = rest.map Char.toLower := (List.cons.inj h.letters).2
    have hlower : (Piece.read mode d behind).lower = (Piece.read mode c rest).lower := by
      rw [← Piece.read_map_toLower, hletter, hletters, Piece.read_map_toLower]
    have hwidth : (Piece.read mode d behind).width = (Piece.read mode c rest).width := by
      simpa using congrArg Piece.width hlower
    have hfault : (Piece.read mode d behind).fault = (Piece.read mode c rest).fault := by
      simpa using congrArg Piece.fault hlower
    have hmode : modeBehind mode (Piece.read mode d behind) =
        modeBehind mode (Piece.read mode c rest) := by
      rw [← modeBehind_lower, hlower, modeBehind_lower]
    have hplace (w : Nat) : place.advance ((d :: behind).take w) =
        place.advance ((c :: rest).take w) := by
      rw [← Position.advance_map_toLower, List.map_take, h.letters, ← List.map_take,
        Position.advance_map_toLower]
    have hentries (mode : Mode) (c : Char) (rest : List Char) :
        ∀ entry ∈ (Piece.read mode c rest).token, entry.1.StandsIn entry.2 ∧
          entry.2 <+: (c :: rest).take (Piece.read mode c rest).width := fun entry hentry =>
      ⟨Piece.standsIn_read hentry, (Piece.isTrimmedOf_read mode c rest entry hentry).isPrefix⟩
    obtain ⟨hfront, hbehind⟩ := h.cut (Piece.fits_read mode c rest).2
      (congrArg Scan.lexemes (read_piece mode place hc)) fun l hl => by
        obtain ⟨text, htoken, hl⟩ := exists_of_mem_kept hl
        have hle : text.length ≤ _ := (hentries mode c rest _ htoken).2.length_le
        rw [List.length_take] at hle
        rw [hl, String.length_ofList]
        exact ⟨rfl, by omega⟩
    obtain ⟨hlexemes, hreports⟩ := ih hbehind
    rw [read_piece mode place hc, read_piece mode place (mt (isPadding_of_toLower hletter).mp hc),
      hwidth, hmode, hplace]
    refine ⟨List.rel_append
      (forall₂_kept hlower (hentries mode c rest) (hentries mode d behind) hfront) hlexemes, ?_⟩
    simp only [made, hfault, hreports]

end Scan

end QuestScript
