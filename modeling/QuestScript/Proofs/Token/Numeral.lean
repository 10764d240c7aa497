import Mathlib.Computability.RegularExpressions
import QuestScript.Decimal.Reading
import QuestScript.Parser
import QuestScript.Proofs.Position
import QuestScript.Proofs.Text.Letters
import QuestScript.Proofs.Token.Trailing

/-!
Number literals.

The literals are the words of a regular expression (`Numeral.mem_pattern_iff`). Where a number is
read, its lexeme is the longest of them that stands there (`Numeral.isLongest_ofText`), and it is a
number when it is read as a text of its own (`Numeral.ofText?_text`).
-/

namespace QuestScript

namespace Numeral

variable {cs ds back whole fraction mark power : List Char} {c : Char} {n : Numeral}

/-! ### The language of literals -/

section

open RegularExpression (char)

/-- `[0-9]` -/
def digit : RegularExpression Char :=
  (['0', '1', '2', '3', '4', '5', '6', '7', '8', '9'].map char).sum

/-- One or none. -/
def maybe (r : RegularExpression Char) : RegularExpression Char := 1 + r

/-- One or more. -/
def repeated (r : RegularExpression Char) : RegularExpression Char := r * r.star

/-- `[eE][-+]?[0-9]+` -/
def exponentPattern : RegularExpression Char :=
  (char 'e' + char 'E') * maybe (char '-' + char '+') * repeated digit

/-- `[0-9]*\.?[0-9]+([eE][-+]?[0-9]+)?` -/
def pattern : RegularExpression Char :=
  digit.star * maybe (char '.') * repeated digit * maybe exponentPattern

end

/-- All characters are digits. -/
def IsDigits (ds : List Char) : Prop := ∀ c ∈ ds, c.isDigit = true

/-- The mark and the digits of an exponent, or of none. -/
inductive IsExponent : List Char → List Char → Prop
  | absent : IsExponent [] []
  | present {letter : Char} {sign power : List Char} (hletter : letter = 'e' ∨ letter = 'E')
    (hsign : sign = [] ∨ sign = ['-'] ∨ sign = ['+']) (hne : power ≠ []) (hpower : IsDigits power) :
    IsExponent (letter :: sign) power

/-- The parts of a literal. There are digits in front of the point or behind it. -/
structure IsLiteral (n : Numeral) : Prop where
  whole : IsDigits n.whole
  fraction : IsDigits n.fraction
  ne_nil : n.whole ≠ [] ∨ n.fraction ≠ []
  exponent : IsExponent n.mark n.power

lemma isDigit_iff_mem :
    c.isDigit = true ↔ c ∈ ['0', '1', '2', '3', '4', '5', '6', '7', '8', '9'] := by
  refine ⟨fun h => ?_, fun h => ?_⟩
  · obtain ⟨hlo, hhi⟩ := Bool.and_eq_true_iff.mp h
    have hbounds : 48 ≤ c.toNat ∧ c.toNat ≤ 57 := ⟨of_decide_eq_true hlo, of_decide_eq_true hhi⟩
    have hall : ∀ n ∈ List.range' 48 10,
        Char.ofNat n ∈ ['0', '1', '2', '3', '4', '5', '6', '7', '8', '9'] := by decide
    have hmem := hall c.toNat (by rw [List.mem_range'_1]; omega)
    rwa [Char.ofNat_toNat] at hmem
  · have hall : ['0', '1', '2', '3', '4', '5', '6', '7', '8', '9'].all Char.isDigit = true := by
      decide
    exact List.all_eq_true.mp hall c h

lemma mem_sum_char (ds : List Char) :
    cs ∈ (ds.map RegularExpression.char).sum.matches' ↔ ∃ c ∈ ds, cs = [c] := by
  induction ds with
  | nil => simp
  | cons d ds ih =>
    rw [List.map_cons, List.sum_cons, RegularExpression.matches'_add, Language.mem_add, ih,
      List.exists_mem_cons_iff]
    rfl

lemma mem_digit : cs ∈ digit.matches' ↔ ∃ c, c.isDigit = true ∧ cs = [c] := by
  rw [digit, mem_sum_char]
  simp only [isDigit_iff_mem]

lemma mem_star_digit : cs ∈ digit.star.matches' ↔ IsDigits cs := by
  rw [RegularExpression.matches'_star, Language.mem_kstar]
  constructor
  · rintro ⟨words, rfl, hwords⟩ c hc
    obtain ⟨word, hword, hc⟩ := List.mem_flatten.mp hc
    obtain ⟨d, hd, rfl⟩ := mem_digit.mp (hwords word hword)
    rwa [List.mem_singleton.mp hc]
  · intro h
    refine ⟨cs.map ([·]), (List.flatMap_singleton' cs).symm, fun word hword => ?_⟩
    obtain ⟨c, hc, rfl⟩ := List.mem_map.mp hword
    exact mem_digit.mpr ⟨c, h c hc, rfl⟩

lemma mem_repeated_digit : cs ∈ (repeated digit).matches' ↔ cs ≠ [] ∧ IsDigits cs := by
  rw [repeated, RegularExpression.matches'_mul, Language.mem_mul]
  constructor
  · rintro ⟨first, hfirst, rest, hrest, rfl⟩
    obtain ⟨c, hc, rfl⟩ := mem_digit.mp hfirst
    exact ⟨by simp, List.forall_mem_cons.mpr ⟨hc, mem_star_digit.mp hrest⟩⟩
  · rintro ⟨hne, h⟩
    obtain ⟨c, rest, rfl⟩ := List.exists_cons_of_ne_nil hne
    obtain ⟨hc, hrest⟩ := List.forall_mem_cons.mp h
    exact ⟨[c], mem_digit.mpr ⟨c, hc, rfl⟩, rest, mem_star_digit.mpr hrest, rfl⟩

lemma mem_maybe {r : RegularExpression Char} :
    cs ∈ (maybe r).matches' ↔ cs = [] ∨ cs ∈ r.matches' := by
  simp [maybe, Language.mem_add]

lemma mem_either {d : Char} :
    cs ∈ (RegularExpression.char c + RegularExpression.char d).matches' ↔ cs = [c] ∨ cs = [d] :=
  Iff.rfl

lemma mem_exponentPattern :
    cs ∈ (maybe exponentPattern).matches' ↔
      ∃ mark power, IsExponent mark power ∧ mark ++ power = cs := by
  rw [mem_maybe, exponentPattern, RegularExpression.matches'_mul, RegularExpression.matches'_mul]
  simp only [Language.mem_mul, mem_either, mem_maybe, mem_repeated_digit]
  constructor
  · rintro (rfl | ⟨_, ⟨letter, hletter, sign, hsign, rfl⟩, power, ⟨hne, hpower⟩, rfl⟩)
    · exact ⟨[], [], .absent, rfl⟩
    · obtain ⟨c, rfl, hc⟩ : ∃ c, letter = [c] ∧ (c = 'e' ∨ c = 'E') := by
        rcases hletter with rfl | rfl
        · exact ⟨_, rfl, .inl rfl⟩
        · exact ⟨_, rfl, .inr rfl⟩
      exact ⟨_, power, .present hc hsign hne hpower, rfl⟩
  · rintro ⟨mark, power, hexponent, rfl⟩
    cases hexponent with
    | absent => exact .inl rfl
    | @present letter sign _ hletter hsign hne hpower =>
      have hword : [letter] = ['e'] ∨ [letter] = ['E'] :=
        hletter.imp (congrArg ([·])) (congrArg ([·]))
      exact .inr ⟨_, ⟨[letter], hword, sign, hsign, rfl⟩, power, ⟨hne, hpower⟩, rfl⟩

/-- **The words of the pattern are the literals.** -/
theorem mem_pattern_iff : cs ∈ pattern.matches' ↔ ∃ n : Numeral, n.IsLiteral ∧ n.text = cs := by
  rw [pattern, RegularExpression.matches'_mul, RegularExpression.matches'_mul,
    RegularExpression.matches'_mul]
  simp only [Language.mem_mul, mem_star_digit, mem_exponentPattern, mem_repeated_digit]
  constructor
  · rintro ⟨_, ⟨_, ⟨whole, hwhole, point, hpoint, rfl⟩, fraction, ⟨hne, hfraction⟩, rfl⟩, _,
      ⟨mark, power, hexponent, rfl⟩, rfl⟩
    rcases mem_maybe.mp hpoint with rfl | hpoint
    · -- Without a point all digits stand in front of where it would be.
      have hdigits : IsDigits (whole ++ fraction) := List.forall_mem_append.mpr ⟨hwhole, hfraction⟩
      exact ⟨⟨whole ++ fraction, [], mark, power⟩,
        ⟨hdigits, by simp [IsDigits], by simp [hne], hexponent⟩, by simp [text, pointed]⟩
    · obtain rfl : point = ['.'] := hpoint
      exact ⟨⟨whole, fraction, mark, power⟩, ⟨hwhole, hfraction, .inr hne, hexponent⟩,
        by simp [text, pointed, hne]⟩
  · -- a numeral is written with a point exactly if it has a fraction
    rintro ⟨n, h, rfl⟩
    by_cases hfraction : n.fraction = []
    · have hne : n.whole ≠ [] := h.ne_nil.resolve_right (not_not_intro hfraction)
      refine ⟨n.whole, ⟨[], ⟨[], by simp [IsDigits], [], mem_maybe.mpr (.inl rfl), rfl⟩, n.whole,
        ⟨hne, h.whole⟩, rfl⟩, _, ⟨_, _, h.exponent, rfl⟩, ?_⟩
      simp [text, pointed, hfraction]
    · refine ⟨_, ⟨_, ⟨n.whole, h.whole, ['.'], mem_maybe.mpr (.inr rfl), rfl⟩, n.fraction,
        ⟨hfraction, h.fraction⟩, rfl⟩, _, ⟨_, _, h.exponent, rfl⟩, ?_⟩
      simp [text, pointed, hfraction]

/-! ### Digits and points -/

lemma pointed_of_ne_nil (h : fraction ≠ []) : pointed fraction = '.' :: fraction :=
  if_neg (by simpa using h)

lemma ne_of_isDigit {d : Char} (hc : c.isDigit = true) (hd : d.isDigit = false) : c ≠ d := by
  rintro rfl
  simp [hc] at hd

lemma isDigits_digits (cs : List Char) : IsDigits (digits cs) :=
  fun _ hc => List.mem_takeWhile_imp hc

lemma digits_append (h : IsDigits ds) (rest : List Char) :
    digits (ds ++ rest) = ds ++ digits rest :=
  List.takeWhile_append_of_pos h

lemma digits_of_head? (h : ∀ c ∈ cs.head?, c.isDigit = false) : digits cs = [] := by
  cases cs with
  | nil => rfl
  | cons c cs => exact List.takeWhile_cons_of_neg (by simp [h c rfl])

lemma digits_append_of_head? (hds : IsDigits ds) (h : ∀ c ∈ cs.head?, c.isDigit = false) :
    digits (ds ++ cs) = ds := by
  rw [digits_append hds, digits_of_head? h, List.append_nil]

lemma IsExponent.head? (h : IsExponent mark power) (back : List Char) (hne : mark ++ power ≠ []) :
    ∀ c ∈ (mark ++ power ++ back).head?, c = 'e' ∨ c = 'E' := by
  cases h with
  | absent => exact absurd rfl hne
  | present hletter => simpa using hletter

lemma IsExponent.head?_pointed (h : IsExponent mark power) (fraction : List Char) :
    ∀ c ∈ (pointed fraction ++ (mark ++ power)).head?, c.isDigit = false := by
  intro c hc
  by_cases hfraction : fraction = []
  · have hmark : c ∈ (mark ++ power ++ []).head? := by simpa [pointed, hfraction] using hc
    have hne : mark ++ power ≠ [] := by
      rintro hnil
      simp [hnil] at hmark
    rcases h.head? [] hne c hmark with rfl | rfl <;> rfl
  · obtain rfl : '.' = c := by simpa [pointed, hfraction] using hc
    rfl

/-! ### The literal at the start of a text -/

/-- The exponent at the start of the text, as it is written. -/
def exponentText (cs : List Char) : List Char := (exponentAt cs).1 ++ (exponentAt cs).2

/-- The point, the digits behind it and the exponent at the start of the text. -/
def behindWhole (cs : List Char) : List Char :=
  pointed (fractionAt cs) ++ exponentText (cs.drop (pointed (fractionAt cs)).length)

lemma text_ofText (cs : List Char) :
    (ofText cs).text = digits cs ++ behindWhole (cs.drop (digits cs).length) := by
  simp [ofText, text, behindWhole, exponentText, List.drop_drop]

lemma text_eq (n : Numeral) : n.text = n.whole ++ (pointed n.fraction ++ (n.mark ++ n.power)) := by
  simp [text]

lemma fractionAt_point (rest : List Char) : fractionAt ('.' :: rest) = digits rest := by
  simp [fractionAt]

lemma fractionAt_of_head? (h : ∀ c ∈ cs.head?, c ≠ '.') : fractionAt cs = [] := by
  cases cs with
  | nil => rfl
  | cons c cs => exact if_neg (h c rfl)

lemma fractionAt_cases (cs : List Char) : (∃ rest, cs = '.' :: rest) ∨ fractionAt cs = [] := by
  by_cases hpoint : cs.head? = some '.'
  · exact .inl (List.head?_eq_some_iff.mp hpoint)
  · exact .inr (fractionAt_of_head? fun c hc heq => hpoint (heq ▸ hc))

lemma isDigits_fractionAt (cs : List Char) : IsDigits (fractionAt cs) := by
  rcases fractionAt_cases cs with ⟨rest, rfl⟩ | hnone
  · exact fractionAt_point rest ▸ isDigits_digits rest
  · simp [hnone, IsDigits]

/-- The sign at the start of the text, if there is one. -/
def signAt (cs : List Char) : List Char := (cs.take 1).filter fun d => d = '+' || d = '-'

lemma signAt_isPrefix (cs : List Char) : signAt cs <+: cs := by
  cases cs with
  | nil => simp [signAt]
  | cons c cs => by_cases hc : c = '+' ∨ c = '-' <;> simp [signAt, hc]

lemma signAt_eq (cs : List Char) : signAt cs = [] ∨ signAt cs = ['-'] ∨ signAt cs = ['+'] := by
  cases cs with
  | nil => simp [signAt]
  | cons c cs => by_cases hp : c = '+' <;> by_cases hm : c = '-' <;> simp [signAt, hp, hm]

lemma signAt_append {sign rest : List Char} (h : sign = [] ∨ sign = ['-'] ∨ sign = ['+'])
    (hc : c.isDigit = true) : signAt (sign ++ c :: rest) = sign := by
  rcases h with rfl | rfl | rfl
  · simp [signAt, ne_of_isDigit hc (d := '+') rfl, ne_of_isDigit hc (d := '-') rfl]
  · rfl
  · rfl

lemma exponentAt_cons (h : c = 'e' ∨ c = 'E') (rest : List Char) :
    exponentAt (c :: rest) =
      if (digits (rest.drop (signAt rest).length)).isEmpty then ([], [])
      else (c :: signAt rest, digits (rest.drop (signAt rest).length)) :=
  if_pos (by simpa using h)

lemma exponentAt_of_ne (h : ¬(c = 'e' ∨ c = 'E')) (rest : List Char) :
    exponentAt (c :: rest) = ([], []) :=
  if_neg (by simpa using h)

lemma isExponent_exponentAt (cs : List Char) : IsExponent (exponentAt cs).1 (exponentAt cs).2 := by
  rcases cs with _ | ⟨c, cs⟩
  · exact .absent
  by_cases hletter : c = 'e' ∨ c = 'E'
  · rw [exponentAt_cons hletter]
    split
    · exact .absent
    · next hpower =>
      exact .present hletter (signAt_eq cs) (by simpa using hpower) (isDigits_digits _)
  · rw [exponentAt_of_ne hletter]
    exact .absent

lemma digits_isPrefix (cs : List Char) : digits cs <+: cs := List.takeWhile_prefix _

lemma append_isPrefix {front : List Char} (hfront : front <+: cs)
    (hback : back <+: cs.drop front.length) : front ++ back <+: cs := by
  obtain ⟨rest, rfl⟩ := hfront
  rw [List.drop_left] at hback
  exact (List.prefix_append_right_inj front).mpr hback

lemma pointed_fractionAt_isPrefix (cs : List Char) : pointed (fractionAt cs) <+: cs := by
  by_cases hne : fractionAt cs = []
  · rw [hne]
    exact List.nil_prefix
  · obtain ⟨rest, rfl⟩ := (fractionAt_cases cs).resolve_right hne
    rw [pointed_of_ne_nil hne, fractionAt_point]
    exact (List.prefix_cons_inj '.').mpr (digits_isPrefix rest)

lemma exponentText_isPrefix (cs : List Char) : exponentText cs <+: cs := by
  rcases cs with _ | ⟨c, cs⟩
  · exact List.nil_prefix
  by_cases hletter : c = 'e' ∨ c = 'E'
  · rw [exponentText, exponentAt_cons hletter]
    split
    · exact List.nil_prefix
    · exact (List.prefix_cons_inj c).mpr (append_isPrefix (signAt_isPrefix cs) (digits_isPrefix _))
  · rw [exponentText, exponentAt_of_ne hletter]
    exact List.nil_prefix

lemma text_ofText_isPrefix (cs : List Char) : (ofText cs).text <+: cs := by
  rw [text_ofText]
  refine append_isPrefix (digits_isPrefix cs) ?_
  exact append_isPrefix (pointed_fractionAt_isPrefix _) (exponentText_isPrefix _)

lemma isLiteral_ofText {rest : List Char}
    (h : (c.isDigit || (c = '.' && rest.head?.any Char.isDigit)) = true) :
    (ofText (c :: rest)).IsLiteral := by
  refine ⟨isDigits_digits _, isDigits_fractionAt _, ?_, isExponent_exponentAt _⟩
  by_cases hc : c.isDigit = true
  · exact .inl (by simp [ofText, digits, hc])
  · obtain ⟨rfl, hrest⟩ : c = '.' ∧ rest.head?.any Char.isDigit = true := by simpa [hc] using h
    rcases rest with _ | ⟨d, rest⟩
    · simp at hrest
    · have hd : d.isDigit = true := by simpa using hrest
      exact .inr (by simp [ofText, fractionAt, digits, hd])

/-! ### The longest literal -/

lemma IsExponent.isPrefix (h : IsExponent mark power) (back : List Char) :
    mark ++ power <+: exponentText (mark ++ power ++ back) := by
  cases h with
  | absent => exact List.nil_prefix
  | @present letter sign _ hletter hsign hne hpower =>
    obtain ⟨d, ds, rfl⟩ := List.exists_cons_of_ne_nil hne
    have hsignAt : signAt (sign ++ (d :: ds ++ back)) = sign :=
      signAt_append hsign (hpower d List.mem_cons_self)
    have htext : exponentText (letter :: (sign ++ (d :: ds ++ back))) =
        letter :: (sign ++ (d :: ds ++ digits back)) := by
      rw [exponentText, exponentAt_cons hletter, hsignAt, List.drop_left, digits_append hpower]
      simp
    rw [List.append_assoc, List.cons_append, List.cons_append, htext]
    exact (List.prefix_cons_inj letter).mpr ((List.prefix_append_right_inj sign).mpr
      (List.prefix_append _ _))

lemma behindWhole_of_head? (h : ∀ c ∈ cs.head?, c ≠ '.') : behindWhole cs = exponentText cs := by
  simp [behindWhole, fractionAt_of_head? h, pointed]

lemma behindWhole_point {rest : List Char} (h : digits rest ≠ []) :
    behindWhole ('.' :: rest) =
      '.' :: (digits rest ++ exponentText (rest.drop (digits rest).length)) := by
  simp [behindWhole, fractionAt_point, pointed, h]

lemma IsExponent.isPrefix_behindWhole (h : IsExponent mark power) (hfraction : IsDigits fraction)
    (back : List Char) : pointed fraction ++ (mark ++ power) <+:
      behindWhole (pointed fraction ++ (mark ++ power) ++ back) := by
  by_cases hnone : fraction = []
  · -- nothing stands between the whole part and the exponent
    have hpointed : pointed fraction = [] := by rw [hnone]; rfl
    rw [hpointed, List.nil_append]
    by_cases hexponent : mark ++ power = []
    · rw [hexponent]
      exact List.nil_prefix
    · have hhead := h.head? back hexponent
      rw [behindWhole_of_head? fun c hc => by rcases hhead c hc with rfl | rfl <;> decide]
      exact h.isPrefix back
  · -- the point, and the fraction up to the exponent
    simp only [pointed_of_ne_nil hnone, List.cons_append, List.append_assoc]
    rw [behindWhole_point (by simp [digits_append hfraction, hnone])]
    refine (List.prefix_cons_inj '.').mpr ?_
    by_cases hexponent : mark ++ power = []
    · obtain ⟨rfl, rfl⟩ := List.append_eq_nil_iff.mp hexponent
      rw [digits_append hfraction, List.append_assoc]
      exact (List.prefix_append_right_inj fraction).mpr List.nil_prefix
    · have hhead := h.head? back hexponent
      rw [List.append_assoc] at hhead
      rw [digits_append_of_head? hfraction fun c hc => by rcases hhead c hc with rfl | rfl <;> rfl,
        List.drop_left]
      have hprefix := h.isPrefix back
      rw [List.append_assoc] at hprefix
      exact (List.prefix_append_right_inj fraction).mpr hprefix

/-- Whatever follows a literal, what is read from the text begins with it. -/
theorem IsLiteral.isPrefix (h : n.IsLiteral) (back : List Char) :
    n.text <+: (ofText (n.text ++ back)).text := by
  rw [text_ofText, text_eq, List.append_assoc]
  by_cases hnone : pointed n.fraction ++ (n.mark ++ n.power) = []
  · rw [hnone, List.append_nil, List.nil_append, digits_append h.whole, List.append_assoc]
    exact List.prefix_append _ _
  · have hhead : ∀ c ∈ (pointed n.fraction ++ (n.mark ++ n.power) ++ back).head?,
        c.isDigit = false := by
      obtain ⟨c, rest, hrest⟩ := List.exists_cons_of_ne_nil hnone
      have hpointed := h.exponent.head?_pointed n.fraction
      rw [hrest] at hpointed ⊢
      exact hpointed
    rw [digits_append_of_head? h.whole hhead, List.drop_left]
    exact (List.prefix_append_right_inj n.whole).mpr
      (h.exponent.isPrefix_behindWhole h.fraction back)

/-- A word of the language that the text begins with, and the longest one. -/
structure IsLongest (L : Language Char) (word text : List Char) : Prop where
  mem : word ∈ L
  isPrefix : word <+: text
  length_le {other : List Char} (h : other ∈ L) (hother : other <+: text) :
    other.length ≤ word.length

/-- **Numbers are read by maximal munch.** -/
theorem isLongest_ofText {rest : List Char}
    (h : (c.isDigit || (c = '.' && rest.head?.any Char.isDigit)) = true) :
    IsLongest pattern.matches' (ofText (c :: rest)).text (c :: rest) where
  mem := mem_pattern_iff.mpr ⟨_, isLiteral_ofText h, rfl⟩
  isPrefix := text_ofText_isPrefix _
  length_le hother hprefix := by
    obtain ⟨n, hn, rfl⟩ := mem_pattern_iff.mp hother
    obtain ⟨back, heq⟩ := hprefix
    rw [← heq]
    exact (hn.isPrefix back).length_le

/-! ### The value of a literal -/

open Binary64 (natural? exponent? mantissa decimal? unsigned?)

lemma natural?_eq (hne : ds ≠ []) (h : IsDigits ds) : natural? ds = some (digitsValue ds) := by
  have hall : ds.all Char.isDigit = true := List.all_eq_true.mpr h
  simp [natural?, hne, hall]

lemma exponent?_digits (hc : c = 'e' ∨ c = 'E') (hne : ds ≠ []) (h : IsDigits ds) :
    exponent? (c :: ds) = some (digitsValue ds : Int) := by
  have hhead {d : Char} {rest : List Char} (hd : d.isDigit = false) : ds ≠ d :: rest := by
    rintro rfl
    simp [h d List.mem_cons_self] at hd
  rw [exponent?, if_pos (by simpa using hc), natural?_eq hne h]
  · rfl
  · exact fun rest => hhead rfl
  · exact fun rest => hhead rfl

lemma exponent?_eq (h : IsExponent n.mark n.power) :
    exponent? (n.mark ++ n.power) = some n.exponent := by
  obtain ⟨whole, fraction, mark, power⟩ := n
  simp only [exponent] at h ⊢
  cases h with
  | absent => rfl
  | @present letter sign _ hletter hsign hne hpower =>
    rcases hsign with rfl | rfl | rfl
    · rw [List.singleton_append, exponent?_digits hletter hne hpower]
      rcases hletter with rfl | rfl <;> rfl
    · rcases hletter with rfl | rfl <;> simp [exponent?, natural?_eq hne hpower]
    · rcases hletter with rfl | rfl <;> simp [exponent?, natural?_eq hne hpower]

lemma IsLiteral.mantissa_text (h : n.IsLiteral) :
    mantissa n.text = (n.whole, n.fraction, n.mark ++ n.power) := by
  have hwhole : digits n.text = n.whole := by
    rw [text_eq, digits_append_of_head? h.whole (h.exponent.head?_pointed n.fraction)]
  have hdrop : n.text.drop n.whole.length = pointed n.fraction ++ (n.mark ++ n.power) := by
    rw [text_eq, List.drop_left]
  simp only [mantissa, hwhole, hdrop]
  by_cases hfraction : n.fraction = []
  · have hpointed : pointed n.fraction = [] := by rw [hfraction]; rfl
    rw [hpointed, List.nil_append, hfraction]
    split
    · next heq =>
      rcases h.exponent.head? [] (by simp [heq]) '.' (by simp [heq]) with hletter | hletter
      · exact absurd hletter (by decide)
      · exact absurd hletter (by decide)
    · rfl
  · have hhead : ∀ c ∈ (n.mark ++ n.power).head?, c.isDigit = false := h.exponent.head?_pointed []
    simp only [pointed_of_ne_nil hfraction, List.cons_append,
      digits_append_of_head? h.fraction hhead, List.drop_left]

lemma IsLiteral.exists_cons (h : n.IsLiteral) :
    ∃ c rest, n.text = c :: rest ∧ (c.isDigit = true ∨ c = '.') := by
  rcases hwhole : n.whole with _ | ⟨c, rest⟩
  · have hfraction : n.fraction ≠ [] := h.ne_nil.resolve_left (not_not_intro hwhole)
    exact ⟨'.', _, by rw [text_eq, hwhole, pointed_of_ne_nil hfraction]; rfl, .inr rfl⟩
  · have hc := h.whole c (hwhole ▸ List.mem_cons_self)
    exact ⟨c, _, by rw [text_eq, hwhole]; rfl, .inl hc⟩

/-- **A literal is a number**, and its value is that of the number. -/
theorem IsLiteral.ofText?_text (h : n.IsLiteral) : Binary64.ofText? n.text = some n.value := by
  have hdecimal : decimal? n.text = some n.value := by
    have hne : ¬(n.whole.isEmpty && n.fraction.isEmpty) = true := by
      simpa [-not_and, not_and_or] using h.ne_nil
    simp only [decimal?, h.mantissa_text, if_neg hne, exponent?_eq h.exponent, Option.map_some]
    rfl
  obtain ⟨c, rest, htext, hc⟩ := h.exists_cons
  -- So it starts with none of the characters that signs and names start with.
  have hne {b d : Char} (hb : b.isDigit = true ∨ b = '.') (hd : d.isDigit = false)
      (hpoint : '.' ≠ d) : b ≠ d := by
    rcases hb with hdigit | rfl
    · exact ne_of_isDigit hdigit hd
    · exact hpoint
  have hlower : c.toLower.isDigit = true ∨ c.toLower = '.' := by
    rcases hc with hdigit | rfl
    · exact .inl (by rwa [Text.isDigit_toLower])
    · exact .inr rfl
  have hunsigned : unsigned? n.text = some n.value := by
    rw [← hdecimal, htext]
    simp [unsigned?, hne (d := 'i') hlower rfl (by decide), hne (d := 'n') hlower rfl (by decide)]
  rw [htext] at hunsigned ⊢
  unfold Binary64.ofText?
  split
  · next heq => exact absurd (List.cons.inj heq).1 (hne hc rfl (by decide))
  · next heq => exact absurd (List.cons.inj heq).1 (hne hc rfl (by decide))
  · exact hunsigned

lemma IsLiteral.getLast? (h : n.IsLiteral) : ∀ c ∈ n.text.getLast?, c.isDigit = true := by
  obtain ⟨front, ds, htext, hne, hds⟩ :
      ∃ front ds, n.text = front ++ ds ∧ ds ≠ [] ∧ IsDigits ds := by
    obtain ⟨whole, fraction, mark, power⟩ := n
    obtain ⟨hwhole, hfraction, hsome, hexponent⟩ := h
    simp only at hwhole hfraction hsome hexponent
    cases hexponent with
    | present _ _ hne hpower => exact ⟨_, _, rfl, hne, hpower⟩
    | absent =>
      by_cases hnone : fraction = []
      · exact ⟨[], whole, by simp [text, pointed, hnone], hsome.resolve_right (not_not_intro hnone),
          hwhole⟩
      · exact ⟨whole ++ ['.'], fraction, by simp [text, pointed, hnone], hnone, hfraction⟩
  rw [htext, List.getLast?_append_of_ne_nil _ hne]
  exact fun c hc => hds c (List.mem_of_getLast? hc)

end Numeral

/-! ### Number tokens -/

namespace Piece

open Text

variable {mode : Mode} {c : Char} {rest text : List Char} {value : Binary64}

lemma ofNumber_eq (h : (c.isDigit || (c = '.' && rest.head?.any Char.isDigit)) = true) :
    ofNumber (c :: rest) =
      let n := Numeral.ofText (c :: rest)
      ⟨n.text.length, some (.number n.value, n.text), none⟩ := by
  -- The last character is a digit, so no blanks are trimmed from the lexeme.
  have hlast : ∀ d ∈ (Numeral.ofText (c :: rest)).text.getLast?, isBlank d = false := fun d hd => by
    have hdigit := (Numeral.isLiteral_ofText h).getLast? d hd
    by_contra hblank
    simp [isDigit_of_isBlank (by simpa using hblank)] at hdigit
  have htake := List.prefix_iff_eq_take.mp (Numeral.text_ofText_isPrefix (c :: rest))
  simp only [ofNumber, plain, ← htake, trimEnd, dropEndWhile_eq_self hlast]

/-- A number is read only where one starts. -/
theorem of_read_number (h : (read mode c rest).token = some (.number value, text)) :
    (c.isDigit || (c = '.' && rest.head?.any Char.isDigit)) = true ∧
      value = (Numeral.ofText (c :: rest)).value ∧ text = (Numeral.ofText (c :: rest)).text := by
  revert h
  refine read_cases (motive := fun piece => piece.token = some (.number value, text) →
    (c.isDigit || (c = '.' && rest.head?.any Char.isDigit)) = true ∧
      value = (Numeral.ofText (c :: rest)).value ∧ text = (Numeral.ofText (c :: rest)).text)
    ?lineBreak ?line ?comment ?label ?string ?number ?word ?operator
  case lineBreak => simp [ofLineBreak, plain]
  case line => simp [skipped]
  case comment =>
    intro _ _
    unfold ofComment
    simp only
    split <;> simp [plain, skipped]
  case label => simp [ofLabel]
  case string =>
    intro _
    unfold ofString
    split <;> simp [plain, wrong]
  case number =>
    intro hc h
    rw [ofNumber_eq hc] at h
    simp only [Option.some.injEq, Prod.mk.injEq, Token.number.injEq] at h
    exact ⟨hc, h.1.symm, h.2.symm⟩
  case word =>
    intro _
    refine ofWord_cases (motive := fun piece => piece.token = some (.number value, text) → _) rfl
      ?name ?mark ?carrier ?signed ?line
    case name => simp [plain]
    case mark => simp [plain]
    case carrier => simp [ofCarrier, payload]
    case signed => simp [ofCarrier, payload]
    case line => simp [skipped]
  case operator =>
    intro _
    unfold ofOperator
    split <;> simp [plain, wrong]

end Piece

/-- **Number literals.** The lexeme of a number is the longest literal of the source that begins
where the number stands. It is a number when it is read as a text of its own, and the number is the
value of the token, so a value for texts that are no numbers is never needed. -/
theorem isLongest_of_number (source : String) {l : Lexeme} {value : Binary64}
    (hl : l ∈ (tokenize source).1) (hvalue : l.token = .number value) :
    ∃ front back, source.toList = front ++ back ∧
      l.start = .ofOffset source.toList front.length ∧
      Numeral.IsLongest Numeral.pattern.matches' l.text.toList back ∧
      Binary64.ofText? l.text.toList = some value := by
  rcases Scan.eq_end_or_exists_piece hl with rfl | ⟨mode, front, c, rest, text, hsource, hplace,
    htoken, htext⟩
  · simp at hvalue
  · obtain ⟨hstarts, rfl, rfl⟩ := Piece.of_read_number (hvalue ▸ htoken)
    have hlist : l.text.toList = (Numeral.ofText (c :: rest)).text := by
      rw [htext, String.toList_ofList]
    refine ⟨front, c :: rest, hsource, ?_, ?_, ?_⟩
    · rw [hplace, Position.advance_start_left front (c :: rest), hsource]
    · rw [hlist]
      exact Numeral.isLongest_ofText hstarts
    · rw [hlist]
      exact (Numeral.isLiteral_ofText hstarts).ofText?_text

/-- A literal right behind another one, and an exponent that has no digits. -/
theorem isLongest_of_number_sample :
    ⟨.number ⟨0x4014000000000000⟩, ".5e+1", ⟨1, 7⟩⟩ ∈ (tokenize "x = .5.5e+1 + 1e+").1 ∧
      ∃ front back, "x = .5.5e+1 + 1e+".toList = front ++ back ∧
        (⟨1, 7⟩ : Position) = .ofOffset "x = .5.5e+1 + 1e+".toList front.length ∧
        Numeral.IsLongest Numeral.pattern.matches' ".5e+1".toList back ∧
        Binary64.ofText? ".5e+1".toList = some ⟨0x4014000000000000⟩ := by
  have hl : ⟨.number ⟨0x4014000000000000⟩, ".5e+1", ⟨1, 7⟩⟩ ∈
      (tokenize "x = .5.5e+1 + 1e+").1 := by decide +kernel
  exact ⟨hl, isLongest_of_number "x = .5.5e+1 + 1e+" hl rfl⟩

end QuestScript
