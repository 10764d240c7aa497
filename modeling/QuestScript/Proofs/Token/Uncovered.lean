import QuestScript.Parser
import QuestScript.Proofs.Statement.Fields
import QuestScript.Proofs.Token.Standing
import QuestScript.Proofs.Token.Stop

/-!
What payloads hold outside of their link spans.

The search for the end of a payload and the search for the comma of a button step over the same link
spans, so both only come to places that no span covers (`Payload.reaches_extentOf`). A payload
thus holds no uncovered ampersand, but in the first field of a button, and no uncovered `else` where
one would end it (`Payload.uncovered_extentOf`). Cutting the payload out of its line and blanks off
its end leaves the spans as they are, so this can be told from the payload alone, and the comma of
the button is where its fields are split (`uncovered_of_payload`).
-/

namespace QuestScript

open Text
open LinkSpan (Covers Reaches stride)

namespace LinkSpan

lemma getElem?_length? {cs : List Char} {n : Nat} (h : length? cs = some n) :
    cs[n - 1]? = some ']' := by
  obtain ⟨inner, hinner, rfl⟩ := Option.map_eq_some_iff.mp h
  obtain ⟨rest, rfl, -, -⟩ := eq_append_of_inner? hinner
  simp

end LinkSpan

namespace Payload

variable {elseEnds fresh : Bool} {c : Char} {rest cs : List Char} {k n : Nat}

/-! ### The two searches -/

/-- Where an `else` would end a payload, none stands at the given place of the text. -/
def NoElseAt (elseEnds fresh : Bool) (cs : List Char) (k : Nat) : Prop :=
  elseEnds = true → freshAt fresh cs k = true → startsElse (cs.drop k) = false

lemma freshAt_step (fresh : Bool) (c : Char) (rest : List Char) (k : Nat) :
    freshAt fresh (c :: rest) (k + stride (c :: rest) + 1) =
      freshAt (stride (c :: rest) = 0 && isGap c) (rest.drop (stride (c :: rest))) k := by
  cases k with
  | succ k =>
    simp only [freshAt, List.getElem?_drop]
    rw [Nat.add_right_comm, List.getElem?_cons_succ, Nat.add_comm]
  | zero =>
    rw [Nat.zero_add, freshAt, freshAt]
    rcases hspan : LinkSpan.length? (c :: rest) with _ | n
    · simp [LinkSpan.stride_of_none hspan]
    · have hstride := LinkSpan.stride_of_some hspan
      have hlong := (LinkSpan.length?_le hspan).1
      have hlast := LinkSpan.getElem?_length? hspan
      rw [← hstride, Nat.add_sub_cancel] at hlast
      have hne : stride (c :: rest) ≠ 0 := by omega
      simp [hlast, hne, isGap]

lemma noElseAt_step (h : NoElseAt elseEnds (stride (c :: rest) = 0 && isGap c)
    (rest.drop (stride (c :: rest))) k) :
    NoElseAt elseEnds fresh (c :: rest) (k + stride (c :: rest) + 1) := by
  intro hends hfresh
  rw [freshAt_step] at hfresh
  rw [List.drop_succ_cons, Nat.add_comm, ← List.drop_drop]
  exact h hends hfresh

lemma noElseAt_zero (h : ¬(elseEnds && fresh && startsElse cs) = true) :
    NoElseAt elseEnds fresh cs 0 := by
  intro hends hfresh
  simpa [hends, show fresh = true from hfresh] using h

lemma reaches_extent (elseEnds fresh : Bool) (cs : List Char) :
    Reaches cs (extent elseEnds fresh cs).1 := by
  fun_induction extent elseEnds fresh cs with
  | case1 => exact .start _
  | case2 => exact .start _
  | case3 => exact .start _
  | case4 => exact .start _
  | case5 fresh c rest _ _ _ more tail ih => exact .step ih

lemma uncovered_extent (elseEnds fresh : Bool) (cs : List Char) :
    ∀ k < (extent elseEnds fresh cs).1, ¬Covers cs k →
      cs[k]? ≠ some '&' ∧ NoElseAt elseEnds fresh cs k := by
  fun_induction extent elseEnds fresh cs with
  | case1 => simp
  | case2 => simp
  | case3 => simp
  | case4 => simp
  | case5 fresh c rest _ hampersand helse more tail ih =>
    refine LinkSpan.forall_uncovered (fun _ => ⟨by simpa using hampersand, noElseAt_zero helse⟩)
      fun j hj hcovers => ?_
    obtain ⟨hne, hno⟩ := ih j hj hcovers
    refine ⟨?_, noElseAt_step hno⟩
    rwa [List.getElem?_cons_succ, Nat.add_comm, ← List.getElem?_drop]

lemma freshAt_extent (h : (extent elseEnds fresh cs).2 = .elseWord) :
    freshAt fresh cs (extent elseEnds fresh cs).1 = true := by
  fun_induction extent elseEnds fresh cs with
  | case1 => simp at h
  | case2 => simp at h
  | case3 => simp at h
  | case4 fresh c rest _ _ helse =>
    simp only [Bool.and_eq_true] at helse
    exact helse.1.2
  | case5 fresh c rest _ _ _ more tail ih =>
    exact (freshAt_step fresh c rest tail.1).trans (ih h)

lemma reaches_comma? (h : comma? elseEnds fresh cs = some n) : Reaches cs n := by
  fun_induction comma? elseEnds fresh cs generalizing n with
  | case1 => simp at h
  | case2 => simp at h
  | case3 =>
    obtain rfl : 0 = n := by simpa using h
    exact .start _
  | case4 => simp at h
  | case5 fresh c rest _ _ _ more =>
    rename_i ih
    obtain ⟨j, hj, rfl⟩ := Option.map_eq_some_iff.mp h
    exact .step (ih hj)

lemma uncovered_comma? (h : comma? elseEnds fresh cs = some n) :
    cs[n]? = some ',' ∧ ∀ k < n, ¬Covers cs k →
      cs[k]? ≠ some ',' ∧ NoElseAt elseEnds fresh cs k := by
  fun_induction comma? elseEnds fresh cs generalizing n with
  | case1 => simp at h
  | case2 => simp at h
  | case3 =>
    obtain rfl : 0 = n := by simpa using h
    simp
  | case4 => simp at h
  | case5 fresh c rest _ hcomma helse more =>
    rename_i ih
    obtain ⟨j, hj, rfl⟩ := Option.map_eq_some_iff.mp h
    obtain ⟨hat, hbefore⟩ := ih hj
    refine ⟨by rwa [List.getElem?_cons_succ, Nat.add_comm, ← List.getElem?_drop], ?_⟩
    refine LinkSpan.forall_uncovered (fun _ => ⟨by simpa using hcomma, noElseAt_zero helse⟩)
      fun i hi hcovers => ?_
    obtain ⟨hne, hno⟩ := hbefore i hi hcovers
    refine ⟨?_, noElseAt_step hno⟩
    rwa [List.getElem?_cons_succ, Nat.add_comm, ← List.getElem?_drop]

/-! ### The extent of payloads -/

lemma drop_comma? (h : comma? elseEnds fresh cs = some n) : ∃ rest, cs.drop n = ',' :: rest :=
  List.head?_eq_some_iff.mp (by rw [List.head?_drop, (uncovered_comma? h).1])

lemma reaches_behind_comma? (h : comma? elseEnds fresh cs = some n) : Reaches cs (n + 1) := by
  refine (reaches_comma? h).trans ?_
  obtain ⟨rest, hrest⟩ := drop_comma? h
  have hstride : stride (',' :: rest) = 0 :=
    LinkSpan.stride_of_none (LinkSpan.length?_of_ne rest (by decide))
  have hstep := Reaches.step (Reaches.start (rest.drop (stride (',' :: rest))))
  rwa [hstride, ← hrest] at hstep

lemma freshAt_drop (h : freshAt true cs (n + 1 + k) = true) :
    freshAt true (cs.drop (n + 1)) k = true := by
  cases k with
  | zero => rfl
  | succ k => simpa [freshAt, List.getElem?_drop, Nat.add_assoc] using h

/-- The end of a payload is outside of its link spans. -/
theorem reaches_extentOf (carrier : Carrier) (elseEnds : Bool) (cs : List Char) :
    Reaches cs (extentOf carrier elseEnds cs).1 := by
  unfold extentOf buttonExtent
  split
  · split
    · next n h =>
      have hend := (reaches_behind_comma? h).trans (reaches_extent elseEnds true (cs.drop (n + 1)))
      rwa [Nat.add_comm (n + 1)] at hend
    · exact reaches_extent elseEnds true cs
  · exact reaches_extent elseEnds true cs

/-- **What payloads hold outside of their link spans.** There is no `else` that would end the
payload, and no ampersand either, but in front of the comma of a button. -/
theorem uncovered_extentOf (carrier : Carrier) (elseEnds : Bool) (cs : List Char) :
    ∀ k < (extentOf carrier elseEnds cs).1, ¬Covers cs k → NoElseAt elseEnds true cs k ∧
      (cs[k]? = some '&' → carrier = .button ∧ ∃ n, k < n ∧
        n < (extentOf carrier elseEnds cs).1 ∧ comma? elseEnds true cs = some n) := by
  have hplain {k : Nat} (hk : k < (extent elseEnds true cs).1) (hcovers : ¬Covers cs k) :
      NoElseAt elseEnds true cs k ∧ cs[k]? ≠ some '&' :=
    (uncovered_extent elseEnds true cs k hk hcovers).symm
  unfold extentOf buttonExtent
  split
  · next hbutton =>
    split
    · next n h =>
      obtain ⟨hcomma, hbefore⟩ := uncovered_comma? h
      intro k hk hcovers
      simp only at hk ⊢
      rcases Nat.lt_or_ge k n with hlt | hge
      · -- before the comma
        exact ⟨(hbefore k hlt hcovers).2, fun _ => ⟨hbutton, n, hlt, by omega, h⟩⟩
      rcases Nat.eq_or_lt_of_le hge with rfl | hgt
      · -- at the comma
        have hstart : startsElse (cs.drop n) = false := by
          obtain ⟨rest, hrest⟩ := drop_comma? h
          simp [hrest, startsElse]
        exact ⟨fun _ _ => hstart, fun hand => by simp [hcomma] at hand⟩
      · -- behind the comma, where the extent is that of the text behind it
        obtain ⟨j, rfl⟩ := Nat.exists_eq_add_of_le' (Nat.succ_le_of_lt hgt)
        have hbehind : ¬Covers (cs.drop (n + 1)) j := by
          rwa [← (reaches_behind_comma? h).covers_add]
        obtain ⟨hne, hno⟩ := uncovered_extent elseEnds true (cs.drop (n + 1)) j (by omega) hbehind
        rw [List.getElem?_drop] at hne
        rw [Nat.add_comm j]
        refine ⟨fun hends hfresh => ?_, fun hand => absurd hand hne⟩
        rw [← List.drop_drop]
        exact hno hends (freshAt_drop hfresh)
    · intro k hk hcovers
      exact ⟨(hplain hk hcovers).1, fun hand => absurd hand (hplain hk hcovers).2⟩
  · intro k hk hcovers
    exact ⟨(hplain hk hcovers).1, fun hand => absurd hand (hplain hk hcovers).2⟩

lemma not_isWordChar_of_elseWord {carrier : Carrier}
    (h : (extentOf carrier elseEnds cs).2 = .elseWord)
    (hk : (extentOf carrier elseEnds cs).1 = k + 1) : ∀ c ∈ cs[k]?, isWordChar c = false := by
  have hgap {c : Char} (hc : isGap c = true) : isWordChar c = false := by
    simp only [isGap, Bool.or_eq_true, decide_eq_true_eq] at hc
    rcases hc with rfl | rfl <;> decide +kernel
  have hplain (h : (extent elseEnds true cs).2 = .elseWord)
      (hk : (extent elseEnds true cs).1 = k + 1) : ∀ c ∈ cs[k]?, isWordChar c = false := by
    intro c hc
    have hfresh := freshAt_extent h
    rw [hk, freshAt, Option.mem_def.mp hc] at hfresh
    exact hgap hfresh
  unfold extentOf buttonExtent at h hk
  split at h
  · next hbutton =>
    simp only [hbutton, if_true] at hk
    split at h
    · next n hn =>
      simp only [hn] at h hk
      intro c hc
      rcases hlength : (extent elseEnds true (cs.drop (n + 1))).1 with _ | m
      · -- nothing follows the comma
        obtain rfl : n = k := by omega
        rw [(uncovered_comma? hn).1] at hc
        obtain rfl := Option.some.inj hc
        decide +kernel
      · have hfresh := freshAt_extent h
        rw [hlength, freshAt, List.getElem?_drop, show n + 1 + m = k by omega,
          Option.mem_def.mp hc] at hfresh
        exact hgap hfresh
    · next hn =>
      simp only [hn] at hk
      exact hplain h hk
  · next hbutton =>
    simp only [hbutton, if_false] at hk
    exact hplain h hk

/-! ### Payloads without the text around them -/

variable {text : List Char}

/-- Neither the end of a payload nor the blanks that are left out there change its link spans. -/
lemma covers_iff_of_isTrimmedOf (hreaches : Reaches cs n) (htext : IsTrimmedOf text (cs.take n))
    (hk : k < text.length) : k < n ∧ text[k]? = cs[k]? ∧ (Covers text k ↔ Covers cs k) := by
  obtain ⟨blanks, heq, hblanks⟩ := htext
  have hkn : k < n := by
    have := congrArg List.length heq
    simp only [List.length_take, List.length_append] at this
    omega
  have hbracket : ']' ∉ blanks := fun hmem => absurd (hblanks _ hmem) (by decide)
  have hfront := (LinkSpan.reaches_append text hbracket).covers_take hk
  rw [List.take_left, ← heq] at hfront
  have hat : text[k]? = (cs.take n)[k]? := by rw [heq, List.getElem?_append_left hk]
  rw [List.getElem?_take_of_lt hkn] at hat
  exact ⟨hkn, hat, hfront.trans (hreaches.covers_take hkn)⟩

lemma lt_length_of_isTrimmedOf (htext : IsTrimmedOf text (cs.take n)) (hk : k < n)
    (hc : cs[k]? = some c) (hblank : isBlank c = false) : k < text.length := by
  obtain ⟨blanks, heq, hblanks⟩ := htext
  by_contra hlong
  rw [← List.getElem?_take_of_lt hk, heq, List.getElem?_append_right (by omega)] at hc
  rw [hblanks c (List.mem_of_getElem? hc)] at hblank
  exact absurd hblank (by decide)

lemma not_isWordChar_behind {carrier : Carrier}
    (htext : IsTrimmedOf text (cs.take (extentOf carrier elseEnds cs).1))
    (hlength : text.length = k + 1) (hlast : ∃ c ∈ text[k]?, isWordChar c = true) :
    ∀ c ∈ cs[text.length]?, isWordChar c = false := by
  intro c hc
  by_contra hword
  have hblank : isBlank c = false := isBlank_of_isWordChar (by simpa using hword)
  -- what follows is no blank, so nothing is left out, and what the payload ends at follows
  have hle : text.length ≤ (extentOf carrier elseEnds cs).1 :=
    htext.isPrefix.length_le.trans (List.length_take_le _ _)
  have hend : (extentOf carrier elseEnds cs).1 = text.length := by
    by_contra hne
    exact absurd (lt_length_of_isTrimmedOf htext (by omega) hc hblank) (by omega)
  have hstop := standsAt_extentOf carrier elseEnds cs
  rw [← List.head?_drop, ← hend] at hc
  refine hword ?_
  rcases hkind : (extentOf carrier elseEnds cs).2 with _ | _ | _
  · rw [hkind] at hstop
    obtain rfl := hstop c hc
    decide +kernel
  · rw [hkind] at hstop
    obtain rfl := Option.some.inj (hstop.symm.trans hc)
    decide +kernel
  · obtain ⟨d, hd, hletter⟩ := hlast
    have hat : cs[k]? = text[k]? := by
      obtain ⟨tail, htail⟩ := htext.isPrefix.trans (List.take_prefix _ cs)
      rw [← htail, List.getElem?_append_left (by omega)]
    rw [not_isWordChar_of_elseWord hkind (hend.trans hlength) d (hat.trans hd)] at hletter
    exact absurd hletter (by decide)

/-- An `else` that stands by itself in a payload does so in the text that the payload is cut
from. -/
lemma startsElse_of_elseAt {carrier : Carrier}
    (htext : IsTrimmedOf text (cs.take (extentOf carrier elseEnds cs).1)) (h : ElseAt text k) :
    k < text.length ∧ freshAt true cs k = true ∧ startsElse (cs.drop k) = true := by
  obtain ⟨hfresh, hletters, hback⟩ := h
  obtain ⟨tail, htail⟩ := htext.isPrefix.trans (List.take_prefix _ cs)
  have hlength : k + 4 ≤ text.length := by
    have := congrArg List.length hletters
    simp only [List.length_map, List.length_take, List.length_drop, List.length_cons,
      List.length_nil] at this
    omega
  have hdrop : cs.drop k = text.drop k ++ tail := by
    rw [← htail, List.drop_append_of_le_length (by omega)]
  have hfront : (cs.drop k).take 4 = (text.drop k).take 4 := by
    rw [hdrop, List.take_append_of_le_length (by rw [List.length_drop]; omega)]
  have hbehind : ∀ c ∈ cs[k + 4]?, isWordChar c = false := by
    rcases Nat.lt_or_eq_of_le hlength with hlt | heq
    · rwa [← htail, List.getElem?_append_left hlt]
    · rw [heq]
      refine not_isWordChar_behind htext heq.symm ⟨text[k + 3], by simp, ?_⟩
      refine isWordChar_of_toLower (hletters ▸ List.mem_map_of_mem ?_)
      exact List.mem_of_getElem? (i := 3) (by simp [List.getElem?_drop])
  refine ⟨by omega, ?_, ?_⟩
  · cases k with
    | zero => rfl
    | succ j =>
      obtain ⟨c, hc, hgap⟩ := hfresh.resolve_left (Nat.succ_ne_zero j)
      rw [Nat.add_sub_cancel] at hc
      rw [freshAt, ← htail, List.getElem?_append_left (by omega), Option.mem_def.mp hc]
      simpa [isGap] using hgap
  · simp only [startsElse, hfront, hletters, List.drop_drop, List.head?_drop, decide_true,
      Bool.true_and, Bool.not_eq_true', Option.any_eq_false]
    exact hbehind

end Payload

/-- What a payload token holds outside of its link spans is told by the payload alone. -/
theorem Piece.Carries.uncovered {piece : Piece} {mode : Mode} {cs text : List Char}
    {carrier : Carrier} {lead k : Nat} (h : piece.Carries mode cs carrier text lead)
    (hcovers : ¬Covers text k) :
    (0 < mode.openIfs → ¬Payload.ElseAt text k) ∧
      (text[k]? = some '&' → carrier = .button ∧ ∃ n, k < n ∧ Fields.comma? text = some n) := by
  have hreaches := Payload.reaches_extentOf carrier mode.elseEnds (cs.drop lead)
  have hsame {j : Nat} (hj : j < text.length) :=
    Payload.covers_iff_of_isTrimmedOf hreaches h.trimmed hj
  constructor
  · -- no `else` while a conditional waits
    intro hwaits helse
    obtain ⟨hk, hfresh, hstarts⟩ := Payload.startsElse_of_elseAt h.trimmed helse
    obtain ⟨hlt, -, hiff⟩ := hsame hk
    obtain ⟨hno, -⟩ := Payload.uncovered_extentOf carrier mode.elseEnds (cs.drop lead) k hlt
      (hiff.not.mp hcovers)
    rw [hno (by simpa [Mode.elseEnds] using hwaits) hfresh] at hstarts
    exact absurd hstarts (by decide)
  · -- an ampersand stands in the first field of a button
    intro hand
    obtain ⟨hk, -⟩ := List.getElem?_eq_some_iff.mp hand
    obtain ⟨hlt, hat, hiff⟩ := hsame hk
    obtain ⟨-, hbutton⟩ := Payload.uncovered_extentOf carrier mode.elseEnds (cs.drop lead) k hlt
      (hiff.not.mp hcovers)
    obtain ⟨rfl, n, hkn, hn, hcomma⟩ := hbutton (hat ▸ hand)
    obtain ⟨hcommaAt, hbefore⟩ := Payload.uncovered_comma? hcomma
    obtain ⟨-, hat', hiff'⟩ := hsame
      (Payload.lt_length_of_isTrimmedOf h.trimmed hn hcommaAt (by decide))
    refine ⟨rfl, n, hkn, Fields.comma?_eq_some_iff.mpr ⟨hat'.trans hcommaAt, ?_, ?_⟩⟩
    · obtain ⟨rest, hrest⟩ := Payload.drop_comma? hcomma
      have hhere := (Payload.reaches_comma? hcomma).covers_add 0
      rw [Nat.zero_add, hrest] at hhere
      rw [hiff', hhere]
      exact Fields.not_covers_comma rest
    · intro j hj hj'
      have hjk : j < text.length := by
        have := (List.getElem?_eq_some_iff.mp (hat'.trans hcommaAt)).1
        omega
      obtain ⟨-, hatj, hiffj⟩ := hsame hjk
      rw [hatj]
      exact (hbefore j hj (hiffj.not.mp hj')).1

/-- What the payload tokens of a source hold outside of their link spans. -/
theorem uncovered_of_payload {source : String} {front back : List Lexeme} {l : Lexeme}
    {carrier : Carrier} {text : String} {k : Nat} (h : (tokenize source).1 = front ++ l :: back)
    (hl : l.token = .payload carrier text) (hcovers : ¬Covers text.toList k) :
    (0 < Lexeme.openIfs 0 front → ¬Payload.ElseAt text.toList k) ∧
      (text.toList[k]? = some '&' →
        carrier = .button ∧ ∃ n, k < n ∧ Fields.comma? text.toList = some n) := by
  obtain ⟨inner, c, rest, lexeme, -, hpiece, hopen, -⟩ :=
    Scan.exists_piece_of_append Mode.isCounted_fresh h (by simp [hl])
  obtain ⟨lead, hcarries⟩ := Piece.carries_read (hl ▸ hpiece)
  obtain ⟨helse, hand⟩ := hcarries.uncovered hcovers
  exact ⟨fun hwaits => helse (hopen ▸ hwaits), hand⟩

/-- **The extent of payloads.** A payload stays on its line. Outside of its link spans it holds no
ampersand, but in the first of several fields of a button, and no `else` where an `if` of the line
waits for one. -/
theorem extent_of_payload {source : String} {front back : List Lexeme} {l : Lexeme}
    {carrier : Carrier} {text : String} (h : (tokenize source).1 = front ++ l :: back)
    (hl : l.token = .payload carrier text) :
    '\n' ∉ text.toList ∧
      (carrier ≠ .button → ∀ k, text.toList[k]? = some '&' → Covers text.toList k) ∧
      (carrier = .button →
        ((∃ field, Fields.split 2 text.toList = [field]) →
          ∀ k, text.toList[k]? = some '&' → Covers text.toList k) ∧
        ∀ first second later, Fields.split 2 text.toList = first :: second :: later →
          ∀ k, text.toList[k]? = some '&' → ¬Covers text.toList k → k < first.length) ∧
      (0 < Lexeme.openIfs 0 front → ∀ k, Payload.ElseAt text.toList k → Covers text.toList k) := by
  have hline : '\n' ∉ text.toList := by
    obtain ⟨hlexeme, hsuffix⟩ := Scan.suffix_of_mem_lexemes
      (show l ∈ (tokenize source).1 by simp [h]) hl
    exact fun hmem => hlexeme (hsuffix.subset hmem)
  refine ⟨hline, fun hbutton k hk => ?_, fun _ => ⟨fun hone k hk => ?_, fun first second later
    hfields k hk hcovers => ?_⟩, fun hwaits k helse => ?_⟩
  · by_contra hcovers
    exact hbutton ((uncovered_of_payload h hl hcovers).2 hk).1
  · by_contra hcovers
    obtain ⟨-, n, -, hcomma⟩ := (uncovered_of_payload h hl hcovers).2 hk
    obtain ⟨field, hfield⟩ := hone
    simp only [Fields.split, hcomma] at hfield
    split at hfield <;> simp at hfield
  · obtain ⟨-, n, hlt, hcomma⟩ := (uncovered_of_payload h hl hcovers).2 hk
    simp only [Fields.split, hcomma, List.cons.injEq] at hfields
    have hn := Fields.comma?_lt hcomma
    rw [← hfields.1, List.length_take]
    omega
  · by_contra hcovers
    exact (uncovered_of_payload h hl hcovers).1 hwaits helse

/-- A button whose first field chains statements, in a branch. -/
theorem extent_of_payload_sample :
    (tokenize "if a then btn p [[b & c]] & d, [[e & f]], g else p h").1 =
        (tokenize "if a then btn p [[b & c]] & d, [[e & f]], g else p h").1.take 3 ++
          ⟨.payload .button "p [[b & c]] & d, [[e & f]], g",
            "btn p [[b & c]] & d, [[e & f]], g", ⟨1, 11⟩⟩ ::
            (tokenize "if a then btn p [[b & c]] & d, [[e & f]], g else p h").1.drop 4 ∧
      0 < Lexeme.openIfs 0
        ((tokenize "if a then btn p [[b & c]] & d, [[e & f]], g else p h").1.take 3) ∧
      '\n' ∉ "p [[b & c]] & d, [[e & f]], g".toList ∧
      (∀ first second later,
        Fields.split 2 "p [[b & c]] & d, [[e & f]], g".toList = first :: second :: later →
        ∀ k, "p [[b & c]] & d, [[e & f]], g".toList[k]? = some '&' →
          ¬Covers "p [[b & c]] & d, [[e & f]], g".toList k → k < first.length) ∧
      ∀ k, Payload.ElseAt "p [[b & c]] & d, [[e & f]], g".toList k →
        Covers "p [[b & c]] & d, [[e & f]], g".toList k := by
  have hsplit : (tokenize "if a then btn p [[b & c]] & d, [[e & f]], g else p h").1 =
      (tokenize "if a then btn p [[b & c]] & d, [[e & f]], g else p h").1.take 3 ++
        ⟨.payload .button "p [[b & c]] & d, [[e & f]], g",
          "btn p [[b & c]] & d, [[e & f]], g", ⟨1, 11⟩⟩ ::
          (tokenize "if a then btn p [[b & c]] & d, [[e & f]], g else p h").1.drop 4 := by
    decide +kernel
  have hwaits : 0 < Lexeme.openIfs 0
      ((tokenize "if a then btn p [[b & c]] & d, [[e & f]], g else p h").1.take 3) := by
    decide +kernel
  obtain ⟨hline, -, hbutton, helse⟩ := extent_of_payload hsplit rfl
  exact ⟨hsplit, hwaits, hline, (hbutton rfl).2, helse hwaits⟩

end QuestScript
