import Mathlib.Data.List.TakeWhile
import QuestScript.Print.Reading
import QuestScript.Proofs.LinkSpan

/-!
The factors of a printed text.

A text falls into links, substitutions and plain runs, such that nothing in a plain run opens a link
or a substitution and a link ends where it first can. There is exactly one way to do so
(`Span.existsUnique_factors`), and it is the one that is found from left to right.
-/

namespace QuestScript

/-! ### Links -/

namespace LinkSpan

variable {cs inner : List Char}

/-- What stands in a link: something, on one line, and no closing brackets before the span's own
ones. The first character may be a bracket whatever follows it. -/
structure IsInner (inner : List Char) : Prop where
  ne_nil : inner ≠ []
  line : '\n' ∉ inner
  closing : ¬[']', ']'] <:+: inner.tail ++ [']']

lemma exists_cons_of_closing {d : Char} {rest : List Char}
    (h : d :: cs = inner ++ ']' :: ']' :: rest) : ∃ more, inner ++ [']'] = d :: more := by
  rcases inner with _ | ⟨e, inner⟩
  · obtain ⟨rfl, -⟩ := List.cons.inj h
    exact ⟨[], rfl⟩
  · obtain ⟨rfl, -⟩ := List.cons.inj h
    exact ⟨inner ++ [']'], rfl⟩

lemma upToClosing?_eq_some_iff : upToClosing? cs = some inner ↔
    '\n' ∉ inner ∧ ¬[']', ']'] <:+: inner ++ [']'] ∧ ∃ rest, cs = inner ++ ']' :: ']' :: rest := by
  fun_induction upToClosing? cs generalizing inner with
  | case1 => simp
  | case2 c =>
    simp only [reduceCtorEq, false_iff]
    -- one character is shorter than closing brackets
    rintro ⟨-, -, rest, h⟩
    have := congrArg List.length h
    simp at this
    omega
  | case3 d cs =>
    simp only [reduceCtorEq, false_iff]
    -- a line feed is no closing bracket, so it would stand inside
    rintro ⟨hnot, -, rest, h⟩
    rcases inner with _ | ⟨e, inner⟩
    · simp at h
    · obtain ⟨rfl, -⟩ := List.cons.inj h
      exact hnot List.mem_cons_self
  | case4 c d cs hline hclosing =>
    obtain ⟨rfl, rfl⟩ : c = ']' ∧ d = ']' := by simpa using hclosing
    constructor
    · intro h
      obtain rfl : [] = inner := Option.some.inj h
      exact ⟨by simp, fun hinfix => by simpa using hinfix.length_le, cs, rfl⟩
    · -- an `inner` that goes on would have the brackets inside
      rintro ⟨-, hnot, rest, h⟩
      rcases inner with _ | ⟨e, inner⟩
      · rfl
      · obtain ⟨rfl, htail⟩ := List.cons.inj h
        obtain ⟨more, hmore⟩ := exists_cons_of_closing htail
        rw [List.cons_append, hmore] at hnot
        exact absurd (List.prefix_append [']', ']'] more).isInfix hnot
  | case5 c d cs hline hclosing ih =>
    rw [Option.map_eq_some_iff]
    constructor
    · rintro ⟨tail, htail, rfl⟩
      obtain ⟨hnot, hinfix, rest, heq⟩ := ih.mp htail
      refine ⟨by simp [Ne.symm hline, hnot], ?_, rest, by rw [heq]; rfl⟩
      -- brackets found here would have been taken before
      obtain ⟨more, hmore⟩ := exists_cons_of_closing heq
      rw [List.cons_append, List.infix_cons_iff, not_or]
      refine ⟨fun hprefix => hclosing ?_, hinfix⟩
      rw [hmore] at hprefix
      obtain ⟨rfl, rfl⟩ : ']' = c ∧ ']' = d := by simpa using hprefix
      rfl
    · rintro ⟨hnot, hinfix, rest, heq⟩
      rcases inner with _ | ⟨e, tail⟩
      · obtain ⟨rfl, htail⟩ := List.cons.inj heq
        obtain ⟨rfl, -⟩ := List.cons.inj htail
        exact absurd rfl hclosing
      · obtain ⟨rfl, htail⟩ := List.cons.inj heq
        rw [List.cons_append, List.infix_cons_iff, not_or] at hinfix
        rw [List.mem_cons, not_or] at hnot
        exact ⟨tail, ih.mpr ⟨hnot.2, hinfix.2, rest, htail⟩, rfl⟩

/-- **Links are taken off where they end first.** -/
theorem inner?_eq_some_iff : inner? cs = some inner ↔
    IsInner inner ∧ ∃ rest, cs = '[' :: '[' :: inner ++ ']' :: ']' :: rest := by
  constructor
  · intro h
    unfold inner? at h
    split at h
    · next a b c cs =>
      split at h
      · next hopen =>
        obtain ⟨⟨rfl, rfl⟩, hline⟩ : (a = '[' ∧ b = '[') ∧ c ≠ '\n' := by simpa using hopen
        obtain ⟨tail, htail, rfl⟩ := Option.map_eq_some_iff.mp h
        obtain ⟨hnot, hinfix, rest, rfl⟩ := upToClosing?_eq_some_iff.mp htail
        exact ⟨⟨by simp, by simp [Ne.symm hline, hnot], hinfix⟩, rest, rfl⟩
      · simp at h
    · simp at h
  · rintro ⟨⟨hne, hline, hclosing⟩, rest, rfl⟩
    obtain ⟨c, tail, rfl⟩ := List.exists_cons_of_ne_nil hne
    rw [List.mem_cons, not_or] at hline
    have htail : upToClosing? (tail ++ ']' :: ']' :: rest) = some tail :=
      upToClosing?_eq_some_iff.mpr ⟨hline.2, hclosing, rest, rfl⟩
    simp [inner?, Ne.symm hline.1, htail]

end LinkSpan

namespace Print.Span

open LinkSpan (IsInner)

/-- A link starts the text, or a `#` with a `$` somewhere behind it. -/
def Opens (cs : List Char) : Prop :=
  (∃ inner rest, IsInner inner ∧ cs = '[' :: '[' :: inner ++ ']' :: ']' :: rest) ∨
    ∃ rest, cs = '#' :: rest ∧ '$' ∈ rest

/-- The spans are factors of the text that they make up. Plain runs are as long as they can be, and
nothing opens at any place in them. -/
def Factors : List Span → Prop
  | [] => True
  | link inner :: spans => IsInner inner ∧ Factors spans
  | substitution body :: spans => '$' ∉ body ∧ Factors spans
  | plain text :: spans =>
    text ≠ [] ∧ (∀ next ∈ spans.head?, ∀ other, next ≠ plain other) ∧
      (∀ front back, text = front ++ back → back ≠ [] → ¬Opens (back ++ spans.flatMap source)) ∧
      Factors spans

variable {cs : List Char} {spans : List Span} {c : Char}

lemma body?_eq_some_iff {body : List Char} :
    body? cs = some body ↔ '$' ∉ body ∧ ∃ rest, cs = '#' :: body ++ '$' :: rest := by
  constructor
  · intro h
    obtain ⟨rest, hcs, hbody⟩ := eq_append_of_body? h
    exact ⟨hbody, rest, hcs⟩
  · rintro ⟨hbody, rest, rfl⟩
    simp [body?, Text.takeWhile_append_of_notMem hbody]

lemma not_opens_iff : ¬Opens cs ↔ LinkSpan.inner? cs = none ∧ body? cs = none := by
  have hlink : (∃ inner rest, IsInner inner ∧ cs = '[' :: '[' :: inner ++ ']' :: ']' :: rest) ↔
      LinkSpan.inner? cs ≠ none := by
    simp only [Option.ne_none_iff_exists', LinkSpan.inner?_eq_some_iff, exists_and_left]
  have hsubstitution : (∃ rest, cs = '#' :: rest ∧ '$' ∈ rest) ↔ body? cs ≠ none := by
    rw [Option.ne_none_iff_exists']
    constructor
    · rintro ⟨rest, rfl, hrest⟩
      exact ⟨rest.takeWhile (· != '$'), by simp [body?, hrest]⟩
    · rintro ⟨body, hbody⟩
      obtain ⟨-, rest, rfl⟩ := body?_eq_some_iff.mp hbody
      exact ⟨body ++ '$' :: rest, rfl, by simp⟩
  rw [Opens, hlink, hsubstitution, not_or, not_not, not_not]

/-! ### Spans taken off the front of a text -/

lemma ofText_of_isInner {inner : List Char} (h : IsInner inner) (rest : List Char) :
    ofText ('[' :: '[' :: inner ++ ']' :: ']' :: rest) = link inner :: ofText rest := by
  have hinner := LinkSpan.inner?_eq_some_iff.mpr ⟨h, rest, rfl⟩
  simp only [List.cons_append] at hinner ⊢
  rw [ofText]
  simp only [hinner]
  simp

lemma ofText_substitution {body : List Char} (rest : List Char) (h : '$' ∉ body) :
    ofText ('#' :: body ++ '$' :: rest) = substitution body :: ofText rest := by
  have hinner := LinkSpan.inner?_of_ne (body ++ '$' :: rest) (c := '#') (by decide)
  have hbody := body?_eq_some_iff.mpr ⟨h, rest, rfl⟩
  rw [List.cons_append] at hbody ⊢
  rw [ofText]
  simp only [hinner, hbody]
  simp

lemma ofText_of_not_opens {rest : List Char} (h : ¬Opens (c :: rest)) :
    ofText (c :: rest) = consPlain c (ofText rest) := by
  obtain ⟨hinner, hbody⟩ := not_opens_iff.mp h
  rw [ofText]
  simp only [hinner, hbody]

lemma ofText_plain_append {text rest : List Char} (hne : text ≠ [])
    (hnext : ∀ next ∈ (ofText rest).head?, ∀ other, next ≠ plain other)
    (hopens : ∀ front back, text = front ++ back → back ≠ [] → ¬Opens (back ++ rest)) :
    ofText (text ++ rest) = plain text :: ofText rest := by
  induction text with
  | nil => exact absurd rfl hne
  | cons c text ih =>
    have hc : ¬Opens (c :: (text ++ rest)) := hopens [] (c :: text) rfl (by simp)
    rw [List.cons_append, ofText_of_not_opens hc]
    rcases text with _ | ⟨d, text⟩
    · rw [List.nil_append]
      unfold consPlain
      split
      · next other spans heq => exact absurd rfl (hnext (plain other) (by rw [heq]; rfl) other)
      · rfl
    · rw [ih (by simp) fun front back heq => hopens (c :: front) back (by rw [heq]; rfl)]
      rfl

/-! ### Factors -/

/-- **Factors are what is found from left to right.** -/
theorem ofText_of_factors (h : Factors spans) : ofText (spans.flatMap source) = spans := by
  induction spans with
  | nil => rw [List.flatMap_nil, ofText]
  | cons span spans ih =>
    rw [List.flatMap_cons]
    cases span with
    | link inner =>
      have hlink := ofText_of_isInner h.1 (spans.flatMap source)
      rw [ih h.2] at hlink
      simpa [source] using hlink
    | substitution body =>
      have hsubstitution := ofText_substitution (spans.flatMap source) h.1
      rw [ih h.2] at hsubstitution
      simpa [source] using hsubstitution
    | plain text =>
      obtain ⟨hne, hnext, hopens, hspans⟩ := h
      rw [source, ofText_plain_append hne _ hopens, ih hspans]
      rwa [ih hspans]

lemma factors_consPlain (h : Factors spans) (hopens : ¬Opens (c :: spans.flatMap source)) :
    Factors (consPlain c spans) := by
  unfold consPlain
  split
  · next text spans =>
    obtain ⟨-, hnext, hlater, hspans⟩ := h
    refine ⟨by simp, hnext, fun front back heq hback => ?_, hspans⟩
    rcases front with _ | ⟨d, front⟩
    · obtain rfl : c :: text = back := heq
      exact hopens
    · exact hlater front back (List.cons.inj heq).2 hback
  · next hplain =>
    refine ⟨by simp, fun next hnext other heq => ?_, fun front back heq hback => ?_, h⟩
    · obtain ⟨rest, rfl⟩ := List.head?_eq_some_iff.mp hnext
      exact hplain other rest (by rw [heq])
    · obtain ⟨rfl, rfl⟩ : front = [] ∧ back = [c] := by
        rcases front with _ | ⟨d, front⟩
        · exact ⟨rfl, heq.symm⟩
        · simp_all
      exact hopens

/-- What is found from left to right are factors. -/
theorem factors_ofText (cs : List Char) : Factors (ofText cs) := by
  fun_induction ofText cs with
  | case1 => trivial
  | case2 c rest inner h ih => exact ⟨(LinkSpan.inner?_eq_some_iff.mp h).1, ih⟩
  | case3 c rest _ body h ih => exact ⟨(body?_eq_some_iff.mp h).1, ih⟩
  | case4 c rest hinner hbody ih =>
    refine factors_consPlain ih ?_
    rw [flatMap_source_ofText]
    exact not_opens_iff.mpr ⟨hinner, hbody⟩

/-- **A text has its factors in one way only.** -/
theorem existsUnique_factors (cs : List Char) :
    ∃! spans, Factors spans ∧ spans.flatMap source = cs := by
  refine ⟨ofText cs, ⟨factors_ofText cs, flatMap_source_ofText cs⟩, ?_⟩
  rintro spans ⟨hspans, rfl⟩
  exact (ofText_of_factors hspans).symm

end Print.Span

end QuestScript
