import QuestScript.Parser
import QuestScript.Proofs.Outcome
import QuestScript.Proofs.Print.Meaning
import QuestScript.Proofs.Token.Uncovered

/-!
Links of printed text, as the end of its payload is found and as it is decoded.

The search for the end of a payload steps over link spans only. The spans of a printed text are link
spans and substitutions. So a substitution that reaches into a link span hides it, and only then do
the two come to different links (`Print.Span.agrees_iff`). Where they agree, ampersands stand in
links alone (`Print.Span.isLink_of_agrees`), since that is where a payload may hold them.
-/

namespace QuestScript.Print

open LinkSpan (Covers)

namespace Span

/-- Whether the span is a link. -/
def isLink : Span → Bool
  | link _ => true
  | _ => false

/-- Whether the span is a substitution. -/
def isSubstitution : Span → Bool
  | substitution _ => true
  | _ => false

/-- Where the spans with the property stand, of spans that follow one another from the given place:
where each starts and where it ends. -/
def placesOf (p : Span → Bool) (start : Nat) : List Span → List (Nat × Nat)
  | [] => []
  | span :: spans =>
    let later := placesOf p (start + span.source.length) spans
    if p span then (start, start + span.source.length) :: later else later

/-- The links of a printed text are the link spans that the end of its payload is found with. -/
def Agrees (cs : List Char) : Prop := placesOf isLink 0 (ofText cs) = LinkSpan.spans 0 cs

/-- No substitution of a printed text reaches into a link span. -/
def KeepsOff (cs : List Char) : Prop :=
  ∀ place ∈ placesOf isSubstitution 0 (ofText cs), ∀ span ∈ LinkSpan.spans 0 cs,
    place.2 ≤ span.1 ∨ span.2 ≤ place.1

instance (cs : List Char) : Decidable (Agrees cs) := inferInstanceAs (Decidable (_ = _))

instance (cs : List Char) : Decidable (KeepsOff cs) :=
  inferInstanceAs (Decidable (∀ _ ∈ _, ∀ _ ∈ _, _))

variable {p q : Span → Bool} {start : Nat} {spans : List Span} {cs : List Char}

/-! ### Places of spans -/

lemma le_of_mem_placesOf {place : Nat × Nat} (h : place ∈ placesOf p start spans) :
    start ≤ place.1 := by
  induction spans generalizing start with
  | nil => simp [placesOf] at h
  | cons span spans ih =>
    have hlater (h : place ∈ placesOf p (start + span.source.length) spans) : start ≤ place.1 :=
      Nat.le_trans (Nat.le_add_right _ _) (ih h)
    rw [placesOf] at h
    split at h
    · rcases List.mem_cons.mp h with rfl | h
      · exact Nat.le_refl _
      · exact hlater h
    · exact hlater h

lemma placesOf_disjoint (hpq : ∀ span, p span = true → q span = false) :
    ∀ a ∈ placesOf p start spans, ∀ b ∈ placesOf q start spans, a.2 ≤ b.1 ∨ b.2 ≤ a.1 := by
  induction spans generalizing start with
  | nil => simp [placesOf]
  | cons span spans ih =>
    intro a ha b hb
    rw [placesOf] at ha hb
    rcases hp : p span with _ | _ <;> rcases hq : q span with _ | _
    · simp only [hp, hq, Bool.false_eq_true, if_false] at ha hb
      exact ih a ha b hb
    · simp only [hp, hq, Bool.false_eq_true, if_false, if_true, List.mem_cons] at ha hb
      rcases hb with rfl | hb
      · exact .inr (le_of_mem_placesOf ha)
      · exact ih a ha b hb
    · simp only [hp, hq, Bool.false_eq_true, if_false, if_true, List.mem_cons] at ha hb
      rcases ha with rfl | ha
      · exact .inl (le_of_mem_placesOf hb)
      · exact ih a ha b hb
    · exact absurd hq (by simp [hpq span hp])

lemma exists_place_of_mem {span : Span} (h : span ∈ spans) (hp : p span = true) :
    ∃ place ∈ placesOf p start spans, start ≤ place.1 ∧
      place.2 = place.1 + span.source.length ∧ ∀ i < span.source.length,
        (spans.flatMap source)[place.1 - start + i]? = span.source[i]? := by
  induction spans generalizing start with
  | nil => simp at h
  | cons first spans ih =>
    rw [placesOf]
    rcases List.mem_cons.mp h with rfl | h
    · -- the span is the first one
      refine ⟨(start, start + span.source.length), by simp [hp], Nat.le_refl _, rfl, ?_⟩
      intro i hi
      rw [List.flatMap_cons, Nat.sub_self, Nat.zero_add, List.getElem?_append_left hi]
    · -- it stands behind the first one
      obtain ⟨place, hmem, hstart, hend, hat⟩ := @ih (start + first.source.length) h
      refine ⟨place, ?_, by omega, hend, fun i hi => ?_⟩
      · split
        · exact List.mem_cons_of_mem _ hmem
        · exact hmem
      · rw [List.flatMap_cons, List.getElem?_append_right (by omega), ← hat i hi]
        congr 1
        omega

lemma placesOf_consPlain (hp : ∀ text, p (plain text) = false) (c : Char) (spans : List Span) :
    placesOf p start (consPlain c spans) = placesOf p (start + 1) spans := by
  unfold consPlain
  split
  · next text spans =>
    simp only [placesOf, hp, source, Bool.false_eq_true, if_false, List.length_cons]
    rw [Nat.add_right_comm, Nat.add_assoc]
  · simp [placesOf, hp, source]

/-! ### Agreement on links -/

/-- Where no substitution reaches into a link span, the links of a text are its link spans. -/
lemma placesOf_isLink (h : ∀ place ∈ placesOf isSubstitution start (ofText cs),
      ∀ span ∈ LinkSpan.spans start cs, place.2 ≤ span.1 ∨ span.2 ≤ place.1) :
    placesOf isLink start (ofText cs) = LinkSpan.spans start cs := by
  fun_induction ofText cs generalizing start with
  | case1 => simp [placesOf, LinkSpan.spans]
  | case2 c rest inner hinner ih =>
    have hlength : LinkSpan.length? (c :: rest) = some (inner.length + 4) := by
      simp [LinkSpan.length?, hinner]
    have hstride : LinkSpan.stride (c :: rest) = inner.length + 3 :=
      Nat.succ_inj.mp (LinkSpan.stride_of_some hlength)
    have hsource : (link inner).source.length = inner.length + 3 + 1 := by simp [source]
    rw [LinkSpan.spans_cons, hlength, hstride] at h ⊢
    simp only [placesOf, isSubstitution, isLink, hsource, Bool.false_eq_true, if_false,
      Option.isSome_some, if_true] at h ⊢
    rw [ih fun place hplace span hspan => h place hplace span (List.mem_cons_of_mem _ hspan)]
    rfl
  | case3 c rest hinner body hbody ih =>
    have hsource : (substitution body).source.length = body.length + 2 := by simp [source]
    simp only [placesOf, isSubstitution, isLink, hsource, Bool.false_eq_true, if_false,
      if_true] at h ⊢
    -- no link span starts inside of the substitution
    have hbehind : LinkSpan.spans start (c :: rest) =
        LinkSpan.spans (start + (body.length + 2)) (rest.drop (body.length + 1)) := by
      refine LinkSpan.spans_drop fun span hspan => ?_
      have hdisjoint := h _ List.mem_cons_self span hspan
      have hstart := LinkSpan.le_of_mem_spans hspan
      simp only at hdisjoint
      omega
    rw [hbehind] at h ⊢
    exact ih fun place hplace => h place (List.mem_cons_of_mem _ hplace)
  | case4 c rest hinner hbody ih =>
    have hspans : LinkSpan.spans start (c :: rest) = LinkSpan.spans (start + 1) rest := by
      have hlength : LinkSpan.length? (c :: rest) = none := by simp [LinkSpan.length?, hinner]
      rw [LinkSpan.spans_cons, hlength, LinkSpan.stride_of_none hlength]
      rfl
    rw [placesOf_consPlain (fun _ => rfl), hspans] at h ⊢
    exact ih h

/-- **Both come to the same links exactly where no substitution reaches into a link span.** -/
theorem agrees_iff (cs : List Char) : Agrees cs ↔ KeepsOff cs := by
  refine ⟨fun h place hplace span hspan => ?_, placesOf_isLink⟩
  rw [← h] at hspan
  refine placesOf_disjoint (fun span hspan => ?_) place hplace span hspan
  cases span <;> simp_all [isSubstitution, isLink]

/-- Where both come to the same links, ampersands stand in links alone. -/
theorem isLink_of_agrees (h : Agrees cs) (hcovers : ∀ k, cs[k]? = some '&' → Covers cs k) :
    (∀ k, cs[k]? = some '&' →
      ∃ place ∈ placesOf isLink 0 (ofText cs), place.1 ≤ k ∧ k < place.2) ∧
    ∀ span ∈ ofText cs, '&' ∈ span.source → span.isLink = true := by
  have hlinks : ∀ k, cs[k]? = some '&' →
      ∃ place ∈ placesOf isLink 0 (ofText cs), place.1 ≤ k ∧ k < place.2 := fun k hk => by
    rw [h]
    exact hcovers k hk
  refine ⟨hlinks, fun span hspan hmem => ?_⟩
  by_contra hlink
  obtain ⟨place, hplace, -, hend, hat⟩ :=
    @exists_place_of_mem (fun span => !isLink span) 0 (ofText cs) span hspan (by simpa using hlink)
  obtain ⟨i, hi, hand⟩ := List.getElem_of_mem hmem
  have hcs : cs[place.1 + i]? = some '&' := by
    have := hat i hi
    rwa [flatMap_source_ofText, Nat.sub_zero, List.getElem?_eq_getElem hi, hand] at this
  obtain ⟨other, hother, hlo, hhi⟩ := hlinks _ hcs
  have hdisjoint := placesOf_disjoint (q := isLink) (by simp) place hplace other hother
  omega

/-! ### Names of printed variables -/

variable {policy : SubstitutionPolicy} {action : ActionReader} {place : Position}
  {rs : List Report} {segments : List Segment} {name : String}

lemma exists_of_decode {span : Span}
    (h : span.decode policy action place = ⟨rs, .ok (.value name)⟩) :
    ∃ body, span = substitution body ∧ name.toList ⊆ body := by
  rcases decode_eq_ok h with ⟨_, -, hvalue⟩ | ⟨body, rfl, hmeans⟩ | ⟨_, _, _, -, hvalue, -⟩
  · simp at hvalue
  · have hbody : Substitution.withoutPercent body ⊆ body := by
      unfold Substitution.withoutPercent
      split
      · exact (List.tail_sublist body).subset
      · exact List.Subset.refl body
    refine ⟨body, rfl, ?_⟩
    generalize Substitution.withoutPercent body = rest at hmeans hbody
    cases hmeans
    rwa [String.toList_ofList]
  · simp at hvalue

lemma mem_glue {segment : Segment} (h : .value name ∈ segment.glue segments) :
    segment = .value name ∨ .value name ∈ segments := by
  unfold Segment.glue at h
  split at h
  · simpa using h
  · split at h
    · exact .inr h
    · simpa using h
  · simpa [eq_comm] using h

/-- The variables of a printed text are named in its substitutions. -/
theorem exists_of_decodeAll {spans : List Span}
    (h : decodeAll policy action place spans = ⟨rs, .ok segments⟩)
    (hname : .value name ∈ segments) : ∃ body, substitution body ∈ spans ∧ name.toList ⊆ body := by
  refine decodeAll_induction (motive := fun spans _ segments => .value name ∈ segments →
    ∃ body, substitution body ∈ spans ∧ name.toList ⊆ body) (by simp)
    (fun hspan htail hname => ?_) h hname
  rcases mem_glue hname with rfl | hlater
  · obtain ⟨body, rfl, hsubset⟩ := exists_of_decode hspan
    exact ⟨body, List.mem_cons_self, hsubset⟩
  · obtain ⟨body, hbody, hsubset⟩ := htail hlater
    exact ⟨body, List.mem_cons_of_mem _ hbody, hsubset⟩

end Span

/-- **Where the links of a printed text agree.** Link spans cover all ampersands of a print payload,
so an ampersand outside of them ends its statement. The links that the payload is decoded to are
those link spans exactly where no substitution of the payload reaches into one of them, and then
ampersands stand in links alone: in no plain text, and in no name of a printed variable. -/
theorem agrees_iff_keepsOff {source : String} {l : Lexeme} {newline : Bool} {text : String}
    (h : l ∈ (tokenize source).1) (hl : l.token = .payload (.print newline) text) :
    (∀ k, text.toList[k]? = some '&' → Covers text.toList k) ∧
      (Span.Agrees text.toList ↔ Span.KeepsOff text.toList) ∧
      (Span.Agrees text.toList →
        (∀ k, text.toList[k]? = some '&' → ∃ place ∈
          Span.placesOf Span.isLink 0 (Span.ofText text.toList), place.1 ≤ k ∧ k < place.2) ∧
        (∀ span ∈ Span.ofText text.toList, '&' ∈ span.source → span.isLink = true) ∧
        ∀ policy action place rs segments,
          read policy action place text.toList = ⟨rs, .ok segments⟩ →
            ∀ name, .value name ∈ segments → '&' ∉ name.toList) := by
  obtain ⟨front, back, hsplit⟩ := List.append_of_mem h
  -- an ampersand outside of link spans would have ended the payload
  have hcovers (k : Nat) (hk : text.toList[k]? = some '&') : Covers text.toList k := by
    by_contra hnot
    obtain ⟨hbutton, -⟩ := (uncovered_of_payload hsplit hl hnot).2 hk
    cases hbutton
  refine ⟨hcovers, Span.agrees_iff _, fun hagrees => ?_⟩
  obtain ⟨hlinks, honly⟩ := Span.isLink_of_agrees hagrees hcovers
  refine ⟨hlinks, honly, fun policy action place rs segments hread name hname hand => ?_⟩
  obtain ⟨body, hbody, hsubset⟩ := Span.exists_of_decodeAll hread hname
  exact absurd (honly _ hbody (by simp [Span.source, hsubset hand])) (by simp [Span.isLink])

/-- An ampersand in a link, and a substitution behind it. -/
theorem agrees_iff_keepsOff_sample :
    Span.Agrees "Take [[it & run|goto out]] #now$".toList ∧
      (∀ span ∈ Span.ofText "Take [[it & run|goto out]] #now$".toList,
        '&' ∈ span.source → span.isLink = true) ∧
      ∀ policy action place rs segments,
        read policy action place "Take [[it & run|goto out]] #now$".toList = ⟨rs, .ok segments⟩ →
          ∀ name, .value name ∈ segments → '&' ∉ name.toList := by
  have hmem : ⟨.payload (.print true) "Take [[it & run|goto out]] #now$",
      "pln Take [[it & run|goto out]] #now$", ⟨1, 1⟩⟩ ∈
        (tokenize "pln Take [[it & run|goto out]] #now$ & end").1 := by decide +kernel
  obtain ⟨-, hiff, hagrees⟩ := agrees_iff_keepsOff hmem rfl
  have hkeeps := hiff.mpr (by decide +kernel)
  exact ⟨hkeeps, (hagrees hkeeps).2⟩

/-- A substitution that hides the start of a link span, and an ampersand in that span. -/
theorem not_isLink_of_substitution :
    ¬∀ (source : String) (l : Lexeme) (newline : Bool) (text : String),
      l ∈ (tokenize source).1 → l.token = .payload (.print newline) text →
      ∀ k, text.toList[k]? = some '&' → ∃ place ∈
        Span.placesOf Span.isLink 0 (Span.ofText text.toList), place.1 ≤ k ∧ k < place.2 := by
  intro h
  obtain ⟨place, hplace, -⟩ := h "p #[[a$ & p b]]"
    ⟨.payload (.print false) "#[[a$ & p b]]", "p #[[a$ & p b]]", ⟨1, 1⟩⟩ false "#[[a$ & p b]]"
    (by decide +kernel) rfl 6 rfl
  have hnone : Span.placesOf Span.isLink 0 (Span.ofText "#[[a$ & p b]]".toList) = [] := by
    decide +kernel
  rw [hnone] at hplace
  exact absurd hplace List.not_mem_nil

end QuestScript.Print
