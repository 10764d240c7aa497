import QuestScript.Proofs.Print.Factoring
import QuestScript.Proofs.Print.Meaning
import QuestScript.Proofs.Program.WellFormed
import QuestScript.Proofs.Statement.Correspondence

/-!
Printed text, factor by factor.

The factors of a text are decoded from left to right, each at its own place, up to the first one
that cannot be. The segments of the text are those of its factors, where literals that touch are one
and empty ones are none.
-/

namespace QuestScript

open Text

/-! ### Literals that grow together -/

namespace Segment

/-- The characters of a literal one by one, and any other segment as it is. -/
def units : Segment → List (Char ⊕ Segment)
  | literal text => text.toList.map .inl
  | segment => [.inr segment]

variable {segment : Segment} {segments : List Segment}

lemma units_glue (segment : Segment) (rest : List Segment) :
    (segment.glue rest).flatMap units = segment.units ++ rest.flatMap units := by
  rcases segment with a | _ | _
  case value | link => rfl
  rcases rest with _ | ⟨b | _ | _, rest⟩
  case cons.literal =>
    simp only [glue, List.flatMap_cons, units, String.toList_append, List.map_append,
      List.append_assoc]
  all_goals by_cases ha : a = "" <;> simp [glue, units, ha]

lemma flatMap_units_foldr (segments : List Segment) :
    (segments.foldr glue []).flatMap units = segments.flatMap units := by
  induction segments with
  | nil => rfl
  | cons segment segments ih => rw [List.foldr_cons, units_glue, ih, List.flatMap_cons]

lemma coalesced_foldr (h : .value "" ∉ segments) : Coalesced (segments.foldr glue []) := by
  induction segments with
  | nil => exact coalesced_nil
  | cons segment segments ih =>
    rw [List.mem_cons, not_or] at h
    exact (ih h.2).glue (Ne.symm h.1)

/-- The literal that the segments begin with, or an empty one. -/
def lead : List Segment → String
  | literal text :: _ => text
  | _ => ""

lemma Coalesced.takeWhile_units (h : Coalesced segments) :
    (segments.flatMap units).takeWhile Sum.isLeft = (lead segments).toList.map .inl := by
  rcases segments with _ | ⟨text | _ | _, segments⟩
  case cons.literal =>
    obtain ⟨-, hrest, hnext⟩ := coalesced_cons.mp h
    have hnone : (segments.flatMap units).takeWhile Sum.isLeft = [] := by
      rcases segments with _ | ⟨_ | _ | _, segments⟩
      case cons.literal => exact absurd ⟨trivial, trivial⟩ (hnext _ rfl)
      all_goals rfl
    rw [List.flatMap_cons, units, List.takeWhile_append_of_pos, hnone, List.append_nil]
    · rfl
    · intro unit hunit
      obtain ⟨c, -, rfl⟩ := List.mem_map.mp hunit
      rfl
  all_goals rfl

lemma Coalesced.lead_eq {others : List Segment} (h : Coalesced segments) (h' : Coalesced others)
    (heq : segments.flatMap units = others.flatMap units) : lead segments = lead others := by
  have htake := h.takeWhile_units
  rw [heq, h'.takeWhile_units] at htake
  have hinl : Function.Injective (Sum.inl : Char → Char ⊕ Segment) := fun _ _ => Sum.inl.inj
  exact (String.toList_inj.mp (List.map_injective_iff.mpr hinl htake)).symm

/-- **Coalesced segments are told by their units.** There is one way at most to merge literals. -/
theorem Coalesced.eq_of_units {others : List Segment} (h : Coalesced segments)
    (h' : Coalesced others) (heq : segments.flatMap units = others.flatMap units) :
    segments = others := by
  induction segments generalizing others with
  | nil =>
    have hlead := h.lead_eq h' heq
    rcases others with _ | ⟨text | _ | _, others⟩
    · rfl
    · exact absurd hlead.symm (coalesced_cons.mp h').1
    all_goals cases heq
  | cons segment segments ih =>
    have hlead := h.lead_eq h' heq
    obtain ⟨hsolid, hsegments, -⟩ := coalesced_cons.mp h
    rcases others with _ | ⟨other, others⟩
    · rcases segment with text | _ | _
      · exact absurd hlead hsolid
      all_goals cases heq
    obtain ⟨hsolid', hothers, -⟩ := coalesced_cons.mp h'
    -- both begin with the same literal, or with none and then with the same unit
    have hsame : segment = other := by
      rcases segment with text | _ | _ <;> rcases other with text' | _ | _
      · exact congrArg literal hlead
      · exact absurd hlead hsolid
      · exact absurd hlead hsolid
      · exact absurd hlead.symm hsolid'
      · exact Sum.inr.inj (List.cons.inj heq).1
      · exact Sum.inr.inj (List.cons.inj heq).1
      · exact absurd hlead.symm hsolid'
      · exact Sum.inr.inj (List.cons.inj heq).1
      · exact Sum.inr.inj (List.cons.inj heq).1
    subst hsame
    rw [List.flatMap_cons, List.flatMap_cons, List.append_cancel_left_eq] at heq
    rw [ih hsegments hothers heq]

end Segment

namespace Print

namespace Span

variable {policy : SubstitutionPolicy} {action : ActionReader} {place : Position} {span : Span}
  {o : Outcome Refusal Segment}

/-! ### Factors one after another -/

/-- Factors that follow one another from the place on are decoded as the segments, with the
reports. -/
inductive DecodeAll (policy : SubstitutionPolicy) (action : ActionReader) :
    Position → List Span → List Report → List Segment → Prop
  | nil {place : Position} : DecodeAll policy action place [] [] []
  | cons {place : Position} {span : Span} {spans : List Span} {made rs : List Report}
      {segment : Segment} {segments : List Segment}
      (hspan : span.Decodes policy action place ⟨made, .ok segment⟩)
      (hspans : DecodeAll policy action (place.right span.source.length) spans rs segments) :
      DecodeAll policy action place (span :: spans) (made ++ rs) (segment :: segments)

variable {spans front back : List Span} {rs made : List Report} {segments decoded : List Segment}
  {refusal : Refusal}

/-- All factors are decoded where none of them fails, and their segments are glued together. -/
theorem decodeAll_eq_ok_iff : decodeAll policy action place spans = ⟨rs, .ok segments⟩ ↔
    ∃ decoded, DecodeAll policy action place spans rs decoded ∧
      segments = decoded.foldr Segment.glue [] := by
  induction spans generalizing place rs segments with
  | nil =>
    rw [decodeAll, Outcome.pure_eq_ok]
    constructor
    · rintro ⟨rfl, rfl⟩
      exact ⟨[], .nil, rfl⟩
    · rintro ⟨decoded, hdecoded, rfl⟩
      cases hdecoded
      exact ⟨rfl, rfl⟩
  | cons span spans ih =>
    rw [decodeAll, Outcome.bind_eq_ok]
    constructor
    · rintro ⟨segment, made, later, hspan, hmap, rfl⟩
      obtain ⟨tail, htail, rfl⟩ := Outcome.map_eq_ok.mp hmap
      obtain ⟨decoded, hdecoded, rfl⟩ := ih.mp htail
      exact ⟨segment :: decoded, .cons (decodes_iff.mpr hspan) hdecoded, rfl⟩
    · rintro ⟨decoded, hdecoded, rfl⟩
      cases hdecoded with
      | @cons _ _ _ made later segment decoded hspan hspans =>
        refine ⟨segment, made, later, decodes_iff.mp hspan, ?_, rfl⟩
        exact Outcome.map_eq_ok.mpr ⟨_, ih.mpr ⟨decoded, hspans, rfl⟩, rfl⟩

/-- The factors in front are decoded and the one behind them is refused, with the reports made up to
there. -/
def FailsAt (policy : SubstitutionPolicy) (action : ActionReader) (place : Position)
    (front : List Span) (span : Span) (rs : List Report) (refusal : Refusal) : Prop :=
  ∃ first decoded made, DecodeAll policy action place front first decoded ∧
    span.Decodes policy action (place.right (front.flatMap source).length)
      ⟨made, .error refusal⟩ ∧ rs = first ++ made

lemma FailsAt.cons {segment : Segment} {first : Span}
    (hfirst : first.Decodes policy action place ⟨made, .ok segment⟩)
    (h : FailsAt policy action (place.right first.source.length) front span rs refusal) :
    FailsAt policy action place (first :: front) span (made ++ rs) refusal := by
  obtain ⟨later, decoded, more, hfront, hspan, rfl⟩ := h
  refine ⟨made ++ later, segment :: decoded, more, .cons hfirst hfront, ?_, by simp⟩
  rwa [List.flatMap_cons, List.length_append, ← Position.right_right]

lemma exists_failsAt (h : decodeAll policy action place spans = ⟨rs, .error refusal⟩) :
    ∃ front span back, spans = front ++ span :: back ∧
      FailsAt policy action place front span rs refusal := by
  induction spans generalizing place rs with
  | nil => simp [decodeAll, Outcome.pure] at h
  | cons span spans ih =>
    rw [decodeAll] at h
    rcases hspan : span.decode policy action place with ⟨made, other | segment⟩
    · rw [hspan] at h
      obtain ⟨rfl, rfl⟩ : made = rs ∧ other = refusal := by simpa [Outcome.bind] using h
      exact ⟨[], span, spans, rfl, [], [], made, .nil, decodes_iff.mpr hspan, rfl⟩
    · rw [hspan] at h
      rcases hlater : decodeAll policy action (place.right span.source.length) spans with
        ⟨more, other | tail⟩
      · obtain ⟨rfl, rfl⟩ : made ++ more = rs ∧ other = refusal := by
          simpa [hlater, Outcome.bind, Outcome.map, Outcome.after, Except.map] using h
        obtain ⟨front, last, back, rfl, hfails⟩ := ih hlater
        exact ⟨span :: front, last, back, rfl, hfails.cons (decodes_iff.mpr hspan)⟩
      · simp [hlater, Outcome.bind, Outcome.map, Outcome.after, Except.map] at h

/-- **Decoding stops at the first factor that cannot be decoded**, whatever stands behind it. -/
theorem decodeAll_of_failsAt (h : FailsAt policy action place front span rs refusal)
    (back : List Span) :
    decodeAll policy action place (front ++ span :: back) = ⟨rs, .error refusal⟩ := by
  obtain ⟨first, decoded, made, hfront, hspan, rfl⟩ := h
  induction hfront with
  | nil =>
    rw [List.flatMap_nil, List.length_nil, Position.right_zero] at hspan
    rw [List.nil_append, decodeAll, decodes_iff.mp hspan]
    rfl
  | @cons place first front reports later segment decoded hfirst _ ih =>
    rw [List.flatMap_cons, List.length_append, ← Position.right_right] at hspan
    rw [List.cons_append, decodeAll, decodes_iff.mp hfirst, Outcome.bind_of_ok rfl, ih hspan]
    simp [Outcome.map, Outcome.after, Except.map]

/-! ### Factors are decoded by themselves -/

section Readers

variable {action' : ActionReader}

lemma Decodes.congr (h : span.Decodes policy action place o)
    (hagree : ∀ p behind, p.column < place.column + span.source.length →
      action' p behind = action p behind) : span.Decodes policy action' place o := by
  cases h with
  | plain text => exact .plain text
  | substitution h => exact .substitution h
  | code h hcode => exact .code h hcode
  | label hlabel => exact .label hlabel
  | blank hlabel hbehind hblank => exact .blank hlabel hbehind hblank
  | separators h => exact .separators h
  | @action label behind hlabel hbehind hblank =>
    have hlead : leadingBlanks behind ≤ behind.length := (List.takeWhile_sublist _).length_le
    rw [← hagree]
    · exact .action hlabel hbehind hblank
    · simp only [Position.right, source, List.length_append, List.length_cons, List.length_nil]
      omega

lemma DecodeAll.congr (h : DecodeAll policy action place spans rs decoded)
    (hagree : ∀ p behind, p.column < place.column + (spans.flatMap source).length →
      action' p behind = action p behind) : DecodeAll policy action' place spans rs decoded := by
  induction h with
  | nil => exact .nil
  | cons hspan _ ih =>
    simp only [List.flatMap_cons, List.length_append] at hagree
    refine .cons (hspan.congr fun p behind hp => hagree p behind (by omega)) (ih ?_)
    intro p behind hp
    refine hagree p behind ?_
    simp only [Position.right] at hp
    omega

/-- **No factor is read behind the one that fails.** -/
lemma FailsAt.congr (h : FailsAt policy action place front span rs refusal)
    (hagree : ∀ p behind, p.column < place.column + ((front ++ [span]).flatMap source).length →
      action' p behind = action p behind) :
    FailsAt policy action' place front span rs refusal := by
  obtain ⟨first, decoded, made, hfront, hspan, hrs⟩ := h
  simp only [List.flatMap_append, List.flatMap_singleton, List.length_append] at hagree
  refine ⟨first, decoded, made, hfront.congr fun p behind hp => hagree p behind (by omega),
    hspan.congr fun p behind hp => hagree p behind ?_, hrs⟩
  simp only [Position.right] at hp
  omega

end Readers

lemma DecodeAll.value_notMem (h : DecodeAll policy action place spans rs decoded) :
    .value "" ∉ decoded := by
  induction h with
  | nil => simp
  | cons hspan _ ih =>
    rw [List.mem_cons, not_or]
    exact ⟨(ne_value_of_decode (decodes_iff.mp hspan)).symm, ih⟩

end Span

/-- **Printed text is decoded factor by factor.** A text has its factors in one way only. If it is
read, its segments are those that the factors are decoded as, where literals that touch have become
one and empty ones are left out. If it is not, the refusal is that of the first factor which cannot
be decoded, and nothing is read or reported of what stands behind that factor. -/
theorem read_factors (policy : SubstitutionPolicy) (action : ActionReader) (place : Position)
    (text : List Char) :
    ∃ spans, (Span.Factors spans ∧ spans.flatMap Span.source = text) ∧
      (∀ others, Span.Factors others → others.flatMap Span.source = text → others = spans) ∧
      (∀ rs segments, read policy action place text = ⟨rs, .ok segments⟩ ↔
        ∃ decoded, Span.DecodeAll policy action place spans rs decoded ∧
          Segment.Coalesced segments ∧
          segments.flatMap Segment.units = decoded.flatMap Segment.units) ∧
      (∀ rs refusal, read policy action place text = ⟨rs, .error refusal⟩ →
        ∃ front span back, spans = front ++ span :: back ∧
          Span.FailsAt policy action place front span rs refusal) ∧
      ∀ front span back rs refusal, spans = front ++ span :: back →
        Span.FailsAt policy action place front span rs refusal →
        ∀ action' : ActionReader,
          (∀ p behind, p.column < place.column + ((front ++ [span]).flatMap Span.source).length →
            action' p behind = action p behind) →
          read policy action' place text = ⟨rs, .error refusal⟩ := by
  refine ⟨Span.ofText text, ⟨Span.factors_ofText text, Span.flatMap_source_ofText text⟩, ?_, ?_, ?_,
    ?_⟩
  · -- the factors are unique
    rintro others hothers rfl
    exact (Span.ofText_of_factors hothers).symm
  · -- where all of them are decoded
    intro rs segments
    rw [read, Span.decodeAll_eq_ok_iff]
    refine exists_congr fun decoded => and_congr_right fun hdecoded => ?_
    have hcoalesced := Segment.coalesced_foldr hdecoded.value_notMem
    constructor
    · rintro rfl
      exact ⟨hcoalesced, Segment.flatMap_units_foldr decoded⟩
    · -- literals can be merged in one way only
      rintro ⟨hsegments, hunits⟩
      refine hsegments.eq_of_units hcoalesced ?_
      rw [hunits, Segment.flatMap_units_foldr]
  · -- where one of them fails
    exact fun rs refusal => Span.exists_failsAt
  · -- nothing behind the failure is read
    rintro front span back rs refusal heq hfails action' hagree
    rw [read, heq]
    exact Span.decodeAll_of_failsAt (hfails.congr hagree) back

end Print

end QuestScript
