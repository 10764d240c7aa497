import Mathlib.Data.List.TakeWhile
import Mathlib.Data.Nat.Digits.Defs
import QuestScript.Print.Reading
import QuestScript.Proofs.Outcome

/-!
What the factors of a printed text stand for.

A plain run stands for itself. What a link stands for is seen from its first bar
(`readLink_append`), and a substitution is a blank, a line break, the character that has its code
(`Substitution.IsCode`), or a variable. A relation on the text of a factor says so without its
decoder (`Span.Decodes`), and the decoder finds just that (`Span.decodes_iff`). Segments of factors
that follow one another are put together from the last one to the first one
(`Span.decodeAll_induction`).
-/

namespace QuestScript

open Text

/-- The outcome of a span whose code is bad. -/
def refuse {α : Type} (policy : SubstitutionPolicy) (report : Report) : Outcome Refusal α :=
  match policy with
  | .abort => .fail (.aborted report)
  | .dropStatement => .fail (.dropped report)

/-! ### What stands in a link -/

namespace Print

variable {action : ActionReader} {place : Position} {label : List Char}

lemma readLink_of_notMem (h : '|' ∉ label) :
    readLink action place label = .pure (.link (String.ofList (trim label))
      (.jump (String.ofList (trim label)) place.line)) := by
  have htake : label.takeWhile (· != '|') = label :=
    List.takeWhile_eq_self_iff.mpr fun c hc => by simpa using ne_of_mem_of_not_mem hc h
  have hdrop : label.drop (label.length + 1) = [] := List.drop_eq_nil_of_le (Nat.le_succ _)
  rw [readLink]
  simp only [htake, hdrop]
  rfl

lemma readLink_append {behind : List Char} (h : '|' ∉ label) :
    readLink action place (label ++ '|' :: behind) =
      if '|' ∈ behind then
        .drop (.linkSeparators (String.ofList (label ++ '|' :: behind))) place
      else if trim behind = [] then
        .pure (.link (String.ofList (trim label)) (.jump (String.ofList (trim label)) place.line))
      else
        (action (place.right (label.length + 1 + leadingBlanks behind)) (trim behind)).map
          (.link (String.ofList (trim label))) := by
  have hdrop : (label ++ '|' :: behind).drop (label.length + 1) = behind := by simp
  rw [readLink]
  simp only [takeWhile_append_of_notMem h, hdrop, List.contains_iff_mem, List.isEmpty_iff]

/-! ### What factors stand for -/

namespace Substitution

/-- The body without a percent sign in front of it. -/
def withoutPercent (body : List Char) : List Char :=
  if body.head? = some '%' then body.tail else body

/-- The text is decimal digits that stand for the number, perhaps with a plus sign in front. -/
def IsNumber (cs : List Char) (n : Nat) : Prop :=
  ∃ sign digits, cs = sign ++ digits ∧ (sign = [] ∨ sign = ['+']) ∧ digits ≠ [] ∧
    (∀ d ∈ digits, d.isDigit = true) ∧
    Nat.ofDigits 10 (digits.reverse.map fun d => d.toNat - '0'.toNat) = n

/-- The text is the code of the character, perhaps with blanks around it. -/
def IsCode (code : List Char) (c : Char) : Prop := IsNumber (trim code) c.toNat

/-- What a body without its percent sign stands for. -/
inductive Means : List Char → Segment → Prop
  | blank : Means [] (.literal " ")
  | lineBreak : Means ['/'] (.literal "\n")
  | character {code : List Char} {c : Char} (h : IsCode code c) :
      Means ('#' :: code) (.literal c.toString)
  | name {name : List Char} (hne : name ≠ []) (hslash : name ≠ ['/'])
      (hcode : name.head? ≠ some '#') : Means name (.value (String.ofList name))

variable {body code : List Char} {segment : Segment}

lemma number?_eq_some_iff {cs : List Char} {n : Nat} : number? cs = some n ↔ IsNumber cs n := by
  have hvalue (ds : List Char) :
      ds.foldl (fun n d => 10 * n + (d.toNat - '0'.toNat)) 0 =
        Nat.ofDigits 10 (ds.reverse.map fun d => d.toNat - '0'.toNat) := by
    simp [Nat.ofDigits_eq_foldr, List.foldl_map, Nat.add_comm]
  have hdigits (ds : List Char) : (ds.isEmpty || !ds.all Char.isDigit) = false ↔
      ds ≠ [] ∧ ∀ d ∈ ds, d.isDigit = true := by simp
  unfold number?
  simp only [hvalue, Option.ite_none_left_eq_some, Bool.not_eq_true, hdigits, Option.some.injEq]
  constructor
  · rintro ⟨⟨hne, hall⟩, hn⟩
    split at hne
    · next hplus =>
      obtain ⟨digits, rfl⟩ := List.head?_eq_some_iff.mp hplus
      exact ⟨['+'], digits, rfl, .inr rfl, hne, hall, hn⟩
    · next hplus =>
      rw [if_neg hplus] at hall hn
      exact ⟨[], cs, rfl, .inl rfl, hne, hall, hn⟩
  · rintro ⟨sign, digits, rfl, hsign, hne, hall, hn⟩
    -- a plus sign is no digit, so one in front of digits is the sign
    have hrest : (if (sign ++ digits).head? = some '+' then (sign ++ digits).tail
        else sign ++ digits) = digits := by
      rcases hsign with rfl | rfl
      · refine if_neg fun hplus => ?_
        obtain ⟨rest, rfl⟩ := List.head?_eq_some_iff.mp hplus
        exact absurd (hall '+' List.mem_cons_self) (by decide)
      · rfl
    rw [hrest]
    exact ⟨⟨hne, hall⟩, hn⟩

lemma character?_eq_some_iff {c : Char} : character? code = some c ↔ IsCode code c := by
  rw [IsCode, ← number?_eq_some_iff]
  unfold character?
  constructor
  · intro h
    split at h
    · next n hn =>
      obtain ⟨hvalid, hc⟩ := Option.ite_none_right_eq_some.mp h
      obtain rfl := Option.some.inj hc
      have hsame : (Char.ofNat n).toNat = n := by
        rw [Char.ofNat, dif_pos hvalid]
        rfl
      rw [hn, hsame]
    · cases h
  · intro h
    simp only [h, Char.ofNat_toNat]
    exact if_pos c.valid

lemma character?_eq_none_iff : character? code = none ↔ ∀ c, ¬IsCode code c := by
  simp only [← character?_eq_some_iff, Option.eq_none_iff_forall_ne_some, ne_eq]

lemma decode_eq_ok_iff : decode body = .ok segment ↔ Means (withoutPercent body) segment := by
  unfold decode withoutPercent
  simp only
  generalize (if body.head? = some '%' then body.tail else body) = rest
  constructor
  · intro h
    split at h
    · obtain rfl := Except.ok.inj h
      exact .blank
    · next c rest =>
      split at h
      · -- a code
        next hc =>
        subst hc
        split at h
        · next d hd =>
          obtain rfl := Except.ok.inj h
          exact .character (character?_eq_some_iff.mp hd)
        · cases h
      · -- a line break, or a name
        next hc =>
        split at h
        · next hslash =>
          obtain ⟨rfl, rfl⟩ : c = '/' ∧ rest = [] := by simpa using hslash
          obtain rfl := Except.ok.inj h
          exact .lineBreak
        · next hslash =>
          obtain rfl := Except.ok.inj h
          exact .name (by simp) (by simpa using hslash) (by simpa using hc)
  · intro h
    cases h with
    | blank | lineBreak => rfl
    | character h => simp [character?_eq_some_iff.mpr h]
    | @name name hne hslash hcode =>
      obtain ⟨c, rest, rfl⟩ := List.exists_cons_of_ne_nil hne
      have hc : c ≠ '#' := by simpa using hcode
      have hrest : ¬(c = '/' ∧ rest = []) := by simpa using hslash
      simp [hc, hrest]

lemma decode_eq_error_iff :
    decode body = .error code ↔
      withoutPercent body = '#' :: code ∧ ∀ c, ¬IsCode code c := by
  rw [← character?_eq_none_iff]
  unfold decode withoutPercent
  simp only
  generalize (if body.head? = some '%' then body.tail else body) = rest
  constructor
  · intro h
    split at h
    · cases h
    · next c rest =>
      split at h
      · next hc =>
        subst hc
        split at h
        · cases h
        · next hnone =>
          obtain rfl := Except.error.inj h
          exact ⟨rfl, hnone⟩
      · split at h <;> cases h
  · rintro ⟨rfl, hnone⟩
    simp [hnone]

end Substitution

namespace Span

variable {policy : SubstitutionPolicy} {action : ActionReader} {place : Position}

/-- What a factor that starts at the place is decoded as. A plain run is a literal. A substitution
is what its body means, or its code is reported where it starts. A link with nothing but blanks
behind its bar, or without one, jumps to its label; otherwise its action is read where it stands. A
link has no second bar. -/
inductive Decodes (policy : SubstitutionPolicy) (action : ActionReader) (place : Position) :
    Span → Outcome Refusal Segment → Prop
  | plain (text : List Char) :
      Decodes policy action place (plain text) (.pure (.literal (String.ofList text)))
  | substitution {body : List Char} {segment : Segment}
      (h : Substitution.Means (Substitution.withoutPercent body) segment) :
      Decodes policy action place (substitution body) (.pure segment)
  | code {body code : List Char} (h : Substitution.withoutPercent body = '#' :: code)
      (hcode : ∀ c, ¬Substitution.IsCode code c) :
      Decodes policy action place (substitution body)
        (refuse policy ⟨.badCharacterCode (String.ofList code), place⟩)
  | label {label : List Char} (hlabel : '|' ∉ label) :
      Decodes policy action place (link label) (.pure (.link (String.ofList (trim label))
        (.jump (String.ofList (trim label)) place.line)))
  | blank {label behind : List Char} (hlabel : '|' ∉ label) (hbehind : '|' ∉ behind)
      (hblank : trim behind = []) :
      Decodes policy action place (link (label ++ '|' :: behind))
        (.pure (.link (String.ofList (trim label))
          (.jump (String.ofList (trim label)) place.line)))
  | action {label behind : List Char} (hlabel : '|' ∉ label) (hbehind : '|' ∉ behind)
      (hblank : trim behind ≠ []) :
      Decodes policy action place (link (label ++ '|' :: behind))
        ((action (place.right (2 + label.length + 1 + leadingBlanks behind)) (trim behind)).map
          (.link (String.ofList (trim label))))
  | separators {inner : List Char} (h : 1 < inner.count '|') :
      Decodes policy action place (link inner)
        (.drop (.linkSeparators (String.ofList inner)) (place.right 2))

variable {span : Span} {o : Outcome Refusal Segment}

lemma decodes_link (inner : List Char) :
    (link inner).Decodes policy action place (readLink action (place.right 2) inner) := by
  by_cases hbar : '|' ∈ inner
  · obtain ⟨label, behind, rfl, hlabel⟩ := List.eq_append_cons_of_mem hbar
    rw [readLink_append hlabel]
    split
    · next hbehind =>
      refine .separators ?_
      have := List.count_pos_iff.mpr hbehind
      simp only [List.count_append, List.count_cons_self]
      omega
    · next hbehind =>
      split
      · next hblank => exact .blank hlabel hbehind hblank
      · next hblank =>
        rw [Position.right_right, ← Nat.add_assoc, ← Nat.add_assoc]
        exact .action hlabel hbehind hblank
  · rw [readLink_of_notMem hbar]
    exact .label hbar

/-- **What a factor is decoded as** is one thing, which its decoder finds. -/
theorem decodes_iff : span.Decodes policy action place o ↔ span.decode policy action place = o := by
  constructor
  · intro h
    cases h with
    | plain text => rfl
    | substitution h => simp only [decode, Substitution.decode_eq_ok_iff.mpr h]
    | code h hcode =>
      simp only [decode, Substitution.decode_eq_error_iff.mpr ⟨h, hcode⟩]
      cases policy <;> rfl
    | label hlabel => exact readLink_of_notMem hlabel
    | blank hlabel hbehind hblank =>
      rw [decode, readLink_append hlabel, if_neg hbehind, if_pos hblank]
      rfl
    | action hlabel hbehind hblank =>
      rw [decode, readLink_append hlabel, if_neg hbehind, if_neg hblank, Position.right_right,
        ← Nat.add_assoc, ← Nat.add_assoc]
    | @separators inner h =>
      have hbar := List.count_pos_iff.mp (Nat.zero_lt_of_lt h)
      obtain ⟨label, behind, rfl, hlabel⟩ := List.eq_append_cons_of_mem hbar
      -- the second bar stands behind the first one
      have hbehind : '|' ∈ behind := by
        rw [List.count_append, List.count_eq_zero.mpr hlabel, List.count_cons_self] at h
        exact List.count_pos_iff.mp (by omega)
      rw [decode, readLink_append hlabel, if_pos hbehind]
  · rintro rfl
    cases span with
    | plain text => exact .plain text
    | link inner => exact decodes_link inner
    | substitution body =>
      rw [decode]
      split
      · next segment h => exact .substitution (Substitution.decode_eq_ok_iff.mp h)
      · next code h =>
        obtain ⟨hbody, hcode⟩ := Substitution.decode_eq_error_iff.mp h
        have hrefused : Decodes policy action place (.substitution body) _ :=
          .code hbody hcode
        cases policy <;> exact hrefused

lemma decode_eq_ok {rs : List Report} {segment : Segment}
    (h : span.decode policy action place = ⟨rs, .ok segment⟩) :
    (∃ text, span = plain text ∧ segment = .literal (String.ofList text)) ∨
      (∃ body, span = substitution body ∧
        Substitution.Means (Substitution.withoutPercent body) segment) ∨
      ∃ inner label group, span = link inner ∧
        segment = .link (String.ofList (trim label)) group ∧
        (group = .jump (String.ofList (trim label)) place.line ∨
          ∃ p behind, behind ⊆ inner ∧ action p (trim behind) = ⟨rs, .ok group⟩) := by
  have hdecodes := decodes_iff.mpr h
  generalize ho : (⟨rs, .ok segment⟩ : Outcome Refusal Segment) = o at hdecodes
  cases hdecodes with
  | plain text => exact .inl ⟨text, rfl, (Outcome.pure_eq_ok.mp ho.symm).2.symm⟩
  | @substitution body meaning hmeans =>
    obtain ⟨-, rfl⟩ := Outcome.pure_eq_ok.mp ho.symm
    exact .inr (.inl ⟨body, rfl, hmeans⟩)
  | code => cases policy <;> simp [refuse, Outcome.fail] at ho
  | @label label =>
    obtain ⟨-, rfl⟩ := Outcome.pure_eq_ok.mp ho.symm
    exact .inr (.inr ⟨label, label, _, rfl, rfl, .inl rfl⟩)
  | @blank label =>
    obtain ⟨-, rfl⟩ := Outcome.pure_eq_ok.mp ho.symm
    exact .inr (.inr ⟨_, label, _, rfl, rfl, .inl rfl⟩)
  | @action label behind =>
    obtain ⟨group, hgroup, rfl⟩ := Outcome.map_eq_ok.mp ho.symm
    exact .inr (.inr ⟨_, label, group, rfl, rfl, .inr ⟨_, behind, by simp, hgroup⟩⟩)
  | separators => simp [Outcome.drop, Outcome.fail] at ho

end Span

/-! ### Factors one after another -/

/-- What a factor that is decoded passes on from those behind it holds of all that were decoded. -/
theorem Span.decodeAll_induction {policy : SubstitutionPolicy} {action : ActionReader}
    {motive : List Span → List Report → List Segment → Prop} (nil : motive [] [] [])
    (cons : ∀ {place : Position} {span : Span} {spans : List Span} {first later : List Report}
      {segment : Segment} {tail : List Segment},
      span.decode policy action place = ⟨first, .ok segment⟩ → motive spans later tail →
        motive (span :: spans) (first ++ later) (segment.glue tail))
    {place : Position} {spans : List Span} {rs : List Report} {segments : List Segment}
    (h : decodeAll policy action place spans = ⟨rs, .ok segments⟩) : motive spans rs segments := by
  induction spans generalizing place rs segments with
  | nil =>
    obtain ⟨rfl, rfl⟩ := Outcome.pure_eq_ok.mp h
    exact nil
  | cons span spans ih =>
    rw [decodeAll] at h
    obtain ⟨segment, first, later, hspan, hmap, rfl⟩ := Outcome.bind_eq_ok.mp h
    obtain ⟨tail, htail, rfl⟩ := Outcome.map_eq_ok.mp hmap
    exact cons hspan (ih htail)

end Print

end QuestScript
