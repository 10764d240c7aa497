import QuestScript.Proofs.Program.Parallel

/-!
Programs one after another.

A line break ends all that is read in front of it. So the groups of a program that ends with a line
break are the same in front of another program, whatever stands there, and the other program is read
behind it as by itself.
-/

namespace QuestScript

namespace Parallel

variable {α : Type} {finish finish' : Lexeme} {ts : List Lexeme}

/-- The reading of a text, in parallel with itself. -/
def same : Parallel where
  report := Eq
  line := id
  text p p' _ := p' = p

lemma lexemes_same (l : Lexeme) : same.Lexemes l l := ⟨rfl, rfl, fun _ => rfl⟩

lemma forall₂_same (ts : List Lexeme) : List.Forall₂ same.Lexemes ts ts :=
  List.forall₂_same.mpr fun l _ => lexemes_same l

lemma lawful_same : same.Lawful where
  part h := congrArg (Position.right · _) h
  line h := congrArg Position.line h
  fault h _ _ := congrArg (Report.mk _) h.symm
  code _ h := congrArg (Report.mk _) h.symm
  reports h := by
    obtain rfl := h
    exact List.forall₂_same.mpr fun _ _ => rfl
  lexemes h := by
    obtain rfl := h
    exact forall₂_same _

lemma outcomes_same {R : α → α → Prop} (hR : ∀ a, R a a) (o : Outcome Refusal α) :
    same.Outcomes R o o := by
  have hrs : List.Forall₂ same.report o.reports o.reports := List.forall₂_same.mpr fun _ _ => rfl
  rcases o with ⟨rs, (r | r) | a⟩
  · exact .error hrs (.dropped rfl)
  · exact .error hrs (.aborted rfl)
  · exact .ok hrs (hR a)

lemma contexts_same (policy : SubstitutionPolicy) (action : ActionReader)
    (finish finish' : Lexeme) :
    same.Contexts ⟨policy, action, finish⟩ ⟨policy, action, finish'⟩ where
  lawful := lawful_same
  policy := rfl
  action h := by
    obtain rfl := h
    exact outcomes_same (fun g => (Group.renumber_id g).symm) _

lemma abreast_append (us : List Lexeme) (hne : ts ≠ [])
    (hlast : ∀ l ∈ ts.getLast?, l.token = .mark .lineBreak) :
    same.Abreast finish finish' (ts ++ us) ts := by
  induction ts with
  | nil => exact absurd rfl hne
  | cons l rest ih =>
    rcases rest with _ | ⟨l', rest⟩
    · exact .lineBreak _ _ (lexemes_same l) (hlast l rfl)
    · exact .cons (lexemes_same l) (ih (by simp) (by simpa using hlast))

end Parallel

/-! ### Lines -/

lemma Lexeme.IsEnded.lineLength_append {ts : List Lexeme} (h : IsEnded ts) (hne : ts ≠ [])
    (us : List Lexeme) : lineLength (ts ++ us) = lineLength ts := by
  obtain ⟨front, l, rfl⟩ := (List.eq_nil_or_concat ts).resolve_left hne
  have hl : l.token = .mark .lineBreak := h l (by simp)
  simp only [lineLength, List.concat_eq_append, List.append_assoc, List.singleton_append]
  rw [List.takeWhile_append, List.takeWhile_append]
  simp [hl]

variable {policy : SubstitutionPolicy} {action : ActionReader} {finish finish' : Lexeme}
  {ts : List Lexeme}

lemma Group.outcome_readLine_append (hfinish : finish.token = .mark .sourceEnd)
    (hts : Lexeme.IsEnded ts) (hne : ts ≠ []) (us : List Lexeme) :
    (readLine ⟨policy, action, finish⟩ (ts ++ us)).outcome =
      (readLine ⟨policy, action, finish'⟩ ts).outcome := by
  have hlines := ((Parallel.contexts_same policy action finish finish').readLine hfinish
    (Parallel.abreast_append us hne hts)).outcomes
  rcases Parallel.Outcomes.of_escalate hlines with ⟨made, made', ss, ss', hss, hss', hmade, heq⟩ |
    ⟨made, made', cause, cause', hcause, hcause', hmade, heq⟩
  · obtain rfl : made = made' := by simpa [Parallel.same] using hmade
    rw [hss, hss', show ss' = ss from heq.trans (Statement.map_renumber_id ss)]
  · obtain rfl : made = made' := by simpa [Parallel.same] using hmade
    rw [hcause, hcause', heq]

namespace Program

lemma outcome_readGroups_of_lineBreak (ctx : Context) {l : Lexeme} (hl : l.token = .mark .lineBreak)
    (rest : List Lexeme) :
    (readGroups ctx (l :: rest)).outcome = (readGroups ctx rest).outcome := by
  rw [readGroups, if_pos hl]
  rfl

lemma outcome_readGroups_cons {ctx : Context} (hfinish : ctx.finish.token = .mark .sourceEnd)
    {l : Lexeme} (hl : l.token ≠ .mark .lineBreak) (rest : List Lexeme) :
    (readGroups ctx (l :: rest)).outcome =
      (Group.readLine ctx (l :: rest)).outcome.bind fun statements =>
        (readGroups ctx ((l :: rest).drop (Lexeme.lineLength (l :: rest)))).outcome.map
          (groupOfLine l.start.line statements ++ ·) := by
  rw [readGroups, if_neg hl]
  rcases hline : Group.readLine ctx (l :: rest) with ⟨⟨made, cause | statements⟩, k⟩
  · rfl
  · have hlength := readsLines hfinish _ statements (by rw [hline]; rfl)
    rw [hline] at hlength
    obtain rfl : k = Lexeme.lineLength (l :: rest) := hlength
    rw [Lexeme.lineLength_cons hl, List.drop_succ_cons]
    rfl

lemma outcome_bind_append (line : Outcome Report (List Statement))
    (group : List Statement → List Group)
    (front back : Outcome Report (List Group)) :
    (line.bind fun statements =>
        (front.bind fun groups => back.map (groups ++ ·)).map (group statements ++ ·)) =
      (line.bind fun statements => front.map (group statements ++ ·)).bind fun groups =>
        back.map (groups ++ ·) := by
  rcases line with ⟨made, cause | statements⟩
  · rfl
  rcases front with ⟨more, cause | groups⟩
  · rfl
  rcases back with ⟨rest, cause | later⟩ <;>
    simp [Outcome.bind, Outcome.map, Outcome.after, Except.map]

/-- **Lines in front of a line break do not touch those behind it.** -/
theorem outcome_readGroups_append (hfinish : finish.token = .mark .sourceEnd)
    (hfinish' : finish'.token = .mark .sourceEnd) (hts : Lexeme.IsEnded ts) (us : List Lexeme) :
    (readGroups ⟨policy, action, finish⟩ (ts ++ us)).outcome =
      (readGroups ⟨policy, action, finish'⟩ ts).outcome.bind fun groups =>
        (readGroups ⟨policy, action, finish⟩ us).outcome.map (groups ++ ·) := by
  induction hn : ts.length using Nat.strongRecOn generalizing ts with
  | ind n ih =>
  rcases ts with _ | ⟨l, rest⟩
  · rw [readGroups, List.nil_append]
    rcases (readGroups ⟨policy, action, finish⟩ us).outcome with ⟨made, cause | groups⟩ <;> rfl
  by_cases hl : l.token = .mark .lineBreak
  · rw [List.cons_append, outcome_readGroups_of_lineBreak _ hl,
      outcome_readGroups_of_lineBreak _ hl]
    exact ih rest.length (by simp [← hn]) (hts.drop 1) rfl
  -- the first line ends in `ts`, so it is the same in front of `us`
  have hlength := hts.lineLength_append (by simp) us
  have hle : Lexeme.lineLength (l :: rest) ≤ (l :: rest).length :=
    (List.takeWhile_sublist _).length_le
  have hlen : ((l :: rest).drop (Lexeme.lineLength (l :: rest))).length < n := by
    rw [List.length_drop, ← hn, Lexeme.lineLength_cons hl, List.length_cons]
    omega
  rw [outcome_readGroups_cons hfinish' hl, ← Group.outcome_readLine_append hfinish hts (by simp) us]
  rw [List.cons_append] at hlength ⊢
  rw [outcome_readGroups_cons hfinish hl, hlength, ← List.cons_append,
    List.drop_append_of_le_length hle, ih _ hlen (hts.drop _) rfl]
  exact outcome_bind_append _ _ _ _

end Program

end QuestScript
