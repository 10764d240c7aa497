import QuestScript.Proofs.Expr.Value
import QuestScript.Proofs.Program.Origin

/-!
What a program compares and assigns is typed.

A condition is followed by the word `then`, so it is always typed. A value is typed if it was read
to its end, and a source with nothing to report about has values of no other kind: its statements
are followed by a separator, the word `else`, or the end of a line.
-/

namespace QuestScript

open Statement

/-- The conditions in the statement are typed, and its values as well if the source is clean. -/
def Statement.Typed (clean : Prop) : Statement → Prop
  | conditional condition _ _ => condition.Typed
  | assign _ value => clean → value.Typed
  | _ => True

def Group.Typed (clean : Prop) (g : Group) : Prop := ∀ s ∈ g.statements, s.Typed clean

/-- The statement and all groups inside it are typed. -/
def Statement.Sound (clean : Prop) (s : Statement) : Prop :=
  s.Typed clean ∧ ∀ g ∈ s.groups, g.Everywhere (Group.Typed clean)

/-- The actions that are read are typed. -/
def ActionReader.Sound (clean : Prop) (action : ActionReader) : Prop :=
  ∀ place text rs g, action place text = ⟨rs, .ok g⟩ → (clean → rs = []) →
    g.Everywhere (Group.Typed clean)

variable {clean : Prop} {ctx : Context} {ts : List Lexeme} {rs : List Report} {k : Nat}

lemma Group.everywhere_of_sound {g : Group} (h : ∀ s ∈ g.statements, s.Sound clean) :
    g.Everywhere (Group.Typed clean) :=
  Group.everywhere_iff.mpr ⟨fun s hs => (h s hs).1, fun s hs => (h s hs).2⟩

lemma Statement.typed_of_isPlain {s : Statement} (h : s.IsPlain) : s.Typed clean := by
  cases s <;> trivial

lemma ActionReader.Sound.of_gives {action : ActionReader} {payload : List Char} {g : Group}
    (haction : action.Sound clean) (h : action.Gives payload rs g) (hclean : clean → rs = []) :
    g.Everywhere (Group.Typed clean) := by
  rcases h with ⟨target, line, rfl⟩ | ⟨place, text, made, -, hmade, hg⟩
  · refine Group.everywhere_jump fun s hs => ?_
    obtain rfl := List.mem_singleton.mp hs
    trivial
  · refine haction place text made g hg fun h => ?_
    have := hclean h
    subst this
    exact List.subset_nil.mp hmade

/-! ### Where statements end -/

lemma Expr.ended_of_startsWith {m : Mark} (h : startsWith m ts = true)
    (hm : Expr.endsValue m = true) : Expr.Ended ts := by
  intro l hl
  have : l.token = .mark m := by simpa [startsWith, Option.mem_def.mp hl] using h
  simp [this, Expr.admits, hm]

lemma Expr.ended_of_endsStatement (h : ∀ l ∈ ts.head?, l.endsStatement = true) : Expr.Ended ts := by
  intro l hl
  have := h l hl
  simp only [Lexeme.endsStatement, Bool.or_eq_true, decide_eq_true_eq] at this
  rcases this with h | h <;> simp [h, Expr.admits, Expr.endsValue]

lemma NumberExpr.bounded_of_startsWith_thenWord (h : startsWith .thenWord ts = true) :
    NumberExpr.Bounded ts :=
  Expr.bounded_of_ended (Expr.ended_of_startsWith h rfl)

/-! ### Statements -/

namespace Statement

/-- A statement that is read here is sound, if a clean source ends it. -/
def ReadsSound (clean : Prop) (ctx : Context) (ts : List Lexeme) : Prop :=
  ∀ rs s k, read ctx ts = ⟨⟨rs, .ok s⟩, k⟩ → (clean → rs = [] ∧ Expr.Ended (ts.drop k)) →
    s.Sound clean

/-- The statements of a chain that is read here are sound, if a clean source ends it. -/
def ChainsSound (clean : Prop) (ctx : Context) (ts : List Lexeme) : Prop :=
  ∀ rs statements k, readChain ctx ts = ⟨⟨rs, .ok statements⟩, k⟩ →
    (clean → rs = [] ∧ Expr.Ended (ts.drop k)) → ∀ s ∈ statements, s.Sound clean

lemma sound_of_readSimple {l : Lexeme} {rest : List Lexeme} {s : Statement}
    (haction : ctx.action.Sound clean) (h : readSimple ctx l rest = ⟨⟨rs, .ok s⟩, k⟩)
    (hclean : clean → rs = [] ∧ Expr.Ended ((l :: rest).drop k)) : s.Sound clean := by
  rcases readSimple_eq_ok h with
    ⟨name, value, m, rfl, hvalue, rfl⟩ | ⟨carrier, text, -, hpayload⟩ | hbrief
  · refine ⟨fun hc => Expr.typed_of_read hvalue ?_, by simp [groups]⟩
    have := (hclean hc).2
    rwa [Nat.add_comm 2 m, show m + 2 = m + 1 + 1 from rfl, List.drop_succ_cons, Nat.add_comm m 1,
      ← List.drop_drop, List.drop_one] at this
  · obtain ⟨hplain, hgroups⟩ := gives_of_readPayload hpayload
    exact ⟨typed_of_isPlain hplain,
      fun g hg => haction.of_gives (hgroups g hg) fun hc => (hclean hc).1⟩
  · exact ⟨typed_of_isPlain hbrief.isPlain, by simp [hbrief.groups_eq_nil]⟩

lemma sound_of_readGroup {line : Nat} {g : Group} (hchain : ChainsSound clean ctx ts)
    (h : readGroup ctx line ts = ⟨⟨rs, .ok g⟩, k⟩)
    (hclean : clean → rs = [] ∧ Expr.Ended (ts.drop k)) : g.Everywhere (Group.Typed clean) := by
  rw [readGroup] at h
  obtain ⟨statements, hstatements, rfl⟩ := Parsed.map_eq_ok.mp h
  exact Group.everywhere_of_sound (hchain _ _ _ hstatements hclean)

lemma sound_of_readConditional {line : Nat} {s : Statement}
    (hchain : ∀ us : List Lexeme, us.length ≤ ts.length → ChainsSound clean ctx us)
    (h : readConditional ctx line ts = ⟨⟨rs, .ok s⟩, k⟩)
    (hclean : clean → rs = [] ∧ Expr.Ended (ts.drop k)) : s.Sound clean := by
  obtain ⟨condition, i, thenGroup, first, n, hcondition, hthen, hgroup, hcases⟩ :=
    readConditional_eq_ok h
  have htyped : condition.Typed :=
    BoolExpr.typed_of_read hcondition (NumberExpr.bounded_of_startsWith_thenWord hthen)
  have hbranch (n : Nat) : ChainsSound clean ctx (ts.drop n) :=
    hchain _ (by rw [List.length_drop]; omega)
  rcases hcases with ⟨rfl, rfl, rfl, -⟩ | ⟨elseGroup, later, m, helse, hother, rfl, rfl, rfl⟩
  · -- one branch
    refine ⟨htyped, fun g hg => ?_⟩
    obtain rfl : g = thenGroup := by simpa [groups] using hg
    exact sound_of_readGroup (hbranch _) hgroup (by rwa [List.drop_drop])
  · -- two branches, the first of which ends at the word `else`
    have hnil (hc : clean) : first = [] ∧ later = [] := by simpa using (hclean hc).1
    refine ⟨htyped, fun g hg => ?_⟩
    obtain rfl | rfl : g = thenGroup ∨ g = elseGroup := by simpa [groups] using hg
    · refine sound_of_readGroup (hbranch _) hgroup fun hc => ⟨(hnil hc).1, ?_⟩
      rw [List.drop_drop]
      exact Expr.ended_of_startsWith helse rfl
    · refine sound_of_readGroup (hbranch _) hother fun hc => ⟨(hnil hc).2, ?_⟩
      rw [List.drop_drop]
      exact (hclean hc).2

lemma readsSound (haction : ctx.action.Sound clean)
    (hchain : ∀ us : List Lexeme, us.length < ts.length → ChainsSound clean ctx us) :
    ReadsSound clean ctx ts := by
  intro rs s k h hclean
  rcases ts with _ | ⟨l, rest⟩
  · simp [read, Outcome.fail] at h
  rw [read] at h
  split at h
  · obtain ⟨m, hconditional, rfl⟩ := Parsed.after_eq_ok.mp h
    rw [Nat.add_comm 1 m, List.drop_succ_cons] at hclean
    refine sound_of_readConditional (fun us hus => hchain us ?_) hconditional hclean
    simp only [List.length_cons]
    omega
  · exact sound_of_readSimple haction h hclean

lemma chainsSound (hread : ∀ us : List Lexeme, us.length ≤ ts.length → ReadsSound clean ctx us)
    (hchain : ∀ us : List Lexeme, us.length < ts.length → ChainsSound clean ctx us) :
    ChainsSound clean ctx ts := by
  intro rs statements k h hclean
  obtain ⟨s, first, i, hs, hcases⟩ := readChain_eq_ok h
  have hlen : ts ≠ [] := by
    rintro rfl
    simp [read, Outcome.fail] at hs
  rcases hcases with ⟨rfl, rfl, rfl, -⟩ | ⟨tail, later, m, hcontinues, htail, rfl, rfl, rfl⟩
  · -- the last statement
    intro t ht
    obtain rfl := List.mem_singleton.mp ht
    exact hread ts (Nat.le_refl _) _ _ _ hs hclean
  · have hnil (hc : clean) : first = [] ∧ later = [] := by simpa using (hclean hc).1
    intro t ht
    rcases List.mem_cons.mp ht with rfl | ht
    · -- a statement that ends at an ampersand
      refine hread ts (Nat.le_refl _) _ _ _ hs fun hc => ⟨(hnil hc).1, ?_⟩
      exact Expr.ended_of_startsWith (Group.startsWith_of_continues hcontinues) rfl
    · have hshort : (ts.drop (i + 1)).length < ts.length := by
        have := List.length_pos_iff.mpr hlen
        rw [List.length_drop]
        omega
      refine hchain _ hshort _ _ _ htail (fun hc => ⟨(hnil hc).2, ?_⟩) t ht
      rw [List.drop_drop]
      exact (hclean hc).2

/-- Statements are sound wherever they are read, if actions are. -/
theorem sound_of_read (haction : ctx.action.Sound clean) (ts : List Lexeme) :
    ReadsSound clean ctx ts ∧ ChainsSound clean ctx ts := by
  induction hn : ts.length using Nat.strongRecOn generalizing ts with
  | ind n ih =>
  have hshort : ∀ us : List Lexeme, us.length < ts.length → ChainsSound clean ctx us :=
    fun us hus => (ih us.length (hn ▸ hus) us rfl).2
  have hread : ∀ us : List Lexeme, us.length ≤ ts.length → ReadsSound clean ctx us :=
    fun us hus => readsSound haction fun vs hvs => hshort vs (by omega)
  exact ⟨hread ts (Nat.le_refl _), chainsSound hread hshort⟩

end Statement

/-! ### Programs -/

/-- The groups of a program are typed at any depth, if actions are. -/
theorem Program.everywhere_of_read {p : Program} (haction : ctx.action.Sound clean)
    (h : (Program.read ctx ts).outcome = ⟨rs, .ok p⟩) (hclean : clean → rs = []) :
    ∀ g ∈ p.groups, ∀ s ∈ g.statements, s.Sound clean := by
  intro g hg s hs
  obtain ⟨n, made, hline, hmade, -⟩ := Program.exists_of_mem_read h hg
  obtain ⟨j, first, i, hread, hfirst, hend⟩ := Group.exists_of_mem_readLine hline hs
  refine (Statement.sound_of_read haction _).1 first s i hread fun hc => ?_
  have hnil : made = [] := List.subset_nil.mp (hclean hc ▸ hmade)
  exact ⟨List.subset_nil.mp (hnil ▸ hfirst), Expr.ended_of_endsStatement (hend hnil)⟩

end QuestScript
