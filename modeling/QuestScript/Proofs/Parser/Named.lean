import QuestScript.Proofs.Parser.Everywhere
import QuestScript.Proofs.Parser.Guarded
import QuestScript.Proofs.Program.Named

/-!
Jumps to nowhere.

All names in a program are names, except for the targets of links that have a blank label and no
action. So a program has no jump to nowhere if and only if it has no such link.
-/

namespace QuestScript

open Text

variable {ctx : Context} {action : ActionReader} {place : Position} {rs : List Report}

/-! ### Groups in statements -/

/-- The groups in the segment are named, unless it is a link with a blank label and no action. -/
def Segment.Leads (segment : Segment) : Prop :=
  (∀ g ∈ segment.groups, g.Named) ∨ ∃ line, segment = .link "" (.jump "" line)

/-- The groups in the statement are named, unless there is a blank link in it. -/
def Statement.Leads (s : Statement) : Prop := s.HasBlankLink ∨ ∀ g ∈ s.groups, g.Named

/-- The actions that are read are named. -/
def ActionReader.Named (action : ActionReader) : Prop :=
  ∀ place text rs g, action place text = ⟨rs, .ok g⟩ → g.Named

lemma Group.named_jump {target : String} (h : IsName target) (line : Nat) :
    (jump target line).Named := by
  intro s hs
  obtain rfl := List.mem_singleton.mp hs
  exact h

lemma Segment.leads_of_groups {segment : Segment} (h : segment.groups = []) : segment.Leads :=
  .inl (by simp [h])

lemma Segment.forall_mem_glue {P : Segment → Prop} {segment : Segment} {rest : List Segment}
    (hliteral : ∀ text, P (.literal text)) (hsegment : P segment) (hrest : ∀ t ∈ rest, P t) :
    ∀ t ∈ segment.glue rest, P t := by
  unfold glue
  split
  · simp only [List.forall_mem_cons] at hrest ⊢
    exact ⟨hliteral _, hrest.2⟩
  · split
    · exact hrest
    · exact List.forall_mem_cons.mpr ⟨hsegment, hrest⟩
  · exact List.forall_mem_cons.mpr ⟨hsegment, hrest⟩

namespace Print

lemma leads_of_decode {policy : SubstitutionPolicy} (haction : action.Named) {span : Span}
    {segment : Segment} (h : span.decode policy action place = ⟨rs, .ok segment⟩) :
    segment.Leads := by
  rcases Span.decode_eq_ok h with ⟨text, -, rfl⟩ | ⟨body, -, hmeans⟩ |
    ⟨_, label, group, -, rfl, rfl | ⟨p, behind, -, hgroup⟩⟩
  · exact Segment.leads_of_groups rfl
  · exact Segment.leads_of_groups hmeans.groups_eq_nil
  · -- a jump to the label
    rcases hblank : (trim label).isEmpty with _ | _
    · left
      intro g hg
      obtain rfl := List.mem_singleton.mp hg
      exact Group.named_jump (isName_trim hblank) _
    · exact .inr ⟨_, by rw [List.isEmpty_iff.mp hblank]⟩
  · left
    intro g hg
    obtain rfl := List.mem_singleton.mp hg
    exact haction _ _ _ _ hgroup

lemma leads_of_read {policy : SubstitutionPolicy} (haction : action.Named) {text : List Char}
    {segments : List Segment} (h : read policy action place text = ⟨rs, .ok segments⟩) :
    ∀ segment ∈ segments, segment.Leads := by
  unfold read at h
  exact Span.decodeAll_induction (motive := fun _ _ segments => ∀ segment ∈ segments, segment.Leads)
    (by simp) (fun hspan htail => Segment.forall_mem_glue (fun _ => Segment.leads_of_groups rfl)
      (leads_of_decode haction hspan) htail) h

end Print

namespace Statement

lemma leads_of_print {segments : List Segment} {newline : Bool}
    (h : ∀ segment ∈ segments, segment.Leads) : (print segments newline).Leads := by
  by_cases hblank : ∃ line, .link "" (.jump "" line) ∈ segments
  · obtain ⟨line, hmem⟩ := hblank
    exact .inl ⟨segments, newline, line, rfl, hmem⟩
  · right
    intro g hg
    obtain ⟨segment, hsegment, hg⟩ := List.mem_flatMap.mp hg
    rcases h segment hsegment with hnamed | ⟨line, rfl⟩
    · exact hnamed g hg
    · exact absurd ⟨line, hsegment⟩ hblank

lemma leads_of_readButton (haction : action.Named) {payload : List Char} {s : Statement}
    (h : readButton action place payload = ⟨rs, .ok s⟩) : s.Leads := by
  right
  unfold readButton at h
  split at h
  · simp at h
  · split at h
    · simp at h
    · next hsome =>
      obtain ⟨-, rfl⟩ := Outcome.pure_eq_ok.mp h
      intro g hg
      obtain rfl := List.mem_singleton.mp hg
      exact Group.named_jump (isName_trim (by simpa using hsome)) _
  · split at h
    · simp at h
    · obtain ⟨group, hgroup, rfl⟩ := Outcome.map_eq_ok.mp h
      intro g hg
      obtain rfl := List.mem_singleton.mp hg
      exact haction _ _ _ _ hgroup

lemma leads_of_groups {s : Statement} (h : s.groups = []) : s.Leads := .inr (by simp [h])

lemma leads_of_readPayload (haction : ctx.action.Named) {l : Lexeme} {carrier : Carrier}
    {text : List Char} {s : Statement} (h : readPayload ctx l carrier text = ⟨rs, .ok s⟩) :
    s.Leads := by
  have hmakes := Carrier.makes_of_readPayload h
  cases carrier with
  | print newline =>
    obtain ⟨segments, hsegments, rfl⟩ := Outcome.map_eq_ok.mp h
    exact leads_of_print (Print.leads_of_read haction hsegments)
  | button => exact leads_of_readButton haction h
  | _ => exact leads_of_groups (by cases s <;> first | rfl | exact hmakes.elim)

lemma named_of_readGroup {ts : List Lexeme} {k line : Nat} {g : Group}
    (h : readGroup ctx line ts = ⟨⟨rs, .ok g⟩, k⟩) : g.Named := by
  rw [readGroup] at h
  obtain ⟨chain, hchain, rfl⟩ := Parsed.map_eq_ok.mp h
  intro s hs
  obtain ⟨n, rs, k, hread⟩ := (reads_of_readChain hchain).2 s hs
  exact named_of_read hread

/-- The groups in a statement that is read are named, unless there is a blank link in it. -/
theorem leads_of_read (haction : ctx.action.Named) {ts : List Lexeme} {k : Nat} {s : Statement}
    (h : read ctx ts = ⟨⟨rs, .ok s⟩, k⟩) : s.Leads := by
  rcases ts with _ | ⟨l, rest⟩
  · simp [read, Outcome.fail] at h
  rw [read] at h
  split at h
  · obtain ⟨m, hconditional, -⟩ := Parsed.after_eq_ok.mp h
    obtain ⟨_, _, thenGroup, _, _, -, -, hthen, hcases⟩ := readConditional_eq_ok hconditional
    have hfirst := named_of_readGroup hthen
    rcases hcases with ⟨rfl, -⟩ | ⟨elseGroup, _, _, -, helse, rfl, -⟩
    · exact .inr (by simpa [groups] using hfirst)
    · exact .inr (by simpa [groups] using ⟨hfirst, named_of_readGroup helse⟩)
  · rcases readSimple_eq_ok h with ⟨name, value, m, rfl, -⟩ | ⟨carrier, text, -, hpayload⟩ | hbrief
    · exact leads_of_groups rfl
    · exact leads_of_readPayload haction hpayload
    · exact leads_of_groups hbrief.groups_eq_nil

end Statement

lemma Action.named_read (options : Options) (budget : Nat) :
    ActionReader.Named (read options budget) := by
  intro place text rs g h
  rcases htarget : target? text with _ | target
  · rcases budget with _ | n
    · simp [read_zero htarget] at h
    · rw [read_succ n htarget] at h
      obtain ⟨p, made, hprogram, -, -, rfl⟩ := ofProgram_eq_ok h
      intro s hs
      obtain ⟨_, _, _, hread⟩ := Program.reads_of_mem_statements hprogram hs
      exact Statement.named_of_read hread
  · rw [read_of_target? budget htarget] at h
    obtain ⟨-, rfl⟩ := Outcome.pure_eq_ok.mp h
    exact Group.named_jump (isName_of_target? htarget) _

/-! ### Programs -/

lemma Options.keeps_leads (options : Options) :
    options.Keeps fun g => ∀ s ∈ g.statements, s.Leads where
  jump target line := by
    intro s hs
    obtain rfl := List.mem_singleton.mp hs
    exact Statement.leads_of_groups rfl
  group line hts hne h := by
    intro s hs
    obtain ⟨n, rs, k, hread⟩ := h s hs
    exact Statement.leads_of_read (Action.named_read options _) hread

lemma Group.Within.cases_inside {g top : Group} (h : Within g top) :
    g = top ∨ ∃ outer, Within outer top ∧ ∃ s ∈ outer.statements, g ∈ s.groups := by
  induction h with
  | refl => exact .inl rfl
  | @inside s top inner hs hinner hwithin ih =>
    right
    rcases ih with rfl | ⟨outer, houter, hg⟩
    · exact ⟨top, .refl, s, hs, hinner⟩
    · exact ⟨outer, .inside hs hinner houter, hg⟩

lemma Group.Within.trans {g inner outer : Group} (h : Within g inner) (h' : Within inner outer) :
    Within g outer := by
  induction h' with
  | refl => exact h
  | inside hs hinner _ ih => exact .inside hs hinner ih

lemma named_of_mem_groups {source : String} {options : Options} {out : Output} {g : Group}
    (h : parse source options = .ok out) (hg : g ∈ out.program.groups) : g.Named := by
  obtain ⟨finish, ts, rs, -, hread⟩ := exists_of_parse_eq_ok h
  intro s hs
  obtain ⟨_, _, _, hs⟩ := (Program.reads_of_mem hread hg).2 s hs
  exact Statement.named_of_read hs

/-- **Where jumps lead to nowhere.** All names in a program, at any depth, are names exactly when no
link in it has a blank label and no action: that is the one shortcut that does not look whether its
target is blank. A payload without the name that its statement needs is refused. -/
theorem named_iff {source : String} {options : Options} {out : Output}
    (h : parse source options = .ok out) :
    ((∀ g, out.program.Contains g → g.Named) ↔
      ∀ g, out.program.Contains g → g.NoBlankLink) ∧
    ∀ (ctx : Context) (l : Lexeme) (carrier : Carrier) (text : List Char),
      carrier.LacksName text → ∃ r, r.fault.kind = .syntactic ∧
        Statement.readPayload ctx l carrier text = ⟨[], .error (.dropped r)⟩ := by
  refine ⟨⟨fun hnamed g hg s hs hblank => ?_, fun hlinks g hg => ?_⟩,
    fun _ _ _ _ => Statement.refused_of_lacksName⟩
  · -- the jump of a blank link stands in the program
    obtain ⟨top, htop, hwithin⟩ := hg
    obtain ⟨segments, newline, line, rfl, hmem⟩ := hblank
    have hjump : Group.jump "" line ∈ (Statement.print segments newline).groups :=
      List.mem_flatMap.mpr ⟨_, hmem, by simp [Segment.groups]⟩
    have hcontains : out.program.Contains (.jump "" line) :=
      ⟨top, htop, Group.Within.trans (.inside hs hjump .refl) hwithin⟩
    have hname : IsName "" := hnamed _ hcontains (.goto "") (by simp [Group.jump])
    exact hname.ne_empty rfl
  · -- an unnamed statement stands in a blank link, or behind one in the same group
    obtain ⟨top, htop, hwithin⟩ := hg
    rcases hwithin.cases_inside with rfl | ⟨outer, houter, s, hs, hg⟩
    · exact named_of_mem_groups h htop
    · have hcontains : out.program.Contains outer := ⟨top, htop, houter⟩
      have hleads := options.keeps_leads.of_contains h hcontains s hs
      exact hleads.resolve_left (hlinks outer hcontains s hs) g hg

namespace Sample

/-- A link whose label is its target, and a button with an action. -/
def leading : Program :=
  ⟨[⟨[.print [.link "a" (.jump "a" 1)] false, .button "b" ⟨[.call "c"], 1⟩ none], 1⟩]⟩

/-- A link with a blank label and no action. -/
def misleading : Program := ⟨[⟨[.print [.link "" (.jump "" 1)] false], 1⟩]⟩

end Sample

/-- A program with a link and a button, which lead somewhere. -/
theorem named_iff_sample :
    ∃ out, parse "p [[ a ]] & btn proc c, b" = .ok out ∧
      ∀ g, out.program.Contains g → g.Named := by
  have hparse : Sample.program? (parse "p [[ a ]] & btn proc c, b") = some Sample.leading := by
    decide +kernel
  obtain ⟨out, hout, hprogram⟩ := Sample.exists_of_program? hparse
  refine ⟨out, hout, (named_iff hout).1.mpr ?_⟩
  have hlink : (Group.jump "a" 1).Everywhere Group.NoBlankLink :=
    Group.everywhere_jump (by simp [Group.NoBlankLink, Group.jump, Statement.HasBlankLink])
  have hbutton : (Group.mk [.call "c"] 1).Everywhere Group.NoBlankLink :=
    Group.everywhere_iff.mpr
      ⟨by simp [Group.NoBlankLink, Statement.HasBlankLink], by simp [Statement.groups]⟩
  rw [hprogram]
  rintro g ⟨top, htop, hwithin⟩
  obtain rfl := List.mem_singleton.mp htop
  refine Group.everywhere_iff.mpr ⟨?_, ?_⟩ g hwithin
  · simp [Group.NoBlankLink, Statement.HasBlankLink]
  · simp [Statement.groups, Segment.groups, hlink, hbutton]

/-- Not all jumps lead somewhere, and nothing is reported: a link with a blank label and no action
is read as a jump to a location without a name. -/
theorem not_named_of_blank_link :
    ∃ out, parse "p [[ ]]" = .ok out ∧ out.reports = [] ∧
      ¬∀ g, out.program.Contains g → g.Named := by
  have hparse : parse "p [[ ]]" = .ok ⟨Sample.misleading, []⟩ := by decide +kernel
  refine ⟨_, hparse, rfl, fun h => ?_⟩
  have hcontains : Sample.misleading.Contains (.jump "" 1) :=
    ⟨_, List.mem_singleton_self _,
      .inside (List.mem_singleton_self _) (List.mem_singleton_self _) .refl⟩
  have hname : IsName "" := h _ hcontains (.goto "") (by simp [Group.jump])
  exact hname.ne_empty rfl

end QuestScript
