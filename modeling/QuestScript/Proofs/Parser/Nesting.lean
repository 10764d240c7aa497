import QuestScript.Proofs.Parser.Everywhere
import QuestScript.Proofs.Parser.Guarded

/-!
How deep actions nest.

An action of a link or of a button is read with a budget that is one smaller than where the link or
the button stands, unless it is a plain jump, which costs nothing and holds no further actions. So
at most as many actions stand inside one another as the options allow, and perhaps a plain jump
inside the innermost of them.
-/

namespace QuestScript

/-- The actions of the links and of the button directly in the statement. -/
def Statement.actions : Statement → List Group
  | .print segments _ => segments.flatMap Segment.groups
  | .button _ action _ => [action]
  | _ => []

namespace Group

/-- The inner group is the action of a link or a button in the outer one, at any depth. -/
def HasAction (outer inner : Group) : Prop :=
  ∃ holder, Within holder outer ∧ ∃ s ∈ holder.statements, inner ∈ s.actions

/-- The group does more than to jump to a location. -/
def isLong (g : Group) : Bool := g.jumpTarget?.isNone

/-- Down from the group, at most so many long ones are actions of one another, itself included. -/
def NestsTo (n : Nat) (g : Group) : Prop :=
  ∀ chain, (g :: chain).IsChain HasAction → (g :: chain).countP isLong ≤ n

/-- All actions directly in the group nest only so deep. -/
def ActionsNestTo (n : Nat) (g : Group) : Prop :=
  ∀ s ∈ g.statements, ∀ action ∈ s.actions, action.NestsTo n

end Group

open QuestScript.Group (ActionsNestTo HasAction NestsTo Within isLong)

variable {g inner outer : Group} {n m : Nat}

lemma Statement.actions_subset (s : Statement) : s.actions ⊆ s.groups := by
  cases s <;> simp [actions, groups]

namespace Group

lemma isLong_jump (target : String) (line : Nat) : (jump target line).isLong = false := rfl

/-! ### Plain jumps -/

lemma HasAction.isLong (h : HasAction outer inner) : outer.isLong = true := by
  obtain ⟨holder, hholder, s, hs, hinner⟩ := h
  have hfirst : ∃ t ∈ outer.statements, t.groups ≠ [] := by
    cases hholder with
    | refl => exact ⟨s, hs, List.ne_nil_of_mem (s.actions_subset hinner)⟩
    | inside ht hgroup _ => exact ⟨_, ht, List.ne_nil_of_mem hgroup⟩
  obtain ⟨t, ht, hgroups⟩ := hfirst
  unfold Group.isLong jumpTarget?
  split
  · next target hgoto =>
    obtain rfl : t = .goto target := by simpa [hgoto] using ht
    exact absurd rfl hgroups
  · rfl

lemma nestsTo_jump (target : String) (line n : Nat) : (jump target line).NestsTo n := by
  intro chain hchain
  cases chain with
  | nil => simp [isLong_jump]
  | cons inner rest =>
    have hlong := (List.isChain_cons_cons.mp hchain).1.isLong
    simp [isLong_jump] at hlong

lemma actionsNestTo_jump (target : String) (line n : Nat) : (jump target line).ActionsNestTo n := by
  intro s hs action haction
  obtain rfl := List.mem_singleton.mp hs
  simp [Statement.actions] at haction

/-! ### One level -/

lemma NestsTo.mono (h : g.NestsTo n) (hle : n ≤ m) : g.NestsTo m :=
  fun chain hchain => (h chain hchain).trans hle

lemma NestsTo.of_hasAction (h : outer.NestsTo n) (hinner : HasAction outer inner) :
    inner.NestsTo n := by
  intro chain hchain
  have hwhole := h (inner :: chain) (.cons_cons hinner hchain)
  rw [List.countP_cons] at hwhole
  omega

lemma NestsTo.everywhere (h : g.NestsTo n) : g.Everywhere (ActionsNestTo n) :=
  fun holder hholder s hs _ haction => h.of_hasAction ⟨holder, hholder, s, hs, haction⟩

lemma nestsTo_of_hasAction (h : g.Everywhere (ActionsNestTo n)) (hinner : HasAction g inner) :
    inner.NestsTo n := by
  obtain ⟨holder, hholder, s, hs, haction⟩ := hinner
  exact h holder hholder s hs inner haction

lemma nestsTo_succ (h : g.Everywhere (ActionsNestTo n)) : g.NestsTo (n + 1) := by
  intro chain hchain
  cases chain with
  | nil =>
    rw [List.countP_singleton]
    split <;> omega
  | cons inner rest =>
    obtain ⟨hinner, hrest⟩ := List.isChain_cons_cons.mp hchain
    have hdeep := nestsTo_of_hasAction h hinner rest hrest
    rw [List.countP_cons]
    split <;> omega

lemma length_le_countP_isLong {chain : List Group} (h : (g :: chain).IsChain HasAction) :
    (g :: chain).length ≤ (g :: chain).countP isLong + 1 ∧
      ((g :: chain).length = (g :: chain).countP isLong + 1 →
        ∃ last ∈ (g :: chain).getLast?, last.isLong = false) := by
  induction chain generalizing g with
  | nil => cases hg : g.isLong <;> simp [hg]
  | cons inner rest ih =>
    obtain ⟨hinner, hrest⟩ := List.isChain_cons_cons.mp h
    obtain ⟨hlength, hlast⟩ := ih hrest
    have hcount : (g :: inner :: rest).countP isLong = (inner :: rest).countP isLong + 1 :=
      List.countP_cons_of_pos hinner.isLong
    rw [hcount, List.length_cons, List.getLast?_cons_cons]
    exact ⟨by omega, fun h => hlast (by omega)⟩

end Group

/-! ### Reading -/

section

variable {options : Options} {budget : Nat} {ts : List Lexeme} {statements : List Statement}

/-- The actions that the context reads nest only so deep. -/
def Context.NestsTo (ctx : Context) (n : Nat) : Prop :=
  ∀ place text rs g, ctx.action place text = ⟨rs, .ok g⟩ → g.NestsTo n

lemma Context.NestsTo.actionsNestTo_of_reads {ctx : Context} (h : ctx.NestsTo n) {s : Statement}
    (hs : ctx.Reads ts s) : ∀ action ∈ s.actions, action.NestsTo n := by
  obtain ⟨j, rs, k, hread⟩ := hs
  rcases hts : ts.drop j with _ | ⟨l, rest⟩
  · simp [hts, Statement.read, Outcome.fail] at hread
  rw [hts, Statement.read] at hread
  intro action haction
  split at hread
  · -- a conditional has no actions
    obtain ⟨i, hconditional, -⟩ := Parsed.after_eq_ok.mp hread
    obtain ⟨_, _, _, _, _, -, -, -, ⟨rfl, -⟩ | ⟨_, _, _, -, -, rfl, -⟩⟩ :=
      Statement.readConditional_eq_ok hconditional <;> simp [Statement.actions] at haction
  · rcases Statement.readSimple_eq_ok hread with
      ⟨name, value, m, rfl, -, -⟩ | ⟨carrier, text, -, hpayload⟩ | hbrief
    · simp [Statement.actions] at haction
    · -- each group in a payload statement is a jump or was read as an action
      rcases (Statement.gives_of_readPayload hpayload).2 action (s.actions_subset haction) with
        ⟨target, line, rfl⟩ | ⟨place, text, made, -, -, hmade⟩
      · exact Group.nestsTo_jump target line n
      · exact h place text made action hmade
    · have hgroup := s.actions_subset haction
      simp [hbrief.groups_eq_nil] at hgroup

lemma Context.NestsTo.keeps {ctx : Context} (h : ctx.NestsTo n) : ctx.Keeps (ActionsNestTo n) where
  jump target line := Group.actionsNestTo_jump target line n
  action _ hread := (h _ _ _ _ hread).everywhere
  branch _ _ hread := fun s hs =>
    h.actionsNestTo_of_reads ((Statement.reads_of_readChain hread).2 s hs)

lemma Context.NestsTo.everywhere_of_reads {ctx : Context} (h : ctx.NestsTo n)
    (hts : Lexeme.OneLine ts) (hreads : ∀ s ∈ statements, ctx.Reads ts s) (line : Nat) :
    (Group.mk statements line).Everywhere (ActionsNestTo n) :=
  Group.everywhere_iff.mpr ⟨fun s hs => h.actionsNestTo_of_reads (hreads s hs),
    fun s hs => h.keeps.everywhere_of_reads hts (hreads s hs)⟩

/-- **An action nests as deep as its budget allows.** -/
theorem Action.nestsTo_of_read {place : Position} {text : List Char} {rs : List Report}
    (h : Action.read options budget place text = ⟨rs, .ok g⟩) : g.NestsTo budget := by
  induction budget generalizing place text rs g with
  | zero =>
    rcases htarget : Action.target? text with _ | target
    · simp [Action.read_zero htarget] at h
    · rw [Action.read_of_target? 0 htarget] at h
      obtain ⟨-, rfl⟩ := Outcome.pure_eq_ok.mp h
      exact Group.nestsTo_jump _ _ 0
  | succ n ih =>
    rcases htarget : Action.target? text with _ | target
    · rw [Action.read_succ n htarget] at h
      obtain ⟨p, made, hprogram, -, -, rfl⟩ := Action.ofProgram_eq_ok h
      have hts := (Scan.laid_read .fresh place text).untilEnd.oneLine
      exact Group.nestsTo_succ (Context.NestsTo.everywhere_of_reads (fun _ _ _ _ => ih) hts
        (fun s hs => Program.reads_of_mem_statements hprogram hs) place.line)
    · rw [Action.read_of_target? (n + 1) htarget] at h
      obtain ⟨-, rfl⟩ := Outcome.pure_eq_ok.mp h
      exact Group.nestsTo_jump _ _ (n + 1)

end

/-- **Actions nest as deep as the options allow.** Of groups that are actions of one another, down
from a line of the program, at most so many do more than to jump, and there is at most one more: a
plain jump, inside all others. -/
theorem nesting_le {source : String} {options : Options} {out : Output} {top : Group}
    {chain : List Group} (h : parse source options = .ok out) (htop : top ∈ out.program.groups)
    (hchain : (top :: chain).IsChain HasAction) :
    chain.countP isLong ≤ options.maxNesting ∧ chain.length ≤ options.maxNesting + 1 ∧
      (chain.length = options.maxNesting + 1 →
        ∃ last ∈ chain.getLast?, last.jumpTarget?.isSome = true) := by
  obtain ⟨finish, ts, rs, hts, hread⟩ := exists_of_parse_eq_ok h
  obtain ⟨statements, line⟩ := top
  obtain ⟨-, hreads⟩ := Program.reads_of_mem hread htop
  have hnest := Context.NestsTo.everywhere_of_reads
    (fun _ _ _ _ => Action.nestsTo_of_read) hts hreads line
  -- without an action there is nothing to count
  cases chain with
  | nil => simp
  | cons first rest =>
    obtain ⟨hfirst, hrest⟩ := List.isChain_cons_cons.mp hchain
    have hcount := Group.nestsTo_of_hasAction hnest hfirst rest hrest
    obtain ⟨hlength, hlast⟩ := Group.length_le_countP_isLong hrest
    refine ⟨hcount, by omega, fun hfull => ?_⟩
    obtain ⟨last, hmem, hshort⟩ := hlast (by omega)
    exact ⟨last, hmem, by simpa [isLong] using hshort⟩

namespace Sample

/-- A button whose action is a plain jump. -/
def pressed : Group := ⟨[.button "b" (.jump "c" 1) none], 1⟩

/-- A printed link whose action is the button. -/
def linked : Group := ⟨[.print [.link "a" pressed] true], 1⟩

lemma isChain_linked : [linked, pressed, .jump "c" 1].IsChain HasAction := by
  have hlink : HasAction linked pressed := ⟨linked, .refl, _, List.mem_singleton_self _, by
    simp [Statement.actions, Segment.groups]⟩
  have hbutton : HasAction pressed (.jump "c" 1) :=
    ⟨pressed, .refl, _, List.mem_singleton_self _, by simp [Statement.actions]⟩
  exact .cons_cons hlink (.cons_cons hbutton (.singleton _))

end Sample

/-- Where one level is allowed, a link may have a button for its action, and the button a plain
jump. -/
theorem nesting_le_sample : ∃ out, parse "pln [[a|btn c, b]]" ⟨1, .abort⟩ = .ok out ∧
    ∃ last ∈ [Sample.pressed, .jump "c" 1].getLast?, last.jumpTarget?.isSome = true := by
  have hparse : Sample.program? (parse "pln [[a|btn c, b]]" ⟨1, .abort⟩) =
      some ⟨[Sample.linked]⟩ := by decide +kernel
  obtain ⟨out, hout, hprogram⟩ := Sample.exists_of_program? hparse
  have htop : Sample.linked ∈ out.program.groups := by simp [hprogram]
  exact ⟨out, hout, (nesting_le hout htop Sample.isChain_linked).2.2 rfl⟩

end QuestScript
