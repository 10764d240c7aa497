import Mathlib.Data.List.Forall2
import QuestScript.Proofs.Correspondence
import QuestScript.Proofs.Program.Origin
import QuestScript.Proofs.Statement.Extent

/-!
Readers of statements correspond.

Where the readers of actions correspond, and what is made of bad character codes, so do the readers
of texts, payloads and statements. The statements they give differ only in the groups inside them.
-/

namespace QuestScript

open Text

/-! ### Statements that differ in their groups -/

/-- Segments whose actions are in the relation, and which are equal otherwise. -/
def Segment.Alike (G : Group → Group → Prop) : Segment → Segment → Prop
  | .link label action, .link label' action' => label = label' ∧ G action action'
  | s, s' => s = s'

/-- Statements whose groups are in the relation, and which are equal otherwise. -/
inductive Statement.Alike (G : Group → Group → Prop) : Statement → Statement → Prop
  | same {s : Statement} (h : s.groups = []) : Alike G s s
  | conditional {condition : BoolExpr} {g g' : Group} {e e' : Option Group} (hg : G g g')
      (he : Option.Rel G e e') : Alike G (.conditional condition g e) (.conditional condition g' e')
  | print {segments segments' : List Segment} {newline : Bool}
      (h : List.Forall₂ (Segment.Alike G) segments segments') :
      Alike G (.print segments newline) (.print segments' newline)
  | button {label : String} {g g' : Group} {extra : Option String} (hg : G g g') :
      Alike G (.button label g extra) (.button label g' extra)

variable {G : Group → Group → Prop}

namespace Segment

lemma alike_literal_left {text : String} {s : Segment} (h : Alike G (.literal text) s) :
    s = .literal text := by
  cases s <;> simp_all [Alike]

lemma alike_value_left {name : String} {s : Segment} (h : Alike G (.value name) s) :
    s = .value name := by
  cases s <;> simp_all [Alike]

lemma alike_link_left {label : String} {g : Group} {s : Segment} (h : Alike G (.link label g) s) :
    ∃ g', s = .link label g' ∧ G g g' := by
  cases s with
  | literal text => simp [Alike] at h
  | value name => simp [Alike] at h
  | link label' g' =>
    obtain ⟨rfl, hg⟩ := h
    exact ⟨g', rfl, hg⟩

lemma eq_of_alike {segments segments' : List Segment}
    (h : List.Forall₂ (Alike G) segments segments')
    (hG : ∀ g ∈ segments.flatMap groups, ∀ g', G g g' → g = g') : segments = segments' := by
  induction h with
  | nil => rfl
  | @cons s s' rest rest' hs _ ih =>
    rw [List.flatMap_cons] at hG
    rw [ih fun g hg => hG g (List.mem_append_right _ hg)]
    cases s with
    | literal text => rw [alike_literal_left hs]
    | value name => rw [alike_value_left hs]
    | link label g =>
      obtain ⟨g', rfl, hg⟩ := alike_link_left hs
      rw [hG g (by simp [groups]) g' hg]

lemma alike_glue {s s' : Segment} {rest rest' : List Segment} (hs : Alike G s s')
    (hrest : List.Forall₂ (Alike G) rest rest') :
    List.Forall₂ (Alike G) (glue s rest) (glue s' rest') := by
  cases s with
  | literal a =>
    obtain rfl := alike_literal_left hs
    cases hrest with
    | nil => by_cases ha : a = "" <;> simp [glue, ha, Alike]
    | cons ht htail =>
      rename_i t t' tail tail'
      cases t with
      | literal b =>
        obtain rfl := alike_literal_left ht
        exact .cons rfl htail
      | value name =>
        obtain rfl := alike_value_left ht
        by_cases ha : a = "" <;> simp [glue, ha, Alike, htail]
      | link label g =>
        obtain ⟨g', rfl, hg⟩ := alike_link_left ht
        by_cases ha : a = "" <;> simp [glue, ha, Alike, htail, hg]
  | value name =>
    obtain rfl := alike_value_left hs
    exact .cons rfl hrest
  | link label g =>
    obtain ⟨g', rfl, -⟩ := alike_link_left hs
    exact .cons hs hrest

end Segment

lemma Statement.eq_of_alike {s s' : Statement} (h : Alike G s s')
    (hG : ∀ g ∈ s.groups, ∀ g', G g g' → g = g') : s = s' := by
  cases h with
  | same => rfl
  | conditional hg he =>
    obtain rfl := hG _ (by simp [groups]) _ hg
    cases he with
    | none => rfl
    | some he => rw [hG _ (by simp [groups]) _ he]
  | print h => rw [Segment.eq_of_alike h hG]
  | button hg => rw [hG _ (by simp [groups]) _ hg]

namespace Correspondence

open Lexeme (Laid reach)

/-- A relation between groups that is settled statement by statement. -/
structure Congruent (G : Group → Group → Prop) : Prop where
  nil (line : Nat) : G ⟨[], line⟩ ⟨[], line⟩
  single {s s' : Statement} (line : Nat) (h : Statement.Alike G s s') : G ⟨[s], line⟩ ⟨[s'], line⟩
  append {front front' back back' : Group} (line : Nat) (hfront : G front front')
    (hback : G back back') :
    G ⟨front.statements ++ back.statements, line⟩ ⟨front'.statements ++ back'.statements, line⟩
  isEmpty {g g' : Group} (h : G g g') : g.statements.isEmpty = g'.statements.isEmpty

namespace Congruent

variable {line : Nat}

lemma cons {s s' : Statement} {later later' : List Statement} (hG : Congruent G)
    (hs : Statement.Alike G s s') (h : G ⟨later, line⟩ ⟨later', line⟩) :
    G ⟨s :: later, line⟩ ⟨s' :: later', line⟩ :=
  hG.append line (hG.single line hs) h

lemma group {statements statements' : List Statement} (hG : Congruent G)
    (h : List.Forall₂ (Statement.Alike G) statements statements') :
    G ⟨statements, line⟩ ⟨statements', line⟩ := by
  induction h with
  | nil => exact hG.nil line
  | cons hs _ ih => exact hG.cons hs ih

lemma flatMap {groups groups' : List Group} (hG : Congruent G) (h : List.Forall₂ G groups groups') :
    G ⟨groups.flatMap Group.statements, line⟩ ⟨groups'.flatMap Group.statements, line⟩ := by
  induction h with
  | nil => exact hG.nil line
  | cons hg _ ih => exact hG.append line hg ih

lemma eq : Congruent Eq where
  nil _ := rfl
  single _ h := by rw [Statement.eq_of_alike h fun _ _ _ => id]
  append _ hfront hback := by rw [hfront, hback]
  isEmpty h := by rw [h]

end Congruent

/-- Two contexts whose readers correspond. -/
structure Contexts (C : Correspondence) (G : Group → Group → Prop) (ctx ctx' : Context) : Prop where
  finish : ctx.finish = ctx'.finish
  action {place : Position} {text : List Char} (h : '\n' ∉ text) :
    C.rel place (place.right text.length) G (ctx.action place text) (ctx'.action place text)
  code (place : Position) (code : String) :
    C.rel place place (Segment.Alike G) (refuse ctx.policy ⟨.badCharacterCode code, place⟩)
      (refuse ctx'.policy ⟨.badCharacterCode code, place⟩)
  congruent : Congruent G

variable {C : Correspondence} {ctx ctx' : Context} {place : Position}

lemma Contexts.jump (h : C.Contexts G ctx ctx') (target : String) (line : Nat) :
    G (.jump target line) (.jump target line) :=
  h.congruent.single line (.same rfl)

/-! ### Texts -/

lemma length_trim_le (cs : List Char) : leadingBlanks cs + (trim cs).length ≤ cs.length := by
  obtain ⟨blanks, tail, hcs, hlen⟩ := trim_part cs
  have := congrArg List.length hcs
  simp only [List.length_append] at this
  omega

lemma Contexts.part (h : C.Contexts G ctx ctx') (place : Position) {text : List Char} {m n : Nat}
    (hline : '\n' ∉ text) (hpart : n ≤ text.length) (hm : m ≤ text.length - n) :
    C.rel place (place.right text.length) G
      (ctx.action (place.right (n + leadingBlanks ((text.drop n).take m)))
        (trim ((text.drop n).take m)))
      (ctx'.action (place.right (n + leadingBlanks ((text.drop n).take m)))
        (trim ((text.drop n).take m))) := by
  have htrim := length_trim_le ((text.drop n).take m)
  have hnl : '\n' ∉ trim ((text.drop n).take m) := fun hmem =>
    hline (List.mem_of_mem_drop (List.mem_of_mem_take (trim_subset _ hmem)))
  rw [List.length_take, List.length_drop] at htrim
  refine C.widen (place.le_right _) ?_ (h.action hnl)
  rw [Position.right_right]
  exact Position.right_le_right place (by omega)

lemma Contexts.readLink (h : C.Contexts G ctx ctx') {inner : List Char} (hline : '\n' ∉ inner) :
    C.rel place (place.right inner.length) (Segment.Alike G)
      (Print.readLink ctx.action place inner) (Print.readLink ctx'.action place inner) := by
  have hle := place.le_right inner.length
  unfold Print.readLink
  simp only
  split
  · exact C.widen (le_refl _) hle (C.harmless place (Outcome.harmless_drop place
      (by simp [Fault.kind]))
      (by simp [Outcome.drop, Outcome.fail]))
  split
  · exact C.widen (le_refl _) hle (C.pure place ⟨rfl, h.jump _ _⟩)
  · next hne =>
    refine C.map ?_ hle fun a b hab => ⟨rfl, hab⟩
    have hlen : (inner.takeWhile (· != '|')).length + 1 ≤ inner.length := by
      by_contra hlt
      have hnil : inner.drop ((inner.takeWhile (· != '|')).length + 1) = [] :=
        List.drop_eq_nil_iff.mpr (by omega)
      simp [hnil, trim, trimStart, trimEnd, dropEndWhile] at hne
    have := h.part place hline hlen (le_refl _)
    rwa [← List.length_drop, List.take_length] at this

lemma Contexts.decode (h : C.Contexts G ctx ctx') {span : Print.Span} (hline : '\n' ∉ span.source) :
    C.rel place (place.right span.source.length) (Segment.Alike G)
      (span.decode ctx.policy ctx.action place) (span.decode ctx'.policy ctx'.action place) := by
  have hle := place.le_right span.source.length
  cases span with
  | plain text => exact C.widen (le_refl _) hle (C.pure place rfl)
  | link inner =>
    have hinner : '\n' ∉ inner := fun hmem => hline (by simp [Print.Span.source, hmem])
    refine C.widen (place.le_right 2) ?_ (h.readLink hinner)
    rw [Position.right_right]
    exact Position.right_le_right place (by simp [Print.Span.source]; omega)
  | substitution body =>
    simp only [Print.Span.decode]
    split
    · next segment hsegment =>
      have hplain : Segment.Alike G segment segment := by
        have := Print.groups_of_substitution hsegment
        cases segment <;> simp_all [Segment.Alike, Segment.groups]
      exact C.widen (le_refl _) hle (C.pure place hplain)
    · exact C.widen (le_refl _) hle (h.code place _)

lemma Contexts.decodeAll (h : C.Contexts G ctx ctx') (place : Position) (spans : List Print.Span)
    (hline : '\n' ∉ spans.flatMap Print.Span.source) :
    C.rel place (place.right (spans.flatMap Print.Span.source).length)
      (List.Forall₂ (Segment.Alike G)) (Print.Span.decodeAll ctx.policy ctx.action place spans)
      (Print.Span.decodeAll ctx'.policy ctx'.action place spans) := by
  induction spans generalizing place with
  | nil => exact C.widen (le_refl _) (place.le_right _) (C.pure place .nil)
  | cons span spans ih =>
    rw [List.flatMap_cons, List.mem_append, not_or] at hline
    have hlen : place.right ((span :: spans).flatMap Print.Span.source).length =
        (place.right span.source.length).right (spans.flatMap Print.Span.source).length := by
      rw [List.flatMap_cons, List.length_append, Position.right_right]
    have hmid := place.le_right span.source.length
    have hend := (place.right span.source.length).le_right (spans.flatMap Print.Span.source).length
    rw [hlen]
    refine C.bind hmid hend (h.decode hline.1) fun segment segment' _ _ hsegment => ?_
    exact C.map (ih _ hline.2) hend fun rest rest' hrest => Segment.alike_glue hsegment hrest

lemma Contexts.readPrint (h : C.Contexts G ctx ctx') {text : List Char} (hline : '\n' ∉ text) :
    C.rel place (place.right text.length) (List.Forall₂ (Segment.Alike G))
      (Print.read ctx.policy ctx.action place text)
      (Print.read ctx'.policy ctx'.action place text) := by
  have := h.decodeAll place (Print.Span.ofText text)
  rw [Print.Span.flatMap_source_ofText] at this
  exact this hline

/-! ### Payloads -/

lemma Contexts.readButton (h : C.Contexts G ctx ctx') {payload : List Char}
    (hline : '\n' ∉ payload) :
    C.rel place (place.right payload.length) (Statement.Alike G)
      (Statement.readButton ctx.action place payload)
      (Statement.readButton ctx'.action place payload) := by
  have hle := place.le_right payload.length
  -- a button that is left out is left out for a fault of syntax
  have hdrop {fault : Fault} (hfault : fault.kind ≠ .substitution) :
      C.rel place (place.right payload.length) (Statement.Alike G) (.drop fault place)
        (.drop fault place) := C.widen (le_refl _) hle (C.drop place hfault)
  unfold Statement.readButton
  split
  · exact hdrop (by simp [Fault.kind])
  · split
    · exact hdrop (by simp [Fault.kind])
    · -- a caption that is also the target
      exact C.widen (le_refl _) hle (C.pure place (.button (h.jump _ _)))
  · -- operations, whose text is the first field
    next ops caption rest hfields =>
    split
    · exact hdrop (by simp [Fault.kind])
    · refine C.map ?_ hle fun g g' hg => .button hg
      obtain ⟨k, hk, rfl⟩ := Statement.exists_take_of_split hfields
      have := h.part place hline (Nat.zero_le _) (by simpa using hk)
      simpa using this

lemma harmless_requiredName (what : Essential) (text : List Char) :
    (requiredName what place text).Harmless := by
  unfold requiredName
  split
  · exact Outcome.harmless_drop place (by simp [Fault.kind])
  · exact Outcome.harmless_pure _

lemma harmless_readQuantity (text : List Char) :
    (InventoryChange.readQuantity place text).Harmless := by
  have hscan : ∀ r ∈ (Scan.read .fresh place text).reports, r.Harmless := by
    intro r hr
    simp [Report.Harmless, Scan.lexical_of_mem_reports hr]
  unfold InventoryChange.readQuantity
  simp only
  split
  · exact ⟨hscan, fun refusal h => ⟨_, by simpa [eq_comm] using h, by
      simp [Report.Harmless, Report.missing, Fault.kind]⟩⟩
  · split
    · exact ⟨hscan, by simp⟩
    · exact ⟨hscan, fun refusal h => ⟨_, by simpa [eq_comm] using h, by
        simp [Report.Harmless, Report.missing, Fault.kind]⟩⟩

lemma harmless_readInventory (remove : Bool) (payload : List Char) :
    (InventoryChange.read remove place payload).Harmless := by
  have hitem (place : Position) (item : List Char) (quantity : NumberExpr) :
      (InventoryChange.ofItem remove place item quantity).Harmless := by
    unfold InventoryChange.ofItem
    split
    · exact Outcome.harmless_drop place (by simp [Fault.kind])
    · exact Outcome.harmless_pure _
  unfold InventoryChange.read
  split
  · exact (harmless_readQuantity _).bind fun quantity => hitem _ _ quantity
  · exact hitem _ _ _

/-- The outcome has nothing to do with substitutions, and the statement holds no groups. -/
structure Bare (o : Outcome Refusal Statement) : Prop where
  harmless : o.Harmless
  groups : ∀ s, o.result = .ok s → s.groups = []

lemma bare_pure {s : Statement} (h : s.groups = []) : Bare (.pure s) :=
  ⟨Outcome.harmless_pure s, fun t ht => by obtain rfl := Except.ok.inj ht; exact h⟩

lemma bare_map {α : Type} {o : Outcome Refusal α} (ho : o.Harmless) (make : α → Statement)
    (hmake : ∀ a, (make a).groups = []) : Bare (o.map make) := by
  refine ⟨ho.map make, fun s hs => ?_⟩
  rcases o with ⟨reports, refusal | a⟩
  · simp [Outcome.map, Except.map] at hs
  · obtain rfl : make a = s := by simpa [Outcome.map, Except.map] using hs
    exact hmake a

/-- Payloads are read alike. -/
theorem Contexts.readPayload (h : C.Contexts G ctx ctx') {l : Lexeme} (carrier : Carrier)
    {text : List Char} (hline : '\n' ∉ text) (hlo : place ≤ l.payloadStart) :
    C.rel place (l.payloadStart.right text.length) (Statement.Alike G)
      (Statement.readPayload ctx l carrier text) (Statement.readPayload ctx' l carrier text) := by
  -- Nothing in the context bears on what is bare.
  have hbare {o : Outcome Refusal Statement} (ho : Bare o) :
      C.rel place (l.payloadStart.right text.length) (Statement.Alike G) o o :=
    C.widen hlo (l.payloadStart.le_right _)
      (C.harmless l.payloadStart ho.harmless fun s hs => .same (ho.groups s hs))
  cases carrier with
  | print newline =>
    exact C.widen hlo (le_refl _) (C.map (h.readPrint hline) (Position.le_right _ _)
      fun segments segments' hs => .print hs)
  | button => exact C.widen hlo (le_refl _) (h.readButton hline)
  | goto => exact hbare (bare_map (harmless_requiredName _ _) .goto fun _ => rfl)
  | call => exact hbare (bare_map (harmless_requiredName _ _) .call fun _ => rfl)
  | label => exact hbare (bare_map (harmless_requiredName _ _) .label fun _ => rfl)
  | media kind => exact hbare (bare_map (harmless_requiredName _ _) (.media kind) fun _ => rfl)
  | inventoryAdd => exact hbare (bare_map (harmless_readInventory _ _) .inventory fun _ => rfl)
  | inventoryRemove => exact hbare (bare_map (harmless_readInventory _ _) .inventory fun _ => rfl)
  | save => exact hbare (bare_pure rfl)
  | inventoryClear => exact hbare (bare_pure rfl)

/-! ### Statements -/

variable {l : Lexeme} {rest ts : List Lexeme} {lo hi : Position}

lemma harmless_missing {α : Type} (ctx : Context) (wanted : Wanted) (ts : List Lexeme) :
    (Outcome.fail (ctx.missing wanted ts) : Outcome Refusal α).Harmless := by
  refine ⟨by simp [Outcome.fail], fun refusal h => ⟨.missing wanted ctx.finish ts, ?_, ?_⟩⟩
  · simpa [Outcome.fail, Context.missing, eq_comm] using h
  · simp [Report.Harmless, Report.missing, Fault.kind]

lemma harmless_lift {α : Type} (ctx : Context) (ts : List Lexeme) (r : Reading α) :
    (ctx.lift ts r).outcome.Harmless := by
  unfold Context.lift
  split
  · exact Outcome.harmless_pure _
  · exact harmless_missing ctx _ _

lemma lift_congr {α : Type} (h : ctx.finish = ctx'.finish) (ts : List Lexeme) (r : Reading α) :
    ctx.lift ts r = ctx'.lift ts r := by
  simp [Context.lift, Context.missing, h]

lemma bare_readSimple (ctx : Context) (rest : List Lexeme)
    (h : ∀ carrier text, l.token ≠ .payload carrier text) :
    Bare (Statement.readSimple ctx l rest).outcome := by
  -- what reads a variable asks for nothing but a name
  have hvariable (make : Option String → Statement) (hmake : ∀ name, (make name).groups = []) :
      Bare (Statement.readVariable make rest).outcome := by
    unfold Statement.readVariable
    split
    · split <;> exact bare_pure (hmake _)
    · exact bare_pure (hmake _)
  unfold Statement.readSimple
  split
  · next name _ =>
    unfold Statement.readAssignment
    simp only
    split
    · exact bare_map (harmless_lift ctx _ _) (.assign name) fun _ => rfl
    · exact ⟨Outcome.harmless_drop _ (by simp [Fault.kind]), fun s hs => by
        simp [Parsed.after, Outcome.drop, Outcome.fail] at hs⟩
  · next carrier text heq => exact absurd heq (h carrier text)
  · exact bare_pure rfl
  · exact bare_pure rfl
  · exact bare_pure rfl
  · exact bare_pure rfl
  · exact hvariable .input fun _ => rfl
  · exact hvariable .anyKey fun _ => rfl
  · exact bare_map (harmless_lift ctx _ _) .pause fun _ => rfl
  · exact ⟨harmless_missing ctx _ _, fun s hs => by simp [Outcome.fail] at hs⟩

lemma readSimple_congr (hfinish : ctx.finish = ctx'.finish)
    (h : ∀ carrier text, l.token ≠ .payload carrier text) :
    Statement.readSimple ctx l rest = Statement.readSimple ctx' l rest := by
  have hassign (name : String) :
      Statement.readAssignment ctx name rest = Statement.readAssignment ctx' name rest := by
    simp only [Statement.readAssignment, hfinish, lift_congr hfinish]
  unfold Statement.readSimple
  split
  · rw [hassign]
  · next carrier text heq => exact absurd heq (h carrier text)
  all_goals simp [lift_congr hfinish, Context.missing, hfinish]

variable (h : C.Contexts G ctx ctx')

include h

lemma Contexts.readSimple (hlaid : Laid lo hi (l :: rest)) :
    C.Parses lo (l :: rest) (Statement.Alike G) (Statement.readSimple ctx l rest)
      (Statement.readSimple ctx' l rest) := by
  by_cases hl : ∃ carrier text, l.token = .payload carrier text
  · obtain ⟨carrier, text, hl⟩ := hl
    obtain ⟨hlo, hsits, -⟩ := hlaid
    obtain ⟨hline, hstop⟩ := hsits carrier text hl
    simp only [Statement.readSimple, hl]
    refine ⟨?_, fun _ _ => rfl⟩
    have := h.readPayload (l := l) carrier hline
      (le_trans hlo (Position.le_right l.start _))
    rw [String.length_toList, hstop] at this
    simpa [reach] using this
  · simp only [not_exists] at hl
    have hbare := bare_readSimple ctx rest hl
    rw [← readSimple_congr h.finish hl]
    exact Parses.harmless hlaid hbare.harmless fun s hs => .same (hbare.groups s hs)

lemma Contexts.takeThen (hlaid : Laid lo hi ts) :
    C.Parses lo ts (fun _ _ => True) (Statement.takeThen ctx ts) (Statement.takeThen ctx' ts) := by
  have hsame : Statement.takeThen ctx ts = Statement.takeThen ctx' ts := by
    simp [Statement.takeThen, Context.missing, h.finish]
  rw [← hsame]
  refine Parses.harmless hlaid ?_ fun _ _ => trivial
  unfold Statement.takeThen
  split
  · exact Outcome.harmless_pure ()
  · exact harmless_missing ctx _ _

omit h in
/-- Chains of statements are read alike in the list. -/
def Chains (C : Correspondence) (G : Group → Group → Prop) (ctx ctx' : Context)
    (ts : List Lexeme) : Prop :=
  ∀ lo hi, Laid lo hi ts → C.Parses lo ts (List.Forall₂ (Statement.Alike G))
    (Statement.readChain ctx ts) (Statement.readChain ctx' ts)

lemma Contexts.readGroup (hlaid : Laid lo hi ts) (line : Nat) (hchain : Chains C G ctx ctx' ts) :
    C.Parses lo ts G (Statement.readGroup ctx line ts) (Statement.readGroup ctx' line ts) := by
  rw [Statement.readGroup, Statement.readGroup]
  exact Parses.map hlaid (hchain lo hi hlaid) fun _ _ hs => h.congruent.group hs

lemma Contexts.readConditional (hlaid : Laid lo hi ts) (line : Nat)
    (hchain : ∀ n, Chains C G ctx ctx' (ts.drop n)) :
    C.Parses lo ts (Statement.Alike G) (Statement.readConditional ctx line ts)
      (Statement.readConditional ctx' line ts) := by
  rw [Statement.readConditional, Statement.readConditional, ← lift_congr h.finish]
  -- the condition has nothing to do with the contexts
  have hcondition : C.Parses lo ts Eq (ctx.lift ts (BoolExpr.read ts))
      (ctx.lift ts (BoolExpr.read ts)) :=
    Parses.harmless hlaid (harmless_lift ctx ts _) fun _ _ => rfl
  refine Parses.bind hlaid hcondition fun condition _ _ heq => ?_
  subst heq
  generalize (ctx.lift ts (BoolExpr.read ts)).taken = k
  have hlaid := hlaid.drop k
  refine Parses.bind hlaid (h.takeThen hlaid) fun _ _ hthen _ => ?_
  rw [(Statement.taken_of_takeThen hthen).2]
  have hlaid := hlaid.drop 1
  rw [List.drop_drop] at hlaid ⊢
  refine Parses.bind hlaid (h.readGroup hlaid line (hchain _)) fun g g' _ hg => ?_
  generalize (Statement.readGroup ctx line (ts.drop (k + 1))).taken = n
  have hlaid := hlaid.drop n
  rw [List.drop_drop] at hlaid ⊢
  by_cases helse : Statement.startsWith .elseWord (ts.drop (k + 1 + n)) = true
  · -- a second branch
    rw [if_pos helse, if_pos helse]
    have hafter := hlaid.drop 1
    refine Parses.after hlaid ?_
    rw [List.drop_drop] at hafter ⊢
    exact Parses.map hafter (h.readGroup hafter line (hchain _)) fun e e' he =>
      .conditional hg (.some he)
  · rw [if_neg helse, if_neg helse]
    exact Parses.pure _ _ (.conditional hg .none)

lemma Contexts.read (hlaid : Laid lo hi ts)
    (hchain : ∀ us : List Lexeme, us.length < ts.length → Chains C G ctx ctx' us) :
    C.Parses lo ts (Statement.Alike G) (Statement.read ctx ts) (Statement.read ctx' ts) := by
  rcases ts with _ | ⟨l, rest⟩
  · have hsame : Statement.read ctx [] = Statement.read ctx' [] := by
      simp [Statement.read, Context.missing, h.finish]
    rw [← hsame]
    refine Parses.harmless hlaid ?_ fun s hs => ?_
    · rw [Statement.read]
      exact harmless_missing ctx _ _
    · simp [Statement.read, Parsed.result, Outcome.fail] at hs
  · rw [Statement.read, Statement.read]
    split
    · refine Parses.after hlaid (h.readConditional (hlaid.drop 1) _ fun n => hchain _ ?_)
      simp only [List.drop_succ_cons, List.drop_zero, List.length_drop, List.length_cons]
      omega
    · exact h.readSimple hlaid

lemma Contexts.readChain (hchain : ∀ us : List Lexeme, us.length < ts.length →
    Chains C G ctx ctx' us) : Chains C G ctx ctx' ts := by
  intro lo hi hlaid
  rw [Statement.readChain, Statement.readChain]
  refine Parses.bind hlaid (h.read hlaid hchain) fun s s' hs halike => ?_
  generalize (Statement.read ctx ts).taken = k
  rcases ts with _ | ⟨l, rest⟩
  · exact Parses.pure _ _ (.cons halike .nil)
  have hlaid := hlaid.drop k
  by_cases hcontinues : Statement.continues ((l :: rest).drop k) = true
  · simp only [if_pos hcontinues]
    have hafter := hlaid.drop 1
    refine Parses.after hlaid ?_
    rw [List.drop_drop, List.drop_succ_cons] at hafter ⊢
    refine Parses.map hafter (hchain _ ?_ _ hi hafter) fun tail tail' htail => .cons halike htail
    simp only [List.length_drop, List.length_cons]
    omega
  · simp only [if_neg hcontinues]
    exact Parses.pure _ _ (.cons halike .nil)

/-- **Statements are read alike** by corresponding contexts. -/
theorem Contexts.statements (ts : List Lexeme) (hlaid : Laid lo hi ts) :
    C.Parses lo ts (Statement.Alike G) (Statement.read ctx ts) (Statement.read ctx' ts) := by
  have hchains : ∀ us, Chains C G ctx ctx' us := by
    intro us
    induction hn : us.length using Nat.strongRecOn generalizing us with
    | ind n ih => exact h.readChain fun vs hvs => ih vs.length (hn ▸ hvs) vs rfl
  exact h.read hlaid fun us _ => hchains us

end Correspondence

end QuestScript
