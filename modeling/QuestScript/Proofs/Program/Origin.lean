import QuestScript.Proofs.Outcome
import QuestScript.Proofs.Print.Meaning
import QuestScript.Proofs.Program.Depth
import QuestScript.Proofs.Program.Line
import QuestScript.Proofs.Text.Trim

/-!
Where the statements of a program come from.

Every statement of a program was read from some place of the lexemes by itself, and every group
inside a statement is a jump, an action that was read, or a branch. The lemmas below say so reader
by reader, together with the reports that were made on the way: a reader that succeeds passes on all
of them.
-/

namespace QuestScript

open Text

variable {ctx : Context} {ts : List Lexeme} {rs : List Report} {k : Nat}

/-! ### Payloads -/

/-- The group is a jump, or the reader of actions gives it for some text of the payload and makes
some of the reports. -/
def ActionReader.Gives (action : ActionReader) (payload : List Char) (rs : List Report)
    (g : Group) : Prop :=
  (∃ target line, g = .jump target line) ∨
    ∃ place text made, text ⊆ payload ∧ made ⊆ rs ∧ action place text = ⟨made, .ok g⟩

lemma ActionReader.Gives.mono {action : ActionReader} {payload whole : List Char}
    {more : List Report} {g : Group} (h : action.Gives payload rs g) (hpayload : payload ⊆ whole)
    (hrs : rs ⊆ more) : action.Gives whole more g := by
  rcases h with hjump | ⟨place, text, made, htext, hmade, hg⟩
  · exact .inl hjump
  · exact .inr ⟨place, text, made, fun c hc => hpayload (htext hc), fun r hr => hrs (hmade hr), hg⟩

namespace Print

variable {policy : SubstitutionPolicy} {action : ActionReader} {place : Position}

lemma Substitution.Means.groups_eq_nil {body : List Char} {segment : Segment}
    (h : Means body segment) : segment.groups = [] := by
  cases h <;> rfl

lemma groups_of_substitution {body : List Char} {segment : Segment}
    (h : Substitution.decode body = .ok segment) : segment.groups = [] :=
  (Substitution.decode_eq_ok_iff.mp h).groups_eq_nil

lemma gives_of_decode {span : Span} {segment : Segment}
    (h : span.decode policy action place = ⟨rs, .ok segment⟩) :
    ∀ g ∈ segment.groups, action.Gives span.source rs g := by
  rcases Span.decode_eq_ok h with ⟨text, rfl, rfl⟩ | ⟨body, rfl, hmeans⟩ |
    ⟨inner, label, group, rfl, rfl, hgroup⟩
  · simp [Segment.groups]
  · simp [hmeans.groups_eq_nil]
  · intro g hg
    obtain rfl := List.mem_singleton.mp hg
    rcases hgroup with rfl | ⟨p, behind, hbehind, haction⟩
    · exact .inl ⟨_, _, rfl⟩
    · refine .inr ⟨p, trim behind, rs, fun c hc => ?_, fun _ => id, haction⟩
      simp [Span.source, hbehind (trim_subset _ hc)]

lemma gives_of_decodeAll {spans : List Span} {segments : List Segment}
    (h : Span.decodeAll policy action place spans = ⟨rs, .ok segments⟩) :
    ∀ g ∈ segments.flatMap Segment.groups, action.Gives (spans.flatMap Span.source) rs g := by
  refine Span.decodeAll_induction (motive := fun spans rs segments =>
    ∀ g ∈ segments.flatMap Segment.groups, action.Gives (spans.flatMap Span.source) rs g)
    (by simp) (fun hspan htail g hg => ?_) h
  rw [Segment.groups_glue, List.mem_append] at hg
  rcases hg with hg | hg
  · exact (gives_of_decode hspan g hg).mono (by simp) (by simp)
  · exact (htail g hg).mono (by simp) (by simp)

end Print

namespace Statement

/-- Statements that no payload is read as. -/
def IsPlain : Statement → Prop
  | assign _ _ | conditional _ _ _ => False
  | _ => True

lemma exists_take_of_split {n : Nat} {payload ops caption : List Char} {rest : List (List Char)}
    (h : Fields.split n payload = ops :: caption :: rest) :
    ∃ k, k ≤ payload.length ∧ ops = payload.take k := by
  have hstart : ops <+: payload := by
    cases n with
    | zero => simp [Fields.split] at h
    | succ n =>
      rw [Fields.split] at h
      split at h
      · obtain ⟨rfl, -⟩ := List.cons.inj h
        exact List.take_prefix _ _
      · simp at h
  exact ⟨ops.length, hstart.length_le, List.prefix_iff_eq_take.mp hstart⟩

lemma gives_of_readButton {action : ActionReader} {place : Position} {payload : List Char}
    {s : Statement} (h : readButton action place payload = ⟨rs, .ok s⟩) :
    s.IsPlain ∧ ∀ g ∈ s.groups, action.Gives payload rs g := by
  unfold readButton at h
  split at h
  · simp at h
  · split at h
    · simp at h
    · obtain ⟨-, rfl⟩ := Outcome.pure_eq_ok.mp h
      refine ⟨trivial, fun g hg => ?_⟩
      obtain rfl := List.mem_singleton.mp hg
      exact .inl ⟨_, _, rfl⟩
  · next hfields =>
    split at h
    · simp at h
    · obtain ⟨group, hgroup, rfl⟩ := Outcome.map_eq_ok.mp h
      refine ⟨trivial, fun g hg => ?_⟩
      obtain rfl := List.mem_singleton.mp hg
      obtain ⟨k, -, rfl⟩ := exists_take_of_split hfields
      refine .inr ⟨_, _, rs, fun c hc => ?_, fun _ => id, hgroup⟩
      exact List.mem_of_mem_take (trim_subset _ hc)

lemma gives_of_map {α : Type} {action : ActionReader} {payload : List Char} {o : Outcome Refusal α}
    {make : α → Statement} {s : Statement} (h : o.map make = ⟨rs, .ok s⟩)
    (hmake : ∀ a, (make a).IsPlain ∧ (make a).groups = []) :
    s.IsPlain ∧ ∀ g ∈ s.groups, action.Gives payload rs g := by
  obtain ⟨a, -, rfl⟩ := Outcome.map_eq_ok.mp h
  exact ⟨(hmake a).1, by simp [(hmake a).2]⟩

lemma change_of_read {remove : Bool} {place : Position} {payload : List Char}
    {change : InventoryChange} (h : InventoryChange.read remove place payload = ⟨rs, .ok change⟩) :
    ∃ quantity item, (trim item).isEmpty = false ∧ change =
      .change (if remove then .negate quantity else quantity) (String.ofList (trim item)) := by
  have hitem {place : Position} {item : List Char} {quantity : NumberExpr} {rs : List Report}
      (h : InventoryChange.ofItem remove place item quantity = ⟨rs, .ok change⟩) :
      ∃ quantity item, (trim item).isEmpty = false ∧ change =
        .change (if remove then .negate quantity else quantity) (String.ofList (trim item)) := by
    unfold InventoryChange.ofItem at h
    split at h
    · simp at h
    · next hsome =>
      obtain ⟨-, rfl⟩ := Outcome.pure_eq_ok.mp h
      exact ⟨quantity, item, by simpa using hsome, rfl⟩
  unfold InventoryChange.read at h
  split at h
  · obtain ⟨_, _, _, -, hread, -⟩ := Outcome.bind_eq_ok.mp h
    exact hitem hread
  · exact hitem h

lemma gives_of_readPayload {l : Lexeme} {carrier : Carrier} {text : List Char} {s : Statement}
    (h : readPayload ctx l carrier text = ⟨rs, .ok s⟩) :
    s.IsPlain ∧ ∀ g ∈ s.groups, ctx.action.Gives text rs g := by
  cases carrier with
  | print newline =>
    obtain ⟨segments, hsegments, rfl⟩ := Outcome.map_eq_ok.mp h
    have := Print.gives_of_decodeAll hsegments
    rw [Print.Span.flatMap_source_ofText] at this
    exact ⟨trivial, this⟩
  | button => exact gives_of_readButton h
  | save =>
    obtain ⟨-, rfl⟩ := Outcome.pure_eq_ok.mp h
    exact ⟨trivial, by simp [groups]⟩
  | inventoryClear =>
    obtain ⟨-, rfl⟩ := Outcome.pure_eq_ok.mp h
    exact ⟨trivial, by simp [groups]⟩
  | goto => exact gives_of_map h fun _ => ⟨trivial, rfl⟩
  | call => exact gives_of_map h fun _ => ⟨trivial, rfl⟩
  | label => exact gives_of_map h fun _ => ⟨trivial, rfl⟩
  | inventoryAdd => exact gives_of_map h fun _ => ⟨trivial, rfl⟩
  | inventoryRemove => exact gives_of_map h fun _ => ⟨trivial, rfl⟩
  | media kind => exact gives_of_map h fun _ => ⟨trivial, rfl⟩

/-! ### Statements -/

lemma lift_eq_ok {α : Type} {r : Reading α} {a : α} :
    ctx.lift ts r = ⟨⟨rs, .ok a⟩, k⟩ ↔ rs = [] ∧ r = ⟨.ok a, k⟩ := by
  rcases r with ⟨_ | b, m⟩
  · simp [Context.lift, Outcome.fail]
  · simp [Context.lift, Outcome.pure, and_assoc, eq_comm]

/-- Statements that are read from a keyword that swallows no text. -/
def IsBrief : Statement → Prop
  | finish | input _ | anyKey _ | dropCalls | quit | clearScreen | pause _ => True
  | _ => False

lemma IsBrief.isPlain {s : Statement} (h : s.IsBrief) : s.IsPlain := by
  cases s <;> trivial

lemma IsBrief.groups_eq_nil {s : Statement} (h : s.IsBrief) : s.groups = [] := by
  cases s <;> first | rfl | exact h.elim

lemma brief_of_pure {s t : Statement} {n : Nat}
    (h : (⟨.pure t, n⟩ : Parsed Refusal Statement) = ⟨⟨rs, .ok s⟩, k⟩) (ht : t.IsBrief) :
    s.IsBrief := by
  obtain ⟨⟨-, rfl⟩, -⟩ : (rs = [] ∧ t = s) ∧ n = k := by
    simpa [Outcome.pure, eq_comm] using h
  exact ht

lemma brief_of_readVariable {make : Option String → Statement} {s : Statement}
    (h : readVariable make ts = ⟨⟨rs, .ok s⟩, k⟩) (hmake : ∀ name, (make name).IsBrief) :
    s.IsBrief := by
  unfold readVariable at h
  split at h
  · split at h <;> exact brief_of_pure h (hmake _)
  · exact brief_of_pure h (hmake _)

lemma readSimple_eq_ok {l : Lexeme} {rest : List Lexeme} {s : Statement}
    (h : readSimple ctx l rest = ⟨⟨rs, .ok s⟩, k⟩) :
    (∃ name value m, s = assign name value ∧ Expr.read rest.tail = ⟨.ok value, m⟩ ∧ k = 2 + m) ∨
      (∃ carrier text, l.token = .payload carrier text ∧
        readPayload ctx l carrier text.toList = ⟨rs, .ok s⟩) ∨
      s.IsBrief := by
  unfold readSimple at h
  split at h
  · -- an assignment
    next name _ =>
    obtain ⟨i, hassign, rfl⟩ := Parsed.after_eq_ok.mp h
    unfold readAssignment at hassign
    simp only at hassign
    split at hassign
    · obtain ⟨m, hmap, rfl⟩ := Parsed.after_eq_ok.mp hassign
      obtain ⟨value, hvalue, rfl⟩ := Parsed.map_eq_ok.mp hmap
      exact .inl ⟨name, value, m, rfl, (lift_eq_ok.mp hvalue).2, by omega⟩
    · simp at hassign
  · -- a payload
    next carrier text hl =>
    obtain ⟨hpayload, -⟩ := Parsed.mk.injEq .. ▸ h
    exact .inr (.inl ⟨carrier, text, hl, hpayload⟩)
  · exact .inr (.inr (brief_of_pure h trivial))
  · exact .inr (.inr (brief_of_pure h trivial))
  · exact .inr (.inr (brief_of_pure h trivial))
  · exact .inr (.inr (brief_of_pure h trivial))
  · obtain ⟨i, hvariable, rfl⟩ := Parsed.after_eq_ok.mp h
    exact .inr (.inr (brief_of_readVariable hvariable fun _ => trivial))
  · obtain ⟨i, hvariable, rfl⟩ := Parsed.after_eq_ok.mp h
    exact .inr (.inr (brief_of_readVariable hvariable fun _ => trivial))
  · obtain ⟨i, hmap, rfl⟩ := Parsed.after_eq_ok.mp h
    obtain ⟨duration, -, rfl⟩ := Parsed.map_eq_ok.mp hmap
    exact .inr (.inr trivial)
  · simp [Outcome.fail] at h

lemma readConditional_eq_ok {line : Nat} {s : Statement}
    (h : readConditional ctx line ts = ⟨⟨rs, .ok s⟩, k⟩) :
    ∃ condition i thenGroup first n, BoolExpr.read ts = ⟨.ok condition, i⟩ ∧
      startsWith .thenWord (ts.drop i) = true ∧
      readGroup ctx line (ts.drop (i + 1)) = ⟨⟨first, .ok thenGroup⟩, n⟩ ∧
      ((s = conditional condition thenGroup none ∧ rs = first ∧ k = i + 1 + n ∧
          startsWith .elseWord (ts.drop (i + 1 + n)) = false) ∨
        ∃ elseGroup later m, startsWith .elseWord (ts.drop (i + 1 + n)) = true ∧
          readGroup ctx line (ts.drop (i + 1 + n + 1)) = ⟨⟨later, .ok elseGroup⟩, m⟩ ∧
          s = conditional condition thenGroup (some elseGroup) ∧ rs = first ++ later ∧
          k = i + 1 + n + 1 + m) := by
  rw [readConditional] at h
  obtain ⟨condition, r₁, r₂, i, j, hcondition, hafter, rfl, rfl⟩ := Parsed.bind_eq_ok.mp h
  obtain ⟨rfl, hread⟩ := lift_eq_ok.mp hcondition
  obtain ⟨_, r₃, r₄, i', j', hthen, hbranch, rfl, rfl⟩ := Parsed.bind_eq_ok.mp hafter
  unfold takeThen at hthen
  -- the word `then` is there
  split at hthen
  · next hword =>
    obtain ⟨rfl, rfl⟩ : r₃ = [] ∧ 1 = i' := by simpa [Outcome.pure, eq_comm] using hthen
    obtain ⟨thenGroup, first, r₅, n, m, hgroup, helse, rfl, rfl⟩ := Parsed.bind_eq_ok.mp hbranch
    refine ⟨condition, i, thenGroup, first, n, hread, hword, hgroup, ?_⟩
    split at helse
    · next hword =>
      obtain ⟨m', hmap, rfl⟩ := Parsed.after_eq_ok.mp helse
      obtain ⟨elseGroup, hother, rfl⟩ := Parsed.map_eq_ok.mp hmap
      exact .inr ⟨elseGroup, r₅, m', hword, hother, rfl, by simp, by omega⟩
    · next hword =>
      obtain ⟨⟨rfl, rfl⟩, rfl⟩ : (r₅ = [] ∧ _ = s) ∧ 0 = m := by
        simpa [Parsed.pure, Outcome.pure, eq_comm] using helse
      exact .inl ⟨rfl, by simp, by omega, by simpa using hword⟩
  · simp [Outcome.fail] at hthen

lemma readChain_eq_ok {statements : List Statement}
    (h : readChain ctx ts = ⟨⟨rs, .ok statements⟩, k⟩) :
    ∃ s first i, read ctx ts = ⟨⟨first, .ok s⟩, i⟩ ∧
      ((statements = [s] ∧ rs = first ∧ k = i ∧ continues (ts.drop i) = false) ∨
        ∃ tail later m, continues (ts.drop i) = true ∧
          readChain ctx (ts.drop (i + 1)) = ⟨⟨later, .ok tail⟩, m⟩ ∧ statements = s :: tail ∧
          rs = first ++ later ∧ k = i + 1 + m) := by
  rw [readChain] at h
  obtain ⟨s, first, r₁, i, j, hread, hnext, rfl, rfl⟩ := Parsed.bind_eq_ok.mp h
  refine ⟨s, first, i, hread, ?_⟩
  rcases ts with _ | ⟨l, rest⟩
  · simp [read, Outcome.fail] at hread
  simp only at hnext
  -- behind a statement an ampersand goes on with the chain, or the chain ends
  split at hnext
  · next hcontinues =>
    obtain ⟨m, hmap, rfl⟩ := Parsed.after_eq_ok.mp hnext
    obtain ⟨tail, htail, rfl⟩ := Parsed.map_eq_ok.mp hmap
    exact .inr ⟨tail, r₁, m, hcontinues, htail, rfl, rfl, by omega⟩
  · next hcontinues =>
    obtain ⟨⟨rfl, rfl⟩, rfl⟩ : (r₁ = [] ∧ _ = statements) ∧ 0 = j := by
      simpa [Parsed.pure, Outcome.pure, eq_comm] using hnext
    exact .inl ⟨rfl, by simp, rfl, by simpa using hcontinues⟩

/-! ### Putting statements together -/

lemma readGroup_of_readChain {line : Nat} {statements : List Statement}
    (h : readChain ctx ts = ⟨⟨rs, .ok statements⟩, k⟩) :
    readGroup ctx line ts = ⟨⟨rs, .ok ⟨statements, line⟩⟩, k⟩ := by
  rw [readGroup, h]
  rfl

lemma readConditional_of_then {line : Nat} {condition : BoolExpr} {thenGroup : Group} {i n : Nat}
    (hcondition : BoolExpr.read ts = ⟨.ok condition, i⟩)
    (hthen : startsWith .thenWord (ts.drop i) = true)
    (hgroup : readGroup ctx line (ts.drop (i + 1)) = ⟨⟨rs, .ok thenGroup⟩, n⟩)
    (hend : startsWith .elseWord (ts.drop (i + 1 + n)) = false) :
    readConditional ctx line ts =
      ⟨⟨rs, .ok (.conditional condition thenGroup none)⟩, i + (1 + n)⟩ := by
  rw [readConditional, lift_eq_ok.mpr ⟨rfl, hcondition⟩]
  simp [Parsed.bind, Parsed.result, Parsed.reports, takeThen, hthen, hgroup, hend, Parsed.pure,
    Outcome.pure, Outcome.after]

lemma readConditional_of_else {line : Nat} {condition : BoolExpr} {thenGroup elseGroup : Group}
    {later : List Report} {i n m : Nat} (hcondition : BoolExpr.read ts = ⟨.ok condition, i⟩)
    (hthen : startsWith .thenWord (ts.drop i) = true)
    (hgroup : readGroup ctx line (ts.drop (i + 1)) = ⟨⟨rs, .ok thenGroup⟩, n⟩)
    (helse : startsWith .elseWord (ts.drop (i + 1 + n)) = true)
    (hother : readGroup ctx line (ts.drop (i + 1 + n + 1)) = ⟨⟨later, .ok elseGroup⟩, m⟩) :
    readConditional ctx line ts =
      ⟨⟨rs ++ later, .ok (.conditional condition thenGroup (some elseGroup))⟩,
        i + (1 + (n + (1 + m)))⟩ := by
  rw [readConditional, lift_eq_ok.mpr ⟨rfl, hcondition⟩]
  simp [Parsed.bind, Parsed.result, Parsed.reports, takeThen, hthen, hgroup, helse, hother,
    Parsed.map, Parsed.after, Outcome.map, Except.map, Outcome.pure, Outcome.after]

lemma readChain_of_last {s : Statement} (hread : read ctx ts = ⟨⟨rs, .ok s⟩, k⟩)
    (hend : continues (ts.drop k) = false) : readChain ctx ts = ⟨⟨rs, .ok [s]⟩, k⟩ := by
  rw [readChain, hread]
  cases ts with
  | nil => simp [Parsed.bind, Parsed.result, Parsed.reports, Parsed.pure, Outcome.pure,
      Outcome.after]
  | cons l rest => simp [Parsed.bind, Parsed.result, Parsed.reports, hend, Parsed.pure,
      Outcome.pure, Outcome.after]

lemma readChain_of_continues {s : Statement} {tail : List Statement} {later : List Report} {m : Nat}
    (hread : read ctx ts = ⟨⟨rs, .ok s⟩, k⟩) (hcontinues : continues (ts.drop k) = true)
    (htail : readChain ctx (ts.drop (k + 1)) = ⟨⟨later, .ok tail⟩, m⟩) :
    readChain ctx ts = ⟨⟨rs ++ later, .ok (s :: tail)⟩, k + (1 + m)⟩ := by
  rw [readChain, hread]
  cases ts with
  | nil => simp [continues, startsWith] at hcontinues
  | cons l rest =>
    rw [List.drop_succ_cons] at htail
    simp [Parsed.bind, Parsed.result, Parsed.reports, hcontinues, htail, Parsed.map, Parsed.after,
      Outcome.map, Except.map, Outcome.after]

end Statement

/-! ### Lines and programs -/

namespace Group

/-- A line that a chain of statements takes to the end. -/
theorem readLine_of_readChain {statements : List Statement}
    (h : Statement.readChain ctx ts = ⟨⟨rs, .ok statements⟩, ts.length⟩) :
    readLine ctx ts = ⟨⟨rs, .ok statements⟩, ts.length⟩ := by
  induction hn : ts.length using Nat.strongRecOn generalizing ts rs statements with
  | ind n ih =>
  subst hn
  obtain ⟨s, first, i, hread, hend⟩ := Statement.readChain_eq_ok h
  rcases ts with _ | ⟨l, rest⟩
  · simp [Statement.read, Outcome.fail] at hread
  rcases hend with ⟨rfl, rfl, hall, -⟩ | ⟨tail, later, m, hcontinues, htail, rfl, rfl, hall⟩
  · exact readLine_statement (hall ▸ hread)
  · have hm : m = ((l :: rest).drop (i + 1)).length := by
      rw [List.length_drop]
      omega
    subst hm
    have hlater := ih _ (by omega) htail rfl
    rw [readLine_of_continues hread hcontinues hlater, hall, Nat.add_assoc]

lemma endsStatement_of_trailing {behind : List Lexeme} (h : trailing ctx behind = []) :
    ∀ o ∈ behind.head?, o.endsStatement = true := by
  intro o ho
  by_contra hsep
  simp [trailing, Option.mem_def.mp ho, hsep] at h

/-- Every statement of a line was read by itself. Where nothing was reported, a separator or the end
of the line follows it. -/
theorem exists_of_mem_readLine {statements : List Statement} {s : Statement}
    (h : (readLine ctx ts).outcome = ⟨rs, .ok statements⟩) (hs : s ∈ statements) :
    ∃ j made i, Statement.read ctx (ts.drop j) = ⟨⟨made, .ok s⟩, i⟩ ∧ made ⊆ rs ∧
      (rs = [] → ∀ l ∈ ((ts.drop j).drop i).head?, l.endsStatement = true) := by
  induction hn : ts.length using Nat.strongRecOn generalizing ts rs statements with
  | ind n ih =>
  rcases ts with _ | ⟨l, rest⟩
  · obtain ⟨-, rfl⟩ : _ ∧ [] = statements := by simpa [readLine] using h
    simp at hs
  have hrest {i : Nat} {more : List Report} {later : List Statement}
      (hmore : (readRest ctx ((l :: rest).drop i)).outcome = ⟨more, .ok later⟩) (hs : s ∈ later) :
      ∃ j made i, Statement.read ctx ((l :: rest).drop j) = ⟨⟨made, .ok s⟩, i⟩ ∧ made ⊆ more ∧
        (more = [] → ∀ o ∈ (((l :: rest).drop j).drop i).head?, o.endsStatement = true) := by
    rw [readRest] at hmore
    rcases restBy_cases (readLine ctx) ((l :: rest).drop i) with hnone | ⟨after, hlen, hline⟩
    · obtain ⟨-, rfl⟩ : more = [] ∧ [] = later := by simpa [hnone] using hmore
      simp at hs
    · rw [List.drop_drop] at hlen hline
      have hshort : ((l :: rest).drop (i + after)).length < n := by
        simp only [List.length_drop] at hlen ⊢
        omega
      obtain ⟨j, hread⟩ := ih _ hshort (hline ▸ hmore) hs rfl
      exact ⟨i + after + j, by simpa only [List.drop_drop] using hread⟩
  rcases hread : Statement.read ctx (l :: rest) with ⟨⟨first, (report | cause) | s'⟩, i⟩
  · -- the first statement was left out, so `s` stands behind it
    by_cases hl : l.token = .mark .ifWord
    · rw [readLine_of_dropped_if hl hread] at h
      obtain ⟨-, rfl⟩ : _ ∧ [] = statements := by simpa using h
      simp at hs
    · rw [readLine_of_dropped hl hread] at h
      rcases hmore : (readRest ctx ((l :: rest).drop i)).outcome with ⟨more, result⟩
      obtain ⟨rfl, rfl⟩ : first ++ report :: more = rs ∧ result = .ok statements := by
        simpa [hmore, Outcome.after] using h
      obtain ⟨j, made, m, hj, hmade, -⟩ := hrest hmore hs
      exact ⟨j, made, m, hj, fun r hr => by simp [hmade hr], by simp⟩
  · simp [readLine_of_aborted hread] at h
  · rw [readLine_of_ok hread] at h
    rcases hmore : (readRest ctx ((l :: rest).drop i)).outcome with ⟨more, _ | later⟩
    · simp [hmore, Outcome.map, Outcome.after, Except.map] at h
    obtain ⟨rfl, rfl⟩ : first ++ (trailing ctx ((l :: rest).drop i) ++ more) = rs ∧
        s' :: later = statements := by
      simpa [hmore, Outcome.map, Outcome.after, Except.map] using h
    rcases List.mem_cons.mp hs with rfl | hs
    · -- nothing was reported, so nothing was left over behind `s`
      refine ⟨0, first, i, hread, by simp, fun hnil o ho => ?_⟩
      obtain ⟨-, htrailing, -⟩ : first = [] ∧ trailing ctx ((l :: rest).drop i) = [] ∧
          more = [] := by
        simpa using hnil
      exact endsStatement_of_trailing htrailing o ho
    · obtain ⟨j, made, m, hj, hmade, hend⟩ := hrest hmore hs
      refine ⟨j, made, m, hj, fun r hr => by simp [hmade hr], fun hnil => hend ?_⟩
      simp only [List.append_eq_nil_iff] at hnil
      exact hnil.2.2

end Group

/-- Every group of a program is a line on which something was read. -/
theorem Program.exists_of_mem_read {p : Program} {g : Group}
    (h : (read ctx ts).outcome = ⟨rs, .ok p⟩) (hg : g ∈ p.groups) :
    ∃ n made, (Group.readLine ctx (ts.drop n)).outcome = ⟨made, .ok g.statements⟩ ∧ made ⊆ rs ∧
      g.statements ≠ [] := by
  obtain ⟨groups, hgroups, rfl⟩ := Outcome.map_eq_ok.mp h
  rw [readGroups_eq] at hgroups
  obtain ⟨n, hline, hreports, hne⟩ :=
    exists_of_mem_readGroupsBy (congrArg Outcome.result hgroups) hg
  rw [Parsed.reports, Parsed.reports, hgroups] at hreports
  exact ⟨n, _, by rw [← hline]; rfl, hreports, hne⟩

end QuestScript
