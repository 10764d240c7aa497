import QuestScript.Proofs.Expr.Parallel
import QuestScript.Proofs.Statement.Correspondence
import QuestScript.Proofs.Statement.Fields

/-!
Statements are read in step.

Where actions are read in step, so are links, buttons and printed texts, and with them all
statements. The statements that are read from both lists differ in the line numbers of their groups.
-/

namespace QuestScript

open Text

lemma Fields.exists_of_split_one {payload first second : List Char}
    (h : Fields.split 1 payload = [first, second]) :
    ∃ k < payload.length, first = payload.take k ∧ second = payload.drop (k + 1) := by
  rw [Fields.split] at h
  rcases hcomma : Fields.comma? payload with _ | k
  · simp [hcomma] at h
  · obtain ⟨rfl, rfl⟩ : payload.take k = first ∧ payload.drop (k + 1) = second := by
      simpa [hcomma, Fields.split] using h
    exact ⟨k, Fields.comma?_lt hcomma, rfl, rfl⟩

namespace Parallel

variable {P : Parallel} {ctx ctx' : Context} {place place' : Position} {α : Type}

/-- Two contexts with one policy, whose readers of actions read in step. -/
structure Contexts (P : Parallel) (ctx ctx' : Context) : Prop where
  lawful : P.Lawful
  policy : ctx'.policy = ctx.policy
  action {p p' : Position} {cs : List Char} (h : P.text p p' cs) :
    P.Outcomes (fun g g' => g' = g.renumber P.line) (ctx.action p cs) (ctx'.action p' cs)

/-! ### Texts -/

lemma Contexts.part (h : P.Contexts ctx ctx') {text : List Char} {n m : Nat}
    (htext : P.text place place' text) (hn : n ≤ text.length) :
    P.Outcomes (fun g g' => g' = g.renumber P.line)
      (ctx.action (place.right (n + leadingBlanks ((text.drop n).take m)))
        (trim ((text.drop n).take m)))
      (ctx'.action (place'.right (n + leadingBlanks ((text.drop n).take m)))
        (trim ((text.drop n).take m))) := by
  have hsplit : text.take n ++ (text.drop n).take m ++ (text.drop n).drop m = text := by
    rw [List.append_assoc, List.take_append_drop, List.take_append_drop]
  rw [← hsplit] at htext
  have htrimmed := h.lawful.trimmed htext
  rw [List.length_take, Nat.min_eq_left hn] at htrimmed
  exact h.action htrimmed

lemma Contexts.readLink (h : P.Contexts ctx ctx') {inner : List Char}
    (htext : P.text place place' inner) :
    P.Outcomes (fun s s' => s' = s.renumber P.line) (Print.readLink ctx.action place inner)
      (Print.readLink ctx'.action place' inner) := by
  unfold Print.readLink
  simp only
  split
  · exact .drop (h.lawful.fault htext rfl (by simp))
  split
  · -- a link that jumps to its label
    refine .pure ?_
    rw [Segment.renumber, Group.renumber_jump, h.lawful.line htext]
  · next hne =>
    -- the bar is there, or nothing would stand behind it
    have hlen : (inner.takeWhile (· != '|')).length + 1 ≤ inner.length := by
      by_contra hlt
      have hnil : inner.drop ((inner.takeWhile (· != '|')).length + 1) = [] :=
        List.drop_eq_nil_iff.mpr (by omega)
      simp [hnil, trim, trimStart, trimEnd, dropEndWhile] at hne
    have hpart := h.part (m := (inner.drop ((inner.takeWhile (· != '|')).length + 1)).length) htext
      hlen
    rw [List.take_length] at hpart
    refine hpart.map fun g g' hg => ?_
    rw [hg, Segment.renumber]

lemma Contexts.decode (h : P.Contexts ctx ctx') {span : Print.Span}
    (htext : P.text place place' span.source) :
    P.Outcomes (fun s s' => s' = s.renumber P.line) (span.decode ctx.policy ctx.action place)
      (span.decode ctx'.policy ctx'.action place') := by
  cases span with
  | plain text => exact .pure rfl
  | link inner =>
    have hinner : P.text place place' (['[', '['] ++ inner ++ [']', ']']) := htext
    exact h.readLink (h.lawful.part hinner)
  | substitution body =>
    simp only [Print.Span.decode, h.policy]
    split
    · next segment hsegment =>
      refine .pure ?_
      have hplain := Print.groups_of_substitution hsegment
      cases segment with
      | link label g => simp [Segment.groups] at hplain
      | literal text => rfl
      | value name => rfl
    · next code _ =>
      have hcode := h.lawful.code (String.ofList code) htext
      split
      · exact .error .nil (.aborted hcode)
      · exact .error .nil (.dropped hcode)

lemma Contexts.decodeAll (h : P.Contexts ctx ctx') (spans : List Print.Span)
    (htext : P.text place place' (spans.flatMap Print.Span.source)) :
    P.Outcomes (fun ss ss' => ss' = ss.map (Segment.renumber P.line))
      (Print.Span.decodeAll ctx.policy ctx.action place spans)
      (Print.Span.decodeAll ctx'.policy ctx'.action place' spans) := by
  induction spans generalizing place place' with
  | nil => exact .pure rfl
  | cons span spans ih =>
    rw [List.flatMap_cons] at htext
    have hspan : P.text place place' span.source := by
      have hpart : P.text place place' ([] ++ span.source ++ spans.flatMap Print.Span.source) :=
        htext
      exact h.lawful.part hpart
    have hrest : P.text (place.right span.source.length) (place'.right span.source.length)
        (spans.flatMap Print.Span.source) := by
      rw [← List.append_nil (span.source ++ _)] at htext
      exact h.lawful.part htext
    refine (h.decode hspan).bind fun segment segment' hsegment => ?_
    refine (ih hrest).map fun rest rest' hrest => ?_
    rw [hsegment, hrest, Segment.map_renumber_glue]

lemma Contexts.readPrint (h : P.Contexts ctx ctx') {text : List Char}
    (htext : P.text place place' text) :
    P.Outcomes (fun ss ss' => ss' = ss.map (Segment.renumber P.line))
      (Print.read ctx.policy ctx.action place text)
      (Print.read ctx'.policy ctx'.action place' text) := by
  refine h.decodeAll (Print.Span.ofText text) ?_
  rwa [Print.Span.flatMap_source_ofText]

/-! ### Payloads -/

lemma Contexts.readButton (h : P.Contexts ctx ctx') {payload : List Char}
    (htext : P.text place place' payload) :
    P.Outcomes (fun s s' => s' = s.renumber P.line)
      (Statement.readButton ctx.action place payload)
      (Statement.readButton ctx'.action place' payload) := by
  have hdrop {fault : Fault} (hkind : fault.kind = .syntactic)
      (hlimit : ∀ n, fault ≠ .nestingLimit n) :
      P.Outcomes (fun s s' => s' = Statement.renumber P.line s) (.drop fault place)
        (.drop fault place') := .drop (h.lawful.fault htext hkind hlimit)
  unfold Statement.readButton
  split
  · exact hdrop rfl (by simp)
  · split
    · exact hdrop rfl (by simp)
    · refine .pure ?_
      rw [Statement.renumber, Group.renumber_jump, h.lawful.line htext]
  · next ops caption rest hfields =>
    split
    · exact hdrop rfl (by simp)
    · obtain ⟨k, -, rfl⟩ := Statement.exists_take_of_split hfields
      have hpart := h.part (n := 0) (m := k) htext (Nat.zero_le _)
      rw [List.drop_zero, Nat.zero_add] at hpart
      refine hpart.map fun g g' hg => ?_
      rw [hg, Statement.renumber]

lemma Lawful.requiredName (hP : P.Lawful) (what : Essential) {cs : List Char}
    (hplace : P.text place place' cs) (text : List Char) {make : String → Statement}
    (hmake : ∀ name, make name = (make name).renumber P.line) :
    P.Outcomes (fun s s' => s' = s.renumber P.line)
      ((QuestScript.requiredName what place text).map make)
      ((QuestScript.requiredName what place' text).map make) := by
  unfold QuestScript.requiredName
  split
  · exact .error .nil (.dropped (hP.fault hplace rfl (by simp)))
  · exact .pure (hmake _)

section

variable {ts ts' : List Lexeme} {finish finish' : Lexeme}

lemma untilEnd_of_forall₂ (h : List.Forall₂ P.Lexemes ts ts')
    (hend : ∃ l ∈ ts, l.token = .mark .sourceEnd) :
    List.Forall₂ P.Lexemes (Lexeme.untilEnd ts).1 (Lexeme.untilEnd ts').1 ∧
      P.Lexemes (Lexeme.untilEnd ts).2 (Lexeme.untilEnd ts').2 := by
  have hcut : ∃ us e vs us' e' vs', ts = us ++ e :: vs ∧ ts' = us' ++ e' :: vs' ∧
      List.Forall₂ P.Lexemes us us' ∧ P.Lexemes e e' ∧ e.token = .mark .sourceEnd ∧
      (∀ l ∈ us, l.token ≠ .mark .sourceEnd) ∧ ∀ l ∈ us', l.token ≠ .mark .sourceEnd := by
    induction h with
    | nil => simp at hend
    | @cons l l' rest rest' hl _ ih =>
      by_cases hmark : l.token = .mark .sourceEnd
      · exact ⟨[], l, rest, [], l', rest', rfl, rfl, .nil, hl, hmark, by simp, by simp⟩
      · obtain ⟨us, e, vs, us', e', vs', rfl, rfl, hus, he, hlast, hfree, hfree'⟩ :=
          ih (by simpa [hmark] using hend)
        refine ⟨l :: us, e, vs, l' :: us', e', vs', rfl, rfl, .cons hl hus, he, hlast, ?_, ?_⟩
        · simpa [hmark] using hfree
        · simpa [hl.token, hmark] using hfree'
  obtain ⟨us, e, vs, us', e', vs', rfl, rfl, hus, he, hlast, hfree, hfree'⟩ := hcut
  rw [Lexeme.untilEnd_append vs hfree hlast,
    Lexeme.untilEnd_append vs' hfree' (he.token.trans hlast)]
  exact ⟨hus, he⟩

end

lemma Lawful.readQuantity (hP : P.Lawful) {text : List Char} (htext : P.text place place' text) :
    P.Outcomes Eq (InventoryChange.readQuantity place text)
      (InventoryChange.readQuantity place' text) := by
  have hreports := hP.reports htext
  obtain ⟨hts, hfinish⟩ :=
    untilEnd_of_forall₂ (hP.lexemes htext) (Scan.exists_sourceEnd .fresh place text)
  obtain ⟨hsame, hbehind⟩ :=
    NumberExpr.readings_read (abreast_of_forall₂ hts hfinish)
  unfold InventoryChange.readQuantity
  simp only [hsame]
  split
  · exact .error hreports (.dropped (hP.missing hbehind _))
  · have hempty : ((Lexeme.untilEnd (Scan.read .fresh place' text).lexemes).1.drop
        (NumberExpr.read (Lexeme.untilEnd (Scan.read .fresh place text).lexemes).1).taken).isEmpty =
        ((Lexeme.untilEnd (Scan.read .fresh place text).lexemes).1.drop
        (NumberExpr.read
          (Lexeme.untilEnd (Scan.read .fresh place text).lexemes).1).taken).isEmpty := by
      rcases hbehind.cases_on with ⟨hnil, hnil'⟩ | ⟨l, l', rest, rest', hcons, hcons', -⟩
      · rw [hnil, hnil']
      · rw [hcons, hcons']
        rfl
    rw [hempty]
    split
    · exact .ok hreports rfl
    · exact .error hreports (.dropped (hP.missing hbehind _))

lemma Lawful.readInventory (hP : P.Lawful) (remove : Bool) {payload : List Char}
    (htext : P.text place place' payload) :
    P.Outcomes Eq (InventoryChange.read remove place payload)
      (InventoryChange.read remove place' payload) := by
  have hitem {p p' : Position} {cs : List Char} (hp : P.text p p' cs) (item : List Char)
      (quantity : NumberExpr) :
      P.Outcomes Eq (InventoryChange.ofItem remove p item quantity)
        (InventoryChange.ofItem remove p' item quantity) := by
    unfold InventoryChange.ofItem
    split
    · exact .drop (hP.fault hp rfl (by simp))
    · exact .pure rfl
  unfold InventoryChange.read
  split
  · next quantity item hfields =>
    obtain ⟨k, hk, rfl, rfl⟩ := Fields.exists_of_split_one hfields
    have hquantity : P.text place place' ([] ++ payload.take k ++ payload.drop k) := by
      simpa using htext
    have hbehind : P.text place place' (payload.take (k + 1) ++ payload.drop (k + 1) ++ []) := by
      simpa using htext
    have htrimmed := hP.trimmed hquantity
    have hright := hP.part hbehind
    have hlen : (payload.take (k + 1)).length = (payload.take k).length + 1 := by
      simp only [List.length_take]
      omega
    rw [List.length_nil, Nat.zero_add] at htrimmed
    rw [hlen] at hright
    refine (hP.readQuantity htrimmed).bind fun quantity quantity' heq => ?_
    rw [← heq]
    exact hitem hright _ quantity
  · exact hitem htext _ _

/-- Payloads are read in step. -/
theorem Contexts.readPayload (h : P.Contexts ctx ctx') {l l' : Lexeme} (hl : P.Lexemes l l')
    (carrier : Carrier) {text : List Char} (htext : P.text l.payloadStart l'.payloadStart text) :
    P.Outcomes (fun s s' => s' = s.renumber P.line) (Statement.readPayload ctx l carrier text)
      (Statement.readPayload ctx' l' carrier text) := by
  have hinventory (change change' : InventoryChange) (heq : change = change') :
      Statement.inventory change' = (Statement.inventory change).renumber P.line := heq ▸ rfl
  cases carrier with
  | print newline =>
    refine (h.readPrint htext).map fun segments segments' hsegments => ?_
    rw [hsegments, Statement.renumber, renumberSegments_eq]
  | button => exact h.readButton htext
  | goto => exact h.lawful.requiredName _ hl.start text fun _ => rfl
  | call => exact h.lawful.requiredName _ hl.start text fun _ => rfl
  | label => exact h.lawful.requiredName _ hl.start text fun _ => rfl
  | media kind => exact h.lawful.requiredName _ hl.start _ fun _ => rfl
  | inventoryAdd => exact (h.lawful.readInventory false htext).map hinventory
  | inventoryRemove => exact (h.lawful.readInventory true htext).map hinventory
  | save => exact .pure rfl
  | inventoryClear => exact .pure rfl

/-! ### Statements -/

section

variable {l l' : Lexeme} {rest rest' ts ts' : List Lexeme}

lemma Lawful.refusal (hP : P.Lawful) (h : P.Abreast ctx.finish ctx'.finish ts ts')
    (wanted : Wanted) : P.Refusals (ctx.missing wanted ts) (ctx'.missing wanted ts') :=
  .dropped (hP.missing h wanted)

lemma Lawful.lift (hP : P.Lawful) {r r' : Reading α}
    (h : P.Readings ctx.finish ctx'.finish ts ts' r r') :
    P.Parses ctx.finish ctx'.finish ts ts' Eq (ctx.lift ts r) (ctx'.lift ts' r') := by
  obtain ⟨rfl, hrest⟩ := h
  unfold Context.lift
  split
  · exact ⟨.pure rfl, rfl, hrest⟩
  · exact ⟨.error .nil (hP.refusal hrest _), rfl, hrest⟩

lemma Parses.plain {finish finish' : Lexeme} {x y : Parsed Refusal α} {make : α → Statement}
    (h : P.Parses finish finish' ts ts' Eq x y)
    (hmake : ∀ a, make a = (make a).renumber P.line) :
    P.Parses finish finish' ts ts' (fun s s' => s' = s.renumber P.line) (x.map make) (y.map make) :=
  h.map fun a b heq => by rw [← heq, ← hmake]

lemma startsWith_of_abreast {finish finish' : Lexeme} (h : P.Abreast finish finish' ts ts')
    (m : Mark) : Statement.startsWith m ts' = Statement.startsWith m ts := by
  rcases h.cases_on with ⟨rfl, rfl⟩ | ⟨l, l', rest, rest', rfl, rfl, hl⟩
  · rfl
  · simp [Statement.startsWith, hl.token]

lemma continues_of_abreast {finish finish' : Lexeme} (h : P.Abreast finish finish' ts ts') :
    Statement.continues ts' = Statement.continues ts := by
  rcases h.cases_on with ⟨rfl, rfl⟩ | ⟨l, l', rest, rest', rfl, rfl, hl⟩
  · rfl
  by_cases hamp : l.token = .mark .ampersand
  · have hrest := h.tail (by simp [hamp])
    have hempty : rest'.isEmpty = rest.isEmpty := by
      rcases hrest.cases_on with ⟨rfl, rfl⟩ | ⟨_, _, _, _, rfl, rfl, -⟩ <;> rfl
    simp only [Statement.continues, startsWith_of_abreast h, List.tail_cons, hempty,
      startsWith_of_abreast hrest]
  · simp [Statement.continues, Statement.startsWith, hl.token, hamp]

lemma Lawful.readAssignment (hP : P.Lawful) (hfinish : ctx.finish.token = .mark .sourceEnd)
    (name : String) (h : P.Abreast ctx.finish ctx'.finish ts ts') :
    P.Parses ctx.finish ctx'.finish ts ts' (fun s s' => s' = s.renumber P.line)
      (Statement.readAssignment ctx name ts) (Statement.readAssignment ctx' name ts') := by
  have hmet := h.headD
  unfold Statement.readAssignment
  simp only [hmet.token]
  split
  · next heq =>
    rcases h.cases_on with ⟨rfl, rfl⟩ | ⟨l, l', rest, rest', rfl, rfl, hl⟩
    · simp [hfinish] at heq
    have hrest := h.tail (by
      intro hbreak
      simp [hbreak] at heq)
    exact Parses.after ((hP.lift (Expr.readings_read hrest)).plain fun _ => rfl)
  · exact .of_outcomes h (.drop (hP.fault hmet.start rfl (by simp)))

lemma readVariable_of_abreast {finish finish' : Lexeme} {make : Option String → Statement}
    (hmake : ∀ name, make name = (make name).renumber P.line)
    (h : P.Abreast finish finish' ts ts') :
    P.Parses finish finish' ts ts' (fun s s' => s' = s.renumber P.line)
      (Statement.readVariable make ts) (Statement.readVariable make ts') := by
  rcases h.cases_on with ⟨rfl, rfl⟩ | ⟨l, l', rest, rest', rfl, rfl, hl⟩
  · exact .of_outcomes h (.pure (hmake _))
  simp only [Statement.readVariable, hl.token]
  split
  · next hname => exact ⟨.pure (hmake _), rfl, h.tail (by simp [hname])⟩
  · exact .of_outcomes h (.pure (hmake _))

variable (h : P.Contexts ctx ctx') (hfinish : ctx.finish.token = .mark .sourceEnd)

include h

lemma Contexts.takeThen (hts : P.Abreast ctx.finish ctx'.finish ts ts') :
    P.Parses ctx.finish ctx'.finish ts ts' (fun _ _ => True) (Statement.takeThen ctx ts)
      (Statement.takeThen ctx' ts') := by
  unfold Statement.takeThen
  rw [startsWith_of_abreast hts]
  split
  · next hthen =>
    rcases hts.cases_on with ⟨rfl, rfl⟩ | ⟨l, l', rest, rest', rfl, rfl, -⟩
    · simp [Statement.startsWith] at hthen
    · exact ⟨.pure trivial, rfl, hts.tail (Statement.ne_lineBreak_of_startsWith hthen (by simp))⟩
  · exact .of_outcomes hts (.error .nil (h.lawful.refusal hts _))

include hfinish

lemma Contexts.readSimple (hts : P.Abreast ctx.finish ctx'.finish (l :: rest) (l' :: rest')) :
    P.Parses ctx.finish ctx'.finish (l :: rest) (l' :: rest')
      (fun s s' => s' = s.renumber P.line) (Statement.readSimple ctx l rest)
      (Statement.readSimple ctx' l' rest') := by
  have hl := hts.head
  -- one keyword is taken, which is no line break
  have hword {s : Statement} (hs : s = s.renumber P.line) (hbreak : l.token ≠ .mark .lineBreak) :
      P.Parses ctx.finish ctx'.finish (l :: rest) (l' :: rest')
        (fun s s' => s' = s.renumber P.line) ⟨.pure s, 1⟩ ⟨.pure s, 1⟩ :=
    ⟨.pure hs, rfl, hts.tail hbreak⟩
  simp only [Statement.readSimple, hl.token]
  split
  · next hname =>
    exact Parses.after (h.lawful.readAssignment hfinish _ (hts.tail (by simp [hname])))
  · next hpayload =>
    exact ⟨h.readPayload hl _ (hl.payload hpayload), rfl, hts.tail (by simp [hpayload])⟩
  · next hmark => exact hword rfl (by simp [hmark])
  · next hmark => exact hword rfl (by simp [hmark])
  · next hmark => exact hword rfl (by simp [hmark])
  · next hmark => exact hword rfl (by simp [hmark])
  · next hmark =>
    exact Parses.after (readVariable_of_abreast (fun _ => rfl) (hts.tail (by simp [hmark])))
  · next hmark =>
    exact Parses.after (readVariable_of_abreast (fun _ => rfl) (hts.tail (by simp [hmark])))
  · next hmark =>
    have hrest := NumberExpr.readings_read (hts.tail (by simp [hmark]))
    exact Parses.after ((h.lawful.lift hrest).plain fun _ => rfl)
  · exact .of_outcomes hts (.error .nil (h.lawful.refusal hts _))

omit h hfinish in
/-- Chains of statements are read in step from the list. -/
def Chains (P : Parallel) (ctx ctx' : Context) (ts : List Lexeme) : Prop :=
  ∀ ts', P.Abreast ctx.finish ctx'.finish ts ts' →
    P.Parses ctx.finish ctx'.finish ts ts' (fun ss ss' => ss' = ss.map (Statement.renumber P.line))
      (Statement.readChain ctx ts) (Statement.readChain ctx' ts')

omit h hfinish in
lemma readGroup_of_abreast {line line' : Nat} (hline : line' = P.line line)
    (hchain : Chains P ctx ctx' ts) (hts : P.Abreast ctx.finish ctx'.finish ts ts') :
    P.Parses ctx.finish ctx'.finish ts ts' (fun g g' => g' = g.renumber P.line)
      (Statement.readGroup ctx line ts) (Statement.readGroup ctx' line' ts') := by
  rw [Statement.readGroup, Statement.readGroup]
  refine (hchain ts' hts).map fun statements statements' heq => ?_
  rw [heq, hline, Group.renumber_mk]

omit hfinish in
lemma Contexts.readConditional {line line' : Nat} (hline : line' = P.line line)
    (hchain : ∀ n, Chains P ctx ctx' (ts.drop n))
    (hts : P.Abreast ctx.finish ctx'.finish ts ts') :
    P.Parses ctx.finish ctx'.finish ts ts' (fun s s' => s' = s.renumber P.line)
      (Statement.readConditional ctx line ts) (Statement.readConditional ctx' line' ts') := by
  rw [Statement.readConditional, Statement.readConditional]
  refine (h.lawful.lift (BoolExpr.readings_read hts)).bind fun condition _ _ heq hts => ?_
  subst heq
  generalize (ctx.lift ts (BoolExpr.read ts)).taken = k at hts ⊢
  refine (h.takeThen hts).bind fun _ _ hthen _ hts => ?_
  rw [(Statement.taken_of_takeThen hthen).2, List.drop_drop, List.drop_drop] at hts ⊢
  refine (readGroup_of_abreast hline (hchain _) hts).bind fun g g' _ hg hts => ?_
  generalize (Statement.readGroup ctx line (ts.drop (k + 1))).taken = n at hts ⊢
  rw [List.drop_drop, List.drop_drop] at hts ⊢
  rw [startsWith_of_abreast hts]
  split
  · -- a second branch stands behind the word `else`
    next helse =>
    rcases hts.cases_on with ⟨hnil, -⟩ | ⟨l, l', rest, rest', hcons, hcons', -⟩
    · simp [hnil, Statement.startsWith] at helse
    refine Parses.after ?_
    have hrest : P.Abreast ctx.finish ctx'.finish ((ts.drop (k + 1 + n)).drop 1)
        ((ts'.drop (k + 1 + n)).drop 1) := by
      rw [hcons, hcons'] at hts
      rw [hcons] at helse
      rw [hcons, hcons']
      exact hts.tail (Statement.ne_lineBreak_of_startsWith helse (by simp))
    rw [List.drop_drop, List.drop_drop] at hrest ⊢
    refine (readGroup_of_abreast hline (hchain _) hrest).map fun e e' he => ?_
    rw [hg, he, Statement.renumber, renumberBranch_eq, Option.map_some]
  · refine .of_outcomes hts (.pure ?_)
    rw [hg, Statement.renumber, renumberBranch_eq, Option.map_none]

lemma Contexts.read (hchain : ∀ us : List Lexeme, us.length < ts.length → Chains P ctx ctx' us)
    (hts : P.Abreast ctx.finish ctx'.finish ts ts') :
    P.Parses ctx.finish ctx'.finish ts ts' (fun s s' => s' = s.renumber P.line)
      (Statement.read ctx ts) (Statement.read ctx' ts') := by
  rcases hts.cases_on with ⟨rfl, rfl⟩ | ⟨l, l', rest, rest', rfl, rfl, hl⟩
  · rw [Statement.read, Statement.read]
    exact .of_outcomes hts (.error .nil (h.lawful.refusal hts _))
  rw [Statement.read, Statement.read, hl.token]
  split
  · next hif =>
    have hrest := hts.tail (by simp [hif])
    refine Parses.after (h.readConditional (h.lawful.line hl.start) (fun n => hchain _ ?_) hrest)
    simp only [List.length_drop, List.length_cons]
    omega
  · exact h.readSimple hfinish hts

lemma Contexts.readChain (hchain : ∀ us : List Lexeme, us.length < ts.length →
    Chains P ctx ctx' us) : Chains P ctx ctx' ts := by
  intro ts' hts
  rw [Statement.readChain, Statement.readChain]
  refine (h.read hfinish hchain hts).bind fun s s' _ hs hmore => ?_
  generalize (Statement.read ctx ts).taken = k at hmore ⊢
  rcases hts.cases_on with ⟨rfl, rfl⟩ | ⟨l, l', rest, rest', rfl, rfl, -⟩
  · exact .of_outcomes hmore (.pure (by simp [hs]))
  simp only
  rw [continues_of_abreast hmore]
  split
  · next hcontinues =>
    have hamp := Group.startsWith_of_continues hcontinues
    -- both lists go on behind the ampersand
    have hrest : P.Abreast ctx.finish ctx'.finish (rest.drop k) (rest'.drop k) := by
      rcases hmore.cases_on with ⟨hnil, -⟩ | ⟨o, o', tail, tail', hcons, hcons', -⟩
      · simp [hnil, Statement.startsWith] at hamp
      have htail := congrArg (List.drop 1) hcons
      have htail' := congrArg (List.drop 1) hcons'
      rw [List.drop_drop, List.drop_succ_cons, List.drop_one, List.tail_cons] at htail htail'
      rw [hcons, hcons'] at hmore
      rw [hcons] at hamp
      rw [htail, htail']
      exact hmore.tail (Statement.ne_lineBreak_of_startsWith hamp (by simp))
    have hlen : (rest.drop k).length < (l :: rest).length := by
      simp only [List.length_drop, List.length_cons]
      omega
    refine Parses.after ?_
    rw [List.drop_drop, List.drop_drop, List.drop_succ_cons, List.drop_succ_cons]
    refine (hchain _ hlen _ hrest).map fun tail tail' htail => ?_
    rw [hs, htail, List.map_cons]
  · exact .of_outcomes hmore (.pure (by simp [hs]))

/-- **Statements are read in step** by contexts whose actions are. -/
theorem Contexts.statements (hts : P.Abreast ctx.finish ctx'.finish ts ts') :
    P.Parses ctx.finish ctx'.finish ts ts' (fun s s' => s' = s.renumber P.line)
      (Statement.read ctx ts) (Statement.read ctx' ts') := by
  have hchains : ∀ us, Chains P ctx ctx' us := by
    intro us
    induction hn : us.length using Nat.strongRecOn generalizing us with
    | ind n ih => exact h.readChain hfinish fun vs hvs => ih vs.length (hn ▸ hvs) vs rfl
  exact h.read hfinish (fun us _ => hchains us) hts

end

end Parallel

end QuestScript
