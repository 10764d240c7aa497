import QuestScript.Proofs.Program.Composition
import QuestScript.Proofs.Program.Grammar
import QuestScript.Proofs.Token.Shape

/-!
The labels of a program.

A label is the first token of its line, so it is read before all else on that line and nothing that
is wrong behind it can hide it. The labels of the groups are those among the tokens, in order, and
each group with a label begins with it. So a search that looks at the front of each group finds all
labels there are.
-/

namespace QuestScript

/-! ### Labels of programs and of lexemes -/

/-- The name that the statement marks, if it is a label. -/
def Statement.labelName? : Statement → Option String
  | label name => some name
  | _ => none

namespace Group

/-- The labels of the group, with its line. -/
def labels (g : Group) : List (String × Nat) :=
  (g.statements.filterMap Statement.labelName?).map (·, g.line)

/-- A label of the group has nothing in front of it. -/
def BeginsWithLabels (g : Group) : Prop :=
  ∀ front name back, g.statements = front ++ .label name :: back → front = []

end Group

/-- The labels of all lines, in order, with the numbers of their lines. -/
def Program.labels (p : Program) : List (String × Nat) := p.groups.flatMap Group.labels

namespace Lexeme

/-- The name that the lexeme marks, if it is a label and its name is not blank. -/
def labelName? (l : Lexeme) : Option String :=
  match l.token with
  | .payload .label text => optionalName text.toList
  | _ => none

/-- The label that the lexeme is, with its line. -/
def label? (l : Lexeme) : Option (String × Nat) := l.labelName?.map (·, l.start.line)

end Lexeme

variable {ctx : Context} {ts rest : List Lexeme} {l : Lexeme} {rs : List Report} {k : Nat}
  {name : String}

lemma Lexeme.labelName?_of_label {text : String} (h : l.token = .payload .label text) :
    l.labelName? = optionalName text.toList := by
  unfold labelName?
  rw [h]

lemma Lexeme.labelName?_eq_none (h : ∀ text, l.token ≠ .payload .label text) :
    l.labelName? = none := by
  unfold labelName?
  split
  · next text htoken => exact absurd htoken (h text)
  · rfl

lemma Lexeme.exists_of_labelName? (h : l.labelName? = some name) :
    ∃ text, l.token = .payload .label text := by
  by_contra hnone
  rw [labelName?_eq_none (not_exists.mp hnone)] at h
  cases h

lemma Statement.labelName?_eq_some {s : Statement} : s.labelName? = some name ↔ s = label name := by
  cases s <;> simp [labelName?]

/-! ### Statements -/

namespace Statement

lemma filterMap_labelName? (name? : Option String) {later : List Statement}
    (hlater : ∀ name, label name ∉ later) :
    (name?.toList.map label ++ later).filterMap labelName? = name?.toList := by
  have hnone : later.filterMap labelName? = [] := by
    refine List.filterMap_eq_nil_iff.mpr fun s hs => Option.eq_none_iff_forall_ne_some.mpr ?_
    exact fun name hname => hlater name (labelName?_eq_some.mp hname ▸ hs)
  rw [List.filterMap_append, hnone, List.append_nil]
  rcases name? with _ | name <;> rfl

lemma eq_nil_of_append_label {name? : Option String} {later front back : List Statement}
    (hlater : ∀ name, label name ∉ later)
    (h : name?.toList.map label ++ later = front ++ label name :: back) : front = [] := by
  rcases front with _ | ⟨s, front⟩
  · rfl
  · have hmem : label name ∈ later := by
      rcases name? with _ | first
      · obtain rfl : later = s :: (front ++ label name :: back) := h
        simp
      · obtain ⟨-, rfl⟩ := List.cons.inj h
        simp
    exact absurd hmem (hlater name)

lemma result_requiredName (what : Essential) (place : Position) (text : List Char) :
    requiredName what place text =
      (optionalName text).elim (.drop (.blankName what) place) .pure := by
  unfold requiredName optionalName
  split <;> rfl

lemma labelName?_of_read (h : read ctx (l :: rest) = ⟨⟨rs, .ok (label name)⟩, k⟩) :
    l.labelName? = some name := by
  rw [read] at h
  split at h
  · obtain ⟨i, hconditional, -⟩ := Parsed.after_eq_ok.mp h
    obtain ⟨_, _, _, _, _, -, -, -, ⟨heq, -⟩ | ⟨_, _, _, -, -, heq, -⟩⟩ :=
      readConditional_eq_ok hconditional <;> cases heq
  · rcases readSimple_eq_ok h with ⟨_, _, _, heq, -⟩ | ⟨carrier, text, hl, hpayload⟩ | hbrief
    · cases heq
    · have hmakes := Carrier.makes_of_readPayload hpayload
      cases carrier <;> try exact hmakes.elim
      obtain ⟨found, hname, hfound⟩ := Outcome.map_eq_ok.mp hpayload
      obtain rfl := Statement.label.inj hfound
      rw [result_requiredName] at hname
      rw [Lexeme.labelName?_of_label hl]
      rcases hoptional : optionalName text.toList with _ | other
      · simp [hoptional] at hname
      · obtain ⟨-, rfl⟩ : rs = [] ∧ other = found := by simpa [hoptional] using hname
        rfl
    · exact hbrief.elim

lemma read_label {text : String} (rest : List Lexeme) (h : l.token = .payload .label text) :
    read ctx (l :: rest) =
      ⟨l.labelName?.elim (Outcome.drop (.blankName .labelName) l.start) (.pure <| .label ·),
        1⟩ := by
  rw [read_payload rest h, Lexeme.labelName?_of_label h, readPayload, result_requiredName]
  rcases optionalName text.toList with _ | name <;> rfl

end Statement

/-! ### Lines -/

namespace Group

lemma label_notMem_of_readLine {statements : List Statement} (hts : ∀ l ∈ ts, l.labelName? = none)
    (h : (readLine ctx ts).outcome = ⟨rs, .ok statements⟩) : .label name ∉ statements := by
  intro hmem
  obtain ⟨j, made, i, hread, -⟩ := exists_of_mem_readLine h hmem
  rcases hdrop : ts.drop j with _ | ⟨l, rest⟩
  · simp [hdrop, Statement.read, Outcome.fail] at hread
  · rw [hdrop] at hread
    have hl : l ∈ ts := List.mem_of_mem_drop (hdrop ▸ List.mem_cons_self)
    exact Option.some_ne_none _ ((Statement.labelName?_of_read hread).symm.trans (hts l hl))

/-- The label that a line begins with is the first of its statements, and the only one that is a
label. -/
theorem labels_of_readLine {statements : List Statement}
    (hrest : ∀ o ∈ rest, o.labelName? = none)
    (h : (readLine ctx (l :: rest)).outcome = ⟨rs, .ok statements⟩) :
    ∃ later, statements = l.labelName?.toList.map .label ++ later ∧
      ∀ name, .label name ∉ later := by
  -- Where the line begins with something else, no label is among the lexemes of the line.
  by_cases hl : ∃ text, l.token = .payload .label text
  swap
  · have hnone := Lexeme.labelName?_eq_none (not_exists.mp hl)
    refine ⟨statements, by rw [hnone]; rfl, fun name => ?_⟩
    exact label_notMem_of_readLine (List.forall_mem_cons.mpr ⟨hnone, hrest⟩) h
  obtain ⟨text, hl⟩ := hl
  have hif : l.token ≠ .mark .ifWord := by simp [hl]
  have hlater {more : List Report} {later : List Statement}
      (h : (readRest ctx rest).outcome = ⟨more, .ok later⟩) (name : String) :
      .label name ∉ later := by
    rw [readRest] at h
    rcases restBy_cases (readLine ctx) rest with hnone | ⟨n, -, hline⟩
    · obtain ⟨-, rfl⟩ : more = [] ∧ [] = later := by simpa [hnone] using h
      exact List.not_mem_nil
    · exact label_notMem_of_readLine (fun o ho => hrest o (List.mem_of_mem_drop ho)) (hline ▸ h)
  have hread : Statement.read ctx (l :: rest) = _ := Statement.read_label rest hl
  rcases hname : l.labelName? with _ | name
  · -- the name is blank, and the label is left out
    rw [hname] at hread
    rw [readLine_of_dropped hif hread] at h
    rcases hmore : (readRest ctx rest).outcome with ⟨more, result⟩
    obtain ⟨-, rfl⟩ : _ ∧ result = .ok statements := by simpa [hmore, Outcome.after] using h
    exact ⟨statements, rfl, hlater hmore⟩
  · -- the label is the first statement
    rw [hname] at hread
    rw [readLine_of_ok hread] at h
    rcases hmore : (readRest ctx rest).outcome with ⟨more, cause | later⟩
    · simp [hmore, Outcome.map, Outcome.after, Except.map] at h
    · obtain ⟨-, rfl⟩ : _ ∧ .label name :: later = statements := by
        simpa [hmore, Outcome.map, Outcome.after, Except.map] using h
      exact ⟨later, rfl, hlater hmore⟩

lemma outcome_readLine_take (hfinish : ctx.finish.token = .mark .sourceEnd) (ts : List Lexeme) :
    (readLine ctx (ts.take (Lexeme.lineLength ts + 1))).outcome = (readLine ctx ts).outcome := by
  -- the line goes to the end of the list
  rcases hdrop : ts.drop (Lexeme.lineLength ts) with _ | ⟨o, more⟩
  · have hall : ts.length ≤ Lexeme.lineLength ts := List.drop_eq_nil_iff.mp hdrop
    rw [List.take_of_length_le (by omega)]
  · -- the line ends at a line break, which is taken along
    have ho : o.token = .mark .lineBreak := by
      simpa using Lexeme.not_of_mem_head?_dropWhile (p := fun l => l.token != .mark .lineBreak)
        (show o ∈ (ts.drop (Lexeme.lineLength ts)).head? by rw [hdrop]; rfl)
    have htake : ts.take (Lexeme.lineLength ts + 1) = ts.take (Lexeme.lineLength ts) ++ [o] := by
      rw [List.take_add, hdrop]
      rfl
    have hended : Lexeme.IsEnded (ts.take (Lexeme.lineLength ts + 1)) := fun m hm => by
      rw [htake] at hm
      obtain rfl : o = m := by simpa using hm
      exact ho
    have happend :
        (readLine ctx (ts.take (Lexeme.lineLength ts + 1) ++
          ts.drop (Lexeme.lineLength ts + 1))).outcome =
          (readLine ctx (ts.take (Lexeme.lineLength ts + 1))).outcome :=
      outcome_readLine_append hfinish hended (by simp [htake]) _
    rw [List.take_append_drop] at happend
    exact happend.symm

end Group

lemma Lexeme.Shaped.drop {lineStart : Bool} (h : Shaped lineStart ts) (n : Nat) :
    ∃ behind, Shaped behind (ts.drop n) := by
  induction n generalizing lineStart ts with
  | zero => exact ⟨lineStart, h⟩
  | succ n ih =>
    rcases ts with _ | ⟨l, rest⟩
    · exact ⟨lineStart, h⟩
    · exact ih h.2

lemma Lexeme.Shaped.forall_line (h : Shaped false ts) :
    ∀ l ∈ ts.take (lineLength ts + 1), l.labelName? = none := by
  induction ts with
  | nil => simp
  | cons l rest ih =>
    have hl : l.labelName? = none :=
      labelName?_eq_none fun _ htoken => Bool.noConfusion (h.1.label htoken)
    intro o ho
    rw [List.take_succ_cons] at ho
    rcases List.mem_cons.mp ho with rfl | ho
    · exact hl
    by_cases hbreak : l.token = .mark .lineBreak
    · rw [lineLength_eq_zero (by simpa using hbreak)] at ho
      exact absurd ho List.not_mem_nil
    · have hrest := h.2
      rw [decide_eq_false hbreak] at hrest
      rw [lineLength_cons hbreak] at ho
      exact ih hrest o ho

/-! ### Programs -/

namespace Program

variable {groups : List Group} {p : Program}

/-- Groups are read line by line. -/
theorem readGroups_induction {motive : List Lexeme → List Group → Prop}
    (hfinish : ctx.finish.token = .mark .sourceEnd) (nil : motive [] [])
    (lineBreak : ∀ l rest groups, l.token = .mark .lineBreak → motive rest groups →
      motive (l :: rest) groups)
    (line : ∀ l rest made statements groups, l.token ≠ .mark .lineBreak →
      (Group.readLine ctx (l :: rest)).outcome = ⟨made, .ok statements⟩ →
      motive ((l :: rest).drop (Lexeme.lineLength (l :: rest))) groups →
      motive (l :: rest) (groupOfLine l.start.line statements ++ groups))
    (h : (readGroups ctx ts).outcome = ⟨rs, .ok groups⟩) : motive ts groups := by
  induction hn : ts.length using Nat.strongRecOn generalizing ts rs groups with
  | ind n ih =>
  rcases ts with _ | ⟨l, rest⟩
  · obtain ⟨-, rfl⟩ : rs = [] ∧ [] = groups := by
      simpa [readGroups, Parsed.pure] using h
    exact nil
  by_cases hl : l.token = .mark .lineBreak
  · rw [outcome_readGroups_of_lineBreak ctx hl] at h
    exact lineBreak l rest groups hl (ih rest.length (by simp [← hn]) h rfl)
  · rw [outcome_readGroups_cons hfinish hl] at h
    obtain ⟨statements, made, more, hline, hmap, -⟩ := Outcome.bind_eq_ok.mp h
    obtain ⟨later, hlater, rfl⟩ := Outcome.map_eq_ok.mp hmap
    refine line l rest made statements later hl hline (ih _ ?_ hlater rfl)
    rw [← hn, List.length_drop, Lexeme.lineLength_cons hl, List.length_cons]
    omega

lemma eq_of_mem_groupOfLine {g : Group} {line : Nat} {statements : List Statement}
    (h : g ∈ groupOfLine line statements) : g = ⟨statements, line⟩ := by
  unfold groupOfLine at h
  split at h
  · simp at h
  · exact List.mem_singleton.mp h

lemma labels_groupOfLine (line : Nat) (statements : List Statement) :
    (groupOfLine line statements).flatMap Group.labels =
      (statements.filterMap Statement.labelName?).map (·, line) := by
  unfold groupOfLine
  split
  · next hnil =>
    rw [List.isEmpty_iff.mp hnil]
    rfl
  · exact List.append_nil _

/-- **Labels are found.** The labels of the groups are those among the lexemes, in order, and each
group with a label begins with it. -/
theorem labels_of_readGroups (hfinish : ctx.finish.token = .mark .sourceEnd) {lineStart : Bool}
    (hts : Lexeme.Shaped lineStart ts) (h : (readGroups ctx ts).outcome = ⟨rs, .ok groups⟩) :
    groups.flatMap Group.labels = ts.filterMap Lexeme.label? ∧
      ∀ g ∈ groups, g.BeginsWithLabels := by
  revert lineStart
  refine readGroups_induction (motive := fun ts groups => ∀ {lineStart : Bool},
    Lexeme.Shaped lineStart ts → groups.flatMap Group.labels = ts.filterMap Lexeme.label? ∧
      ∀ g ∈ groups, g.BeginsWithLabels) hfinish ?nil ?lineBreak ?line h
  case nil => exact fun _ => ⟨rfl, by simp⟩
  case lineBreak =>
    intro l rest groups hl ih lineStart hts
    have hnone : l.label? = none := by
      rw [Lexeme.label?, Lexeme.labelName?_eq_none (by simp [hl]), Option.map_none]
    rw [List.filterMap_cons_none hnone]
    exact ih hts.2
  case line =>
    intro l rest made statements groups hl hline ih lineStart hts
    have hrest : Lexeme.Shaped false rest := by
      have := hts.2
      rwa [decide_eq_false hl] at this
    have hnone := hrest.forall_line
    rw [← Group.outcome_readLine_take hfinish, Lexeme.lineLength_cons hl,
      List.take_succ_cons] at hline
    obtain ⟨later, rfl, hlater⟩ := Group.labels_of_readLine hnone hline
    rw [Lexeme.lineLength_cons hl, List.drop_succ_cons] at ih
    obtain ⟨behind, hbehind⟩ := hrest.drop (Lexeme.lineLength rest)
    obtain ⟨hlabels, hbegin⟩ := ih hbehind
    refine ⟨?_, List.forall_mem_append.mpr ⟨?_, hbegin⟩⟩
    · have hfront : (rest.take (Lexeme.lineLength rest)).filterMap Lexeme.label? = [] := by
        refine List.filterMap_eq_nil_iff.mpr fun o ho => ?_
        rw [Lexeme.label?, hnone o (List.take_subset_take_left rest (Nat.le_succ _) ho),
          Option.map_none]
      calc (groupOfLine l.start.line (l.labelName?.toList.map .label ++ later) ++ groups).flatMap
            Group.labels
          = l.label?.toList ++ (rest.drop (Lexeme.lineLength rest)).filterMap Lexeme.label? := by
            rw [List.flatMap_append, labels_groupOfLine, Statement.filterMap_labelName? _ hlater,
              hlabels, Lexeme.label?, Option.toList_map]
        _ = l.label?.toList ++ rest.filterMap Lexeme.label? := by
            conv_rhs => rw [← List.take_append_drop (Lexeme.lineLength rest) rest,
              List.filterMap_append, hfront, List.nil_append]
        _ = (l :: rest).filterMap Lexeme.label? := by
            rcases hl : l.label? with _ | entry <;> simp [hl]
    · intro g hg front name back heq
      rw [eq_of_mem_groupOfLine hg] at heq
      exact Statement.eq_nil_of_append_label hlater heq

/-- **Lines are in order.** Each group stands on the line of a lexeme that is no line break, on a
later line than the groups before it. -/
theorem pairwise_line_of_readGroups (hfinish : ctx.finish.token = .mark .sourceEnd)
    (hts : ts.Pairwise fun l m => l.start < m.start)
    (hlines : ts.Pairwise fun l m => l.token = .mark .lineBreak → l.start.line < m.start.line)
    (h : (readGroups ctx ts).outcome = ⟨rs, .ok groups⟩) :
    groups.Pairwise (fun g g' => g.line < g'.line) ∧
      ∀ g ∈ groups, ∃ l ∈ ts, l.token ≠ .mark .lineBreak ∧ g.line = l.start.line := by
  revert hts hlines
  refine readGroups_induction (motive := fun ts groups =>
    (ts.Pairwise fun l m => l.start < m.start) →
    (ts.Pairwise fun l m => l.token = .mark .lineBreak → l.start.line < m.start.line) →
      groups.Pairwise (fun g g' => g.line < g'.line) ∧
        ∀ g ∈ groups, ∃ l ∈ ts, l.token ≠ .mark .lineBreak ∧ g.line = l.start.line)
    hfinish ?nil ?lineBreak ?line h
  case nil => exact fun _ _ => ⟨.nil, by simp⟩
  case lineBreak =>
    intro l rest groups _ ih hts hlines
    obtain ⟨hpairwise, hmem⟩ := ih hts.tail hlines.tail
    refine ⟨hpairwise, fun g hg => ?_⟩
    obtain ⟨m, hm, hline⟩ := hmem g hg
    exact ⟨m, List.mem_cons_of_mem l hm, hline⟩
  case line =>
    intro l rest made statements groups hl _ ih hts hlines
    rw [Lexeme.lineLength_cons hl, List.drop_succ_cons] at ih
    have hsuffix : (rest.drop (Lexeme.lineLength rest)).Sublist (l :: rest) :=
      (List.drop_sublist _ _).trans (List.sublist_cons_self l rest)
    obtain ⟨hpairwise, hmem⟩ := ih (hts.sublist hsuffix) (hlines.sublist hsuffix)
    refine ⟨List.pairwise_append.mpr ⟨?_, hpairwise, fun g hg g' hg' => ?_⟩, fun g hg => ?_⟩
    · unfold groupOfLine
      split
      · exact .nil
      · exact List.pairwise_singleton _ _
    · -- The line break at the end of the line of `g` stands between the two.
      obtain ⟨m, hm, hmbreak, hline⟩ := hmem g' hg'
      rcases hdrop : rest.drop (Lexeme.lineLength rest) with _ | ⟨o, behind⟩
      · simp [hdrop] at hm
      have ho : o.token = .mark .lineBreak := by
        simpa using Lexeme.not_of_mem_head?_dropWhile (p := fun l => l.token != .mark .lineBreak)
          (show o ∈ (rest.drop (Lexeme.lineLength rest)).head? by rw [hdrop]; rfl)
      have homem : o ∈ rest := List.mem_of_mem_drop (hdrop ▸ List.mem_cons_self)
      rw [hdrop] at hm hsuffix
      have hbehind : m ∈ behind :=
        (List.mem_cons.mp hm).resolve_left fun heq => hmbreak (heq ▸ ho)
      have hlater : o.start.line < m.start.line :=
        List.rel_of_pairwise_cons (hlines.sublist hsuffix) hbehind ho
      have hle : l.start.line ≤ o.start.line :=
        (Position.lt_iff.mp (List.rel_of_pairwise_cons hts homem)).elim Nat.le_of_lt
          (Nat.le_of_eq ·.1)
      rw [eq_of_mem_groupOfLine hg, hline]
      exact Nat.lt_of_le_of_lt hle hlater
    · rcases List.mem_append.mp hg with hg | hg
      · exact ⟨l, List.mem_cons_self, hl, by rw [eq_of_mem_groupOfLine hg]⟩
      · obtain ⟨m, hm, hline⟩ := hmem g hg
        exact ⟨m, hsuffix.subset hm, hline⟩

/-! ### Searching for a label -/

/-- Whether an entry of a list of labels has the name, in any ASCII case. -/
def hasName (name : String) (entry : String × Nat) : Bool :=
  Text.sameAsciiLetters entry.1.toList name.toList

lemma map_find?_labels (name : String) {g : Group} (hg : g.BeginsWithLabels) :
    (g.labels.find? (hasName name)).map Prod.snd =
      if beginsWith name g then some g.line else none := by
  rcases g with ⟨_ | ⟨s, rest⟩, line⟩
  · rfl
  -- whatever follows the first statement is no label
  have hrest : ∀ other, .label other ∉ rest := by
    intro other hmem
    obtain ⟨front, back, rfl⟩ := List.append_of_mem hmem
    exact List.cons_ne_nil s front (hg (s :: front) other back rfl)
  -- the group has no label
  rcases hs : s.labelName? with _ | label
  · have hnone : (Group.mk (s :: rest) line).labels = [] := by
      have hnone : rest.filterMap Statement.labelName? = [] := by
        rw [← List.nil_append rest]
        exact Statement.filterMap_labelName? (none : Option String) hrest
      rw [Group.labels, List.filterMap_cons_none hs, hnone]
      rfl
    have hbegins : beginsWith name ⟨s :: rest, line⟩ = false := by
      unfold beginsWith
      split
      · next heq =>
        obtain ⟨rfl, -⟩ := List.cons.inj heq
        cases hs
      · rfl
    rw [hnone, hbegins]
    rfl
  · -- the group begins with its only label
    obtain rfl := Statement.labelName?_eq_some.mp hs
    have hsome : (Group.mk (.label label :: rest) line).labels = [(label, line)] := by
      exact congrArg (List.map (·, line)) (Statement.filterMap_labelName? (some label) hrest)
    rw [hsome, List.find?_singleton]
    change Option.map _ (if hasName name (label, line) then _ else _) =
      if hasName name (label, line) then _ else _
    split <;> rfl

lemma labelLine?_eq (h : ∀ g ∈ p.groups, g.BeginsWithLabels) (name : String) :
    p.labelLine? name = (p.labels.find? (hasName name)).map Prod.snd := by
  rcases p with ⟨groups⟩
  induction groups with
  | nil => rfl
  | cons g groups ih =>
    obtain ⟨hg, hgroups⟩ := List.forall_mem_cons.mp h
    have hlater : (groups.find? (beginsWith name)).map Group.line =
        ((groups.flatMap Group.labels).find? (hasName name)).map Prod.snd := ih hgroups
    have hfirst := map_find?_labels name hg
    simp only [labelLine?, labels, List.flatMap_cons, List.find?_append, List.find?_cons,
      Option.map_or, hfirst, ← hlater]
    cases beginsWith name g <;> rfl

/-- **Labels are found by their names.** If groups begin with their labels, the line of a name is
that of the first label with the name. -/
theorem labelLine?_eq_some_iff (h : ∀ g ∈ p.groups, g.BeginsWithLabels) {line : Nat} :
    p.labelLine? name = some line ↔ ∃ front label back, p.labels = front ++ (label, line) :: back ∧
      Text.sameAsciiLetters label.toList name.toList = true ∧
      ∀ entry ∈ front, Text.sameAsciiLetters entry.1.toList name.toList = false := by
  rw [labelLine?_eq h, Option.map_eq_some_iff]
  constructor
  · rintro ⟨⟨label, _⟩, hfind, rfl⟩
    obtain ⟨hname, front, back, heq, hfront⟩ := List.find?_eq_some_iff_append.mp hfind
    exact ⟨front, label, back, heq, hname, by simpa [hasName] using hfront⟩
  · rintro ⟨front, label, back, heq, hname, hfront⟩
    refine ⟨(label, line), List.find?_eq_some_iff_append.mpr ⟨hname, front, back, heq, ?_⟩, rfl⟩
    simpa [hasName] using hfront

end Program

end QuestScript
