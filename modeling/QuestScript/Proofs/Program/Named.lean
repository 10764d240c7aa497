import QuestScript.Proofs.Program.Grammar
import QuestScript.Proofs.Program.RoundTrip
import QuestScript.Proofs.Statement.Fields

/-!
Names in statements.

Jumps, calls, labels, media and inventory statements carry a name, and it is never empty and has no
blanks around it, where the statement is read from its own payload. The shortcuts of buttons and
actions keep to this as well. A link without an action does not look at its label, so a blank label
makes a jump to nowhere.
-/

namespace QuestScript

open Text

/-- The name is not empty, and no blank stands at either end of it. -/
structure IsName (name : String) : Prop where
  ne_empty : name ≠ ""
  head : ∀ c ∈ name.toList.head?, isBlank c = false
  last : ∀ c ∈ name.toList.getLast?, isBlank c = false

/-- The names in the statement are names. -/
def Statement.Named : Statement → Prop
  | goto target | call target => IsName target
  | label name => IsName name
  | media _ source => IsName source
  | inventory (.change _ item) => IsName item
  | inventory (.clear item) => ∀ name ∈ item, IsName name
  | save slot => ∀ name ∈ slot, IsName name
  | _ => True

def Group.Named (g : Group) : Prop := ∀ s ∈ g.statements, s.Named

/-- A link in the statement has a blank label and no action, so it is a jump to nowhere. -/
def Statement.HasBlankLink (s : Statement) : Prop :=
  ∃ segments newline line, s = print segments newline ∧ .link "" (.jump "" line) ∈ segments

def Group.NoBlankLink (g : Group) : Prop := ∀ s ∈ g.statements, ¬s.HasBlankLink

/-! ### Names -/

lemma head?_trim {cs : List Char} {c : Char} (h : (trim cs).head? = some c) :
    isBlank c = false := by
  obtain ⟨tail, htail⟩ := dropEndWhile_append isBlank (trimStart cs)
  have hstart : (cs.dropWhile isBlank).head? = some c := by
    rw [← trimStart, htail, List.head?_append, ← trimEnd, ← trim, h]
    rfl
  have hnot := List.head?_dropWhile_not isBlank cs
  rwa [hstart] at hnot

lemma isName_trim {text : List Char} (h : (trim text).isEmpty = false) :
    IsName (String.ofList (trim text)) where
  ne_empty hempty := by simp [String.ofList_eq_empty_iff.mp hempty] at h
  head c hc := head?_trim (by simpa using hc)
  last c hc := getLast?_dropEndWhile (by simpa [trim, trimEnd] using hc)

lemma isName_of_isBareTarget {text : List Char} (h : Action.isBareTarget text = true) :
    IsName (String.ofList text) := by
  obtain ⟨hne, hchars⟩ : text ≠ [] ∧ ∀ c ∈ text, (isWordChar c = true ∨ c = '.') ∨ c = '-' := by
    simpa [Action.isBareTarget] using h
  have hall (c : Char) (hc : c ∈ text) : isBlank c = false := by
    rcases hchars c hc with (hword | rfl) | rfl
    · exact isBlank_of_isWordChar hword
    · decide +kernel
    · decide +kernel
  exact ⟨by simpa using hne, fun c hc => hall c (List.mem_of_mem_head? (by simpa using hc)),
    fun c hc => hall c (List.mem_of_mem_getLast? (by simpa using hc))⟩

lemma isName_of_target? {text target : List Char} (h : Action.target? text = some target) :
    IsName (String.ofList target) := by
  unfold Action.target? at h
  split at h
  · next hbare =>
    obtain rfl := Option.some.inj h
    exact isName_of_isBareTarget hbare
  · unfold Action.directTarget? at h
    simp only at h
    split at h
    · next hdirect =>
      obtain rfl := Option.some.inj h
      simp only [Bool.and_eq_true] at hdirect
      exact isName_of_isBareTarget hdirect.2
    · simp at h

/-! ### Statements -/

variable {ctx : Context} {ts : List Lexeme} {rs : List Report} {k : Nat} {s : Statement}

lemma isName_of_requiredName {what : Essential} {place : Position} {text : List Char}
    {name : String}
    (h : requiredName what place text = ⟨rs, .ok name⟩) : IsName name := by
  unfold requiredName at h
  split at h
  · simp at h
  · next hsome =>
    obtain ⟨-, rfl⟩ := Outcome.pure_eq_ok.mp h
    exact isName_trim (by simpa using hsome)

lemma isName_of_optionalName {text : List Char} : ∀ name ∈ optionalName text, IsName name := by
  intro name hname
  unfold optionalName at hname
  split at hname
  · simp at hname
  · next hsome =>
    obtain rfl : String.ofList (trim text) = name := by simpa using hname
    exact isName_trim (by simpa using hsome)

namespace Statement

lemma named_of_isBrief (h : s.IsBrief) : s.Named := by
  cases s <;> trivial

lemma named_of_readPayload {l : Lexeme} {carrier : Carrier} {text : List Char}
    (h : readPayload ctx l carrier text = ⟨rs, .ok s⟩) : s.Named := by
  have hmakes := Carrier.makes_of_readPayload h
  cases carrier with
  | print =>
    obtain ⟨segments, -, rfl⟩ := Outcome.map_eq_ok.mp h
    trivial
  | button => cases s <;> trivial
  | goto | call | label | media =>
    obtain ⟨name, hname, rfl⟩ := Outcome.map_eq_ok.mp h
    exact isName_of_requiredName hname
  | save =>
    obtain ⟨-, rfl⟩ := Outcome.pure_eq_ok.mp h
    exact isName_of_optionalName
  | inventoryClear =>
    obtain ⟨-, rfl⟩ := Outcome.pure_eq_ok.mp h
    exact isName_of_optionalName
  | inventoryAdd | inventoryRemove =>
    obtain ⟨change, hchange, rfl⟩ := Outcome.map_eq_ok.mp h
    obtain ⟨quantity, item, hitem, rfl⟩ := change_of_read hchange
    exact isName_trim hitem

/-- **Statements that are read are named**, whatever stands in their groups. -/
theorem named_of_read (h : read ctx ts = ⟨⟨rs, .ok s⟩, k⟩) : s.Named := by
  rcases ts with _ | ⟨l, rest⟩
  · simp [read, Outcome.fail] at h
  rw [read] at h
  split at h
  · obtain ⟨m, hconditional, -⟩ := Parsed.after_eq_ok.mp h
    obtain ⟨_, _, _, _, _, -, -, -, ⟨rfl, -⟩ | ⟨_, _, _, -, -, rfl, -⟩⟩ :=
      readConditional_eq_ok hconditional
    · trivial
    · trivial
  · rcases readSimple_eq_ok h with ⟨name, value, m, rfl, -⟩ | ⟨carrier, text, -, hpayload⟩ | hbrief
    · trivial
    · exact named_of_readPayload hpayload
    · exact named_of_isBrief hbrief

end Statement

/-! ### Payloads without a name -/

lemma isBlank_of_trim_eq_nil {text : List Char} (h : trim text = []) :
    ∀ c ∈ text, isBlank c = true := by
  rw [trim, trimEnd, dropEndWhile, List.reverse_eq_nil_iff, List.dropWhile_eq_nil_iff] at h
  intro c hc
  rw [← List.takeWhile_append_dropWhile (p := isBlank) (l := text), List.mem_append] at hc
  rcases hc with hc | hc
  · exact List.mem_takeWhile_imp hc
  · exact h c (List.mem_reverse.mpr hc)

lemma Fields.split_of_trim_eq_nil {text : List Char} (h : trim text = []) (n : Nat) :
    split n text = [text] := by
  have hnone : comma? text = none := by
    rcases hcomma : comma? text with _ | k
    · rfl
    · have := isBlank_of_trim_eq_nil h ',' (mem_of_comma? hcomma)
      exact absurd this (by decide +kernel)
  cases n <;> simp [split, hnone]

/-- A payload that its statement cannot do without is blank. Media take their file name out of
quotes. -/
def Carrier.LacksName : Carrier → List Char → Prop
  | goto, text | call, text | label, text | button, text | inventoryAdd, text
  | inventoryRemove, text => trim text = []
  | media _, text => trim (unquote (trim text)) = []
  | _, _ => False

lemma map_requiredName_of_trim_eq_nil {what : Essential} {place : Position} {text : List Char}
    (h : trim text = []) (make : String → Statement) :
    (requiredName what place text).map make =
      ⟨[], .error (.dropped ⟨.blankName what, place⟩)⟩ := by
  simp [requiredName, h, Outcome.drop, Outcome.fail, Outcome.map, Except.map]

lemma Statement.refused_of_lacksName {l : Lexeme} {carrier : Carrier} {text : List Char}
    (h : carrier.LacksName text) : ∃ r, r.fault.kind = .syntactic ∧
      readPayload ctx l carrier text = ⟨[], .error (.dropped r)⟩ := by
  cases carrier with
  | goto | call | label | media => exact ⟨_, rfl, map_requiredName_of_trim_eq_nil h _⟩
  | button =>
    refine ⟨⟨.buttonWithoutTarget, l.payloadStart⟩, rfl, ?_⟩
    have htrim : trim text = [] := h
    simp [readPayload, readButton, Fields.split_of_trim_eq_nil h, htrim, Outcome.drop, Outcome.fail]
  | inventoryAdd | inventoryRemove =>
    refine ⟨⟨.changeWithoutItem, l.payloadStart⟩, rfl, ?_⟩
    have htrim : trim text = [] := h
    simp [readPayload, InventoryChange.read, InventoryChange.ofItem, Fields.split_of_trim_eq_nil h,
      htrim, Outcome.drop, Outcome.fail, Outcome.map, Except.map]
  | _ => exact h.elim

end QuestScript
