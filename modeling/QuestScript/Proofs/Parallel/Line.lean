import QuestScript.Proofs.Action.Parallel
import QuestScript.Proofs.Token.Standing

/-!
Readings in parallel with themselves.

A property that passes from a text to its parts, each at its own place, is kept by all readers, and
what they report has a property that the texts give it (`Parallel.Inherited.lawful`).

So a payload is read on its line. Its text has no line break in it, and its actions are parts of it.
Reading it in parallel with itself, with one line number for all lines, gives the same statement
again: all groups inside the statement have the line of the payload already.
-/

namespace QuestScript

/-! ### Groups with one line number -/

lemma Segment.groups_renumber (f : Nat → Nat) (segment : Segment) :
    (segment.renumber f).groups = segment.groups.map (Group.renumber f) := by
  cases segment <;> rfl

lemma Statement.groups_renumber (f : Nat → Nat) (s : Statement) :
    (s.renumber f).groups = s.groups.map (Group.renumber f) := by
  cases s with
  | conditional condition thenGroup elseGroup => cases elseGroup <;> simp [renumber, groups]
  | print segments newline =>
    simp [renumber, groups, List.flatMap_map, List.map_flatMap, Segment.groups_renumber]
  | _ => rfl

lemma Group.exists_of_within_renumber {f : Nat → Nat} {g inner : Group}
    (h : Within inner (g.renumber f)) : ∃ g', inner = Group.renumber f g' := by
  generalize houter : g.renumber f = outer at h
  induction h generalizing g with
  | refl => exact ⟨g, houter.symm⟩
  | @inside s outer inner hs hinner hwithin ih =>
    rcases g with ⟨statements, line⟩
    rw [renumber_mk] at houter
    subst houter
    obtain ⟨s', -, rfl⟩ := List.mem_map.mp hs
    rw [Statement.groups_renumber] at hinner
    obtain ⟨g', -, rfl⟩ := List.mem_map.mp hinner
    exact ih rfl

/-- All groups inside the statement, at any depth, have the line. -/
def Statement.OnLine (n : Nat) (s : Statement) : Prop :=
  ∀ g ∈ s.groups, g.Everywhere fun inner => inner.line = n

lemma Statement.onLine_of_renumber {n : Nat} {s : Statement} (h : s.renumber (fun _ => n) = s) :
    s.OnLine n := by
  intro g hg inner hinner
  rw [← h, groups_renumber] at hg
  obtain ⟨g', -, rfl⟩ := List.mem_map.mp hg
  obtain ⟨deep, rfl⟩ := Group.exists_of_within_renumber hinner
  rcases deep with ⟨statements, line⟩
  simp

/-! ### Readings in parallel with themselves -/

namespace Parallel

variable {text : Position → List Char → Prop} {report : Report → Prop} {line : Nat → Nat}
  {p : Position} {cs : List Char}

/-- The reading of texts that have a property where they stand, in parallel with itself. What is
reported about them has a property as well. -/
def keeping (text : Position → List Char → Prop) (report : Report → Prop) (line : Nat → Nat) :
    Parallel where
  report r r' := r' = r ∧ report r
  line := line
  text p p' cs := p' = p ∧ text p cs

/-- Texts with the property stay on one line, their parts have it as well, and what is reported
where a text stands has the property of reports if the text shows it. -/
structure Inherited (text : Position → List Char → Prop) (report : Report → Prop)
    (line : Nat → Nat) : Prop where
  free {p : Position} {cs : List Char} (h : text p cs) : '\n' ∉ cs
  part {p : Position} {front cs back : List Char} (h : text p (front ++ cs ++ back)) :
    text (p.right front.length) cs
  line {p : Position} {cs : List Char} (h : text p cs) : p.line = line p.line
  report {p : Position} {cs : List Char} {fault : Fault} (h : text p cs)
    (hfault : fault.ShownAt cs) : report ⟨fault, p⟩

namespace Inherited

variable (h : Inherited text report line)

include h

lemma lexemes (htext : text p cs) :
    List.Forall₂ (keeping text report line).Lexemes (Scan.read .fresh p cs).lexemes
      (Scan.read .fresh p cs).lexemes := by
  refine List.forall₂_same.mpr fun l hl => ⟨rfl, ⟨rfl, ?_⟩, fun htoken => ⟨rfl, ?_⟩⟩
  · obtain ⟨front, back, rfl, hstart, -⟩ := Scan.exists_of_mem_lexemes hl
    have hpart : text p (front ++ [] ++ back) := by simpa using htext
    rw [hstart, Position.advance_of_notMem fun hmem => h.free htext (by simp [hmem])]
    exact h.part hpart
  · obtain ⟨front, back, rfl, hstart, -⟩ := Scan.exists_of_payload hl htoken
    rw [hstart, Position.advance_of_notMem fun hmem => h.free htext (by simp [hmem])]
    exact h.part htext

lemma reports (htext : text p cs) :
    List.Forall₂ (keeping text report line).report (Scan.read .fresh p cs).reports
      (Scan.read .fresh p cs).reports := by
  refine List.forall₂_same.mpr fun r hr => ⟨rfl, ?_⟩
  obtain ⟨front, back, rfl, hplace, hshown, -⟩ := Scan.exists_of_mem_reports hr
  have hpart : text p (front ++ back ++ []) := by simpa using htext
  rw [Position.advance_of_notMem fun hmem => h.free htext (by simp [hmem])] at hplace
  have hreport := h.report (h.part hpart) hshown
  rwa [← hplace] at hreport

/-- **What parts of texts inherit is kept by reading.** -/
theorem lawful : (keeping text report line).Lawful where
  part htext := ⟨htext.1 ▸ rfl, h.part htext.2⟩
  line := by
    rintro p p' cs ⟨rfl, htext⟩
    exact h.line htext
  fault := by
    rintro p p' cs fault ⟨rfl, htext⟩ hkind -
    exact ⟨rfl, h.report htext (Fault.shownAt_of_syntactic hkind _)⟩
  code := by
    rintro p p' cs code ⟨rfl, htext⟩
    exact ⟨rfl, h.report htext (by simp [Fault.ShownAt])⟩
  reports := by
    rintro p p' cs ⟨rfl, htext⟩
    exact h.reports htext
  lexemes := by
    rintro p p' cs ⟨rfl, htext⟩
    exact h.lexemes htext

lemma limits (options : Options) : (keeping text report line).Limits options options where
  lawful := h.lawful
  policy := rfl
  report := by
    rintro p p' cs ⟨rfl, htext⟩
    exact ⟨rfl, h.report htext (Fault.shownAt_of_syntactic rfl _)⟩

end Inherited

/-- The reading of texts on the given line, in parallel with itself. -/
def onLine (n : Nat) : Parallel :=
  keeping (fun p cs => p.line = n ∧ '\n' ∉ cs) (fun _ => True) fun _ => n

lemma limits_onLine (n : Nat) (options : Options) : (onLine n).Limits options options :=
  Inherited.limits ⟨fun h => h.2, fun h => ⟨h.1, fun hmem => h.2 (by simp [hmem])⟩, fun h => h.1,
    fun _ _ => trivial⟩ options

end Parallel

/-- **Payloads stay on their line.** All groups inside a statement that a payload is read as, at any
depth, have the line that the payload stands on. -/
theorem Statement.onLine_of_readPayload {options : Options} {budget : Nat} {finish l : Lexeme}
    {carrier : Carrier} {text : String} {rs : List Report} {s : Statement}
    (hl : l.token = .payload carrier text) (hfree : '\n' ∉ text.toList)
    (h : readPayload ⟨options.policy, Action.read options budget, finish⟩ l carrier text.toList =
      ⟨rs, .ok s⟩) : s.OnLine l.start.line := by
  have hlexemes : (Parallel.onLine l.start.line).Lexemes l l := by
    refine ⟨rfl, ⟨rfl, rfl, by simp⟩, fun htoken => ⟨rfl, rfl, ?_⟩⟩
    obtain ⟨-, rfl⟩ := Token.payload.inj (hl.symm.trans htoken)
    exact hfree
  have hcontexts := (Parallel.limits_onLine l.start.line options).contexts budget finish finish
  have hsame := hcontexts.readPayload hlexemes carrier ⟨rfl, rfl, hfree⟩
  rw [h] at hsame
  cases hsame with
  | ok _ hrenumber => exact onLine_of_renumber hrenumber.symm

end QuestScript
