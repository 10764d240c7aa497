import QuestScript.Proofs.Action.Parallel
import QuestScript.Proofs.Parser.Correspondence
import QuestScript.Proofs.Token.Standing

/-!
Texts by themselves and in their source.

A text that stands at some place of a source is read there as it is by itself: the places move to
where the text stands, the lines of groups with them, and a limit on nesting may be another one. So
the two readings go in step.
-/

namespace QuestScript

/-- The fault with another limit on nesting, if it is about one. -/
def Fault.relimit (f : Nat → Nat) : Fault → Fault
  | nestingLimit limit => nestingLimit (f limit)
  | fault => fault

/-- The report on a text that starts at the origin, with another limit on nesting. -/
def Report.moved (origin : Position) (f : Nat → Nat) (r : Report) : Report :=
  ⟨r.fault.relimit f, origin.embed r.place⟩

lemma Fault.relimit_id (fault : Fault) : fault.relimit id = fault := by
  cases fault <;> rfl

lemma Fault.relimit_eq_self (f : Nat → Nat) {fault : Fault} (h : ∀ n, fault ≠ .nestingLimit n) :
    fault.relimit f = fault := by
  cases fault with
  | nestingLimit n => exact absurd rfl (h n)
  | _ => rfl

lemma Report.moved_id (origin : Position) (r : Report) : r.moved origin id = r.embed origin := by
  rw [moved, Fault.relimit_id]
  rfl

lemma Report.moved_of_lexical (origin : Position) (f : Nat → Nat) {r : Report}
    (h : r.fault.kind = .lexical) : r.moved origin f = r.embed origin := by
  rw [moved, Fault.relimit_eq_self f fun n hn => by simp [hn, Fault.kind] at h]
  rfl

lemma eq_map_of_forall₂ {α β : Type} {f : α → β} {as : List α} {bs : List β}
    (h : List.Forall₂ (fun a b => b = f a) as bs) : bs = as.map f := by
  induction h with
  | nil => rfl
  | cons hb _ ih => rw [hb, ih, List.map_cons]

namespace Parallel

/-- A text by itself, and the text at its place in a source. -/
def embedding (origin : Position) (f line : Nat → Nat) : Parallel where
  report r r' := r' = r.moved origin f
  line := line
  text p p' cs := p' = origin.embed p ∧ p.IsCounted ∧ p'.line = line p.line ∧ '\n' ∉ cs

variable {origin place : Position} {f line : Nat → Nat} {cs : List Char}

lemma lexemes_embedding (mode : Mode) (h : place.IsCounted)
    (hline : ∀ l ∈ (Scan.read mode place cs).lexemes,
      (origin.embed l.start).line = line l.start.line) :
    List.Forall₂ (embedding origin f line).Lexemes (Scan.read mode place cs).lexemes
      (Scan.read mode (origin.embed place) cs).lexemes := by
  rw [Scan.read_embed origin mode cs h, List.forall₂_map_right_iff]
  refine List.forall₂_same.mpr fun l hl => ?_
  obtain ⟨front, -, -, hstart, -⟩ := Scan.exists_of_mem_lexemes hl
  have hcounted : l.start.IsCounted := hstart ▸ h.advance front
  refine ⟨rfl, ⟨rfl, hcounted, hline l hl, by simp⟩, fun {carrier text} htoken => ?_⟩
  obtain ⟨-, -, -, -, hfree, n, hn⟩ := Scan.exists_of_payload hl htoken
  have hmoved : (l.embed origin).payloadStart = origin.embed l.payloadStart :=
    (Position.embed_right origin hcounted _).symm
  refine ⟨hmoved, hn ▸ hcounted.right n, ?_, hfree⟩
  rw [hmoved, hn, Position.embed_right origin hcounted]
  exact hline l hl

lemma reports_embedding (mode : Mode) (cs : List Char) (h : place.IsCounted) :
    List.Forall₂ (embedding origin f line).report (Scan.read mode place cs).reports
      (Scan.read mode (origin.embed place) cs).reports := by
  rw [Scan.read_embed origin mode cs h, List.forall₂_map_right_iff]
  exact List.forall₂_same.mpr fun r hr =>
    (Report.moved_of_lexical origin f (Scan.lexical_of_mem_reports hr)).symm

/-- **Texts are read in their source as by themselves.** -/
theorem lawful_embedding (origin : Position) (f line : Nat → Nat) :
    (embedding origin f line).Lawful where
  part h := by
    obtain ⟨rfl, hcounted, hline, hfree⟩ := h
    refine ⟨(Position.embed_right origin hcounted _).symm, hcounted.right _, hline, ?_⟩
    exact fun hmem => hfree (by simp [hmem])
  line h := h.2.2.1
  fault h hkind hlimit := by
    obtain ⟨rfl, -⟩ := h
    simp [embedding, Report.moved, Fault.relimit_eq_self f hlimit]
  code code h := by
    obtain ⟨rfl, -⟩ := h
    rfl
  reports h := by
    obtain ⟨rfl, hcounted, -, -⟩ := h
    exact reports_embedding .fresh _ hcounted
  lexemes h := by
    obtain ⟨rfl, hcounted, hline, hfree⟩ := h
    refine lexemes_embedding .fresh hcounted fun l hl => ?_
    -- all tokens stand on the line of the text
    obtain ⟨front, back, rfl, hstart, -⟩ := Scan.exists_of_mem_lexemes hl
    have hlead : '\n' ∉ front := fun hmem => hfree (by simp [hmem])
    rw [hstart, Position.advance_of_notMem hlead, Position.embed_right origin hcounted]
    exact hline

end Parallel

end QuestScript
