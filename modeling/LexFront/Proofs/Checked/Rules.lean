import LexFront.Lexicon.Basic
import LexFront.Proofs.Checked.Slices
import LexFront.Proofs.Lexicon.Scanning
import Mathlib.Data.List.Forall2

/-!
# Checked tables of rules

A checked rule scans and decodes by offsets, and a table of them is tried like any other: all rules
at the start of a text, and all later characters one after the other if none of them matches. A
table agrees with another one if its rules do, whatever text they are given, malformed and cut
short as it may be.

Key facts:

* `CheckedLexicon.Agrees.longestMatch?_eq`: tables that agree choose alike.
* `CheckedLexicon.Agrees.unrecognizedSize?_eq`: they pass over the same stretch.
-/

set_option autoImplicit false

namespace LexFront

/-- A word that is a keyword, where one can be cut off. -/
def Scan.keyword? (isKeyword : Text → Bool) (t : Text) : Checked Scan := do
  let n := Text.size (Text.identifier t)
  if 0 < n then
    let word ← Text.upto? n t
    return if isKeyword word then .matched n else .noMatch
  else return .noMatch

theorem Scan.keyword?_eq (isKeyword : Text → Bool) (t : Text) :
    Scan.keyword? isKeyword t =
      .ok (if isKeyword (Text.identifier t) then .ofText (Text.identifier t) else .noMatch) := by
  simp only [keyword?, Text.upto?_identifier, Checked.ok_bind, Checked.pure_eq, ofText, ofSize]
  split
  · next h => rw [if_neg (Nat.ne_of_gt h)]
  · next h => rw [if_pos (Nat.eq_zero_of_not_pos h), ite_self]

/-- How to recognise and to decode the tokens of one terminal, with every step checked. -/
structure CheckedRule (T : Type) where
  terminal : T
  scan : Text → Checked Scan
  decode : Text → Checked Text

/-- A checked rule that is never refused a step and answers like another rule. -/
structure CheckedRule.Agrees {T : Type} (r : CheckedRule T) (r' : Rule T) : Prop where
  terminal : r.terminal = r'.terminal
  scan : ∀ t, r.scan t = .ok (r'.scan t)
  decode : ∀ t, r.decode t = .ok (r'.decode t)

/-- A table of checked rules. -/
structure CheckedLexicon (T : Type) where
  name : String
  rules : List (CheckedRule T)

/-- A table whose rules agree with those of another one, place by place. -/
structure CheckedLexicon.Agrees {T : Type} (l : CheckedLexicon T) (l' : Lexicon T) : Prop where
  name : l.name = l'.name
  rules : List.Forall₂ CheckedRule.Agrees l.rules l'.rules

/-- The offsets of the characters of a text, the first of which stands at `n`. -/
def Text.charOffsets (n : Nat) : Text → List Nat
  | [] => []
  | c :: rest => n :: charOffsets (n + c.utf8Size) rest

namespace Lexicon

/-- What the rules of a table find together, by what each of them found. -/
def chosen (t : Text) (scans : List Scan) : Match :=
  match scans.findIdx? (· == .needMore) with
  | some rule => .needMore rule
  | none =>
    match longest t 0 scans with
    | some (rule, n) => .matched rule n
    | none => .noMatch

end Lexicon

namespace CheckedLexicon

variable {T : Type}

/-- Runs all rules at the start of a text. -/
def longestMatch? (l : CheckedLexicon T) (t : Text) : Checked Match := do
  let scans ← l.rules.mapM (·.scan t)
  return Lexicon.chosen t scans

/-- The first of some offsets at which a rule matches or asks for more. -/
def firstMatch? (l : CheckedLexicon T) (t : Text) : List Nat → Checked (Option Nat)
  | [] => .ok none
  | n :: rest => do
    let behind ← Text.from? n t
    let found ← l.longestMatch? behind
    if found = .noMatch then firstMatch? l t rest else return some n

/-- The size of the stretch at the start of a text that no rule accounts for. -/
def unrecognizedSize? (l : CheckedLexicon T) (t : Text) : Checked Nat := do
  let found ← l.firstMatch? t (Text.charOffsets 0 t).tail
  return found.getD (Text.size t)

variable {l : CheckedLexicon T} {l' : Lexicon T}

/-- **Tables that agree choose alike.** -/
theorem Agrees.longestMatch?_eq (h : l.Agrees l') (t : Text) :
    l.longestMatch? t = .ok (Lexicon.longestMatch l'.rules t) := by
  have hscans : ∀ {rs : List (CheckedRule T)} {rs' : List (Rule T)},
      List.Forall₂ CheckedRule.Agrees rs rs' →
        rs.mapM (·.scan t) = Except.ok (rs'.map (·.scan t)) := by
    intro rs rs' hrs
    induction hrs with
    | nil => rfl
    | cons hr _ ih =>
      rw [List.mapM_cons, hr.scan, Checked.ok_bind, ih]
      rfl
  rw [longestMatch?, hscans h.rules]
  rfl

theorem Agrees.firstMatch?_eq (h : l.Agrees l') {t rest : Text} {n : Nat} (hn : t.HasRest n rest) :
    ∃ found, l.firstMatch? t (Text.charOffsets n rest) = .ok found ∧
      found.getD (Text.size t) = n + Lexicon.gapSize l'.rules rest := by
  induction rest generalizing n with
  | nil => exact ⟨none, rfl, hn.add_size.symm⟩
  | cons c rest ih =>
    simp only [Text.charOffsets, firstMatch?, hn.from?_eq, h.longestMatch?_eq, Checked.ok_bind,
      Lexicon.gapSize]
    split
    · rw [← Nat.add_assoc]
      exact ih hn.cons
    · exact ⟨some n, rfl, rfl⟩

/-- **Tables that agree pass over the same stretch.** -/
theorem Agrees.unrecognizedSize?_eq (h : l.Agrees l') (t : Text) :
    l.unrecognizedSize? t = .ok (Lexicon.unrecognizedSize l'.rules t) := by
  cases t with
  | nil => rfl
  | cons c rest =>
    have hn : Text.HasRest (c :: rest) c.utf8Size rest := ⟨[c], rfl, rfl⟩
    obtain ⟨found, hfound, hsize⟩ := h.firstMatch?_eq hn
    have htail : (Text.charOffsets 0 (c :: rest)).tail = Text.charOffsets c.utf8Size rest := by
      rw [Text.charOffsets, List.tail_cons, Nat.zero_add]
    rw [unrecognizedSize?, htail, hfound, Checked.ok_bind, hsize]
    rfl

/-- The rule at a place is the one that agrees with the rule at that place. -/
theorem Agrees.get? (h : l.Agrees l') {i : Nat} {r' : Rule T} (hr : l'.rules[i]? = some r') :
    ∃ r, Checked.get? l.rules i = .ok r ∧ r.Agrees r' := by
  obtain ⟨hi, hget⟩ := List.getElem?_eq_some_iff.1 hr
  have hi' : i < l.rules.length := h.rules.length_eq ▸ hi
  have hagree := (List.forall₂_iff_get.1 h.rules).2 i hi' hi
  exact ⟨_, Checked.get?_eq_ok (List.getElem?_eq_getElem hi'), hget ▸ hagree⟩

end CheckedLexicon

end LexFront
