import LexFront.Lexeme.Basic

/-!
# Lexicons

A lexicon is a named table of rules. A rule recognises the tokens of one terminal at the start of a
text and decodes them. Of several rules the longest match wins, the earlier rule among equal ones;
but a rule that has to see more input before it can answer comes first, since its match may turn
out longer than all that is visible.

Key facts:

* `longestMatch_eq_needMore_iff`: the first rule that asks for more decides, and only that.
* `scan_of_longestMatch_eq_matched`: a match is what its own rule said, and can be cut off.
* `unrecognizedSize_pos`: a stretch without any match is not empty.
-/

set_option autoImplicit false

namespace LexFront

/-- What a rule finds at the start of a text. -/
inductive Scan where
  | noMatch
  /-- A token of that many bytes. -/
  | matched (size : Nat)
  /-- A token has started but does not end in the visible text. -/
  | needMore
  deriving DecidableEq, Repr

namespace Scan

/-- A match, unless it is empty. -/
def ofSize (n : Nat) : Scan := if n = 0 then noMatch else matched n

/-- A match, unless it is empty. -/
def ofText (t : Text) : Scan := ofSize (Text.size t)

/-- The same answer for a text with `n` more bytes in front of it. -/
def after (n : Nat) : Scan → Scan
  | matched m => matched (n + m)
  | s => s

end Scan

/-- How to recognise and to decode the tokens of one terminal. -/
structure Rule (T : Type) where
  terminal : T
  scan : Text → Scan
  decode : Text → Text

/-- A table of rules. -/
structure Lexicon (T : Type) where
  name : String
  rules : List (Rule T)

/-- What the rules of a table find together. A rule is named by its place in the table. -/
inductive Match where
  | noMatch
  | matched (rule size : Nat)
  | needMore (rule : Nat)
  deriving DecidableEq, Repr

namespace Lexicon

variable {T : Type}

/-- The size of a match that can be cut off: not empty, in range and between two characters. -/
def usable? (t : Text) : Scan → Option Nat
  | .matched n => if 0 < n && Text.isBoundary n t then some n else none
  | _ => none

/-- The better of a match and a later one: the longer, of equal ones the earlier. -/
def better (rule : Nat) (found : Option Nat) (best : Option (Nat × Nat)) : Option (Nat × Nat) :=
  match found, best with
  | some n, some (r, m) => if m ≤ n then some (rule, n) else some (r, m)
  | some n, none => some (rule, n)
  | none, best => best

/-- The longest usable match of some scans that are numbered from `rule` on. -/
def longest (t : Text) (rule : Nat) : List Scan → Option (Nat × Nat)
  | [] => none
  | s :: rest => better rule (usable? t s) (longest t (rule + 1) rest)

/-- Runs all rules at the start of a text. -/
def longestMatch (rules : List (Rule T)) (t : Text) : Match :=
  let scans := rules.map (·.scan t)
  match scans.findIdx? (· == .needMore) with
  | some rule => .needMore rule
  | none =>
    match longest t 0 scans with
    | some (rule, n) => .matched rule n
    | none => .noMatch

/-- The size of the stretch up to the first position, from the start of the text on, at which some
rule matches or asks for more. -/
def gapSize (rules : List (Rule T)) : Text → Nat
  | [] => 0
  | c :: rest =>
    if longestMatch rules (c :: rest) = .noMatch then c.utf8Size + gapSize rules rest else 0

/-- The size of the stretch at the start of a text that no rule accounts for. Its first character
belongs to it in any case. -/
def unrecognizedSize (rules : List (Rule T)) : Text → Nat
  | [] => 0
  | c :: rest => c.utf8Size + gapSize rules rest

/-! ### What the longest match is -/

theorem longestMatch_eq_needMore_iff {rules : List (Rule T)} {t : Text} {rule : Nat} :
    longestMatch rules t = .needMore rule ↔
      (rules.map (·.scan t)).findIdx? (· == .needMore) = some rule := by
  simp only [longestMatch]
  split
  · next h => simp [h]
  · next h => split <;> simp [h]

theorem longest_spec {t : Text} {start : Nat} {scans : List Scan} {rule n : Nat}
    (h : longest t start scans = some (rule, n)) :
    ∃ i, rule = start + i ∧ scans[i]? = some (.matched n) ∧ 0 < n ∧ Text.isBoundary n t := by
  induction scans generalizing start rule n with
  | nil => simp [longest] at h
  | cons s rest ih =>
    have here : ∀ m, usable? t s = some m →
        s = .matched m ∧ 0 < m ∧ Text.isBoundary m t = true := by
      intro m hm
      cases s with
      | noMatch => simp [usable?] at hm
      | needMore => simp [usable?] at hm
      | matched k =>
        simp only [usable?] at hm
        split at hm
        · next hk =>
          simp only [Option.some.injEq] at hm
          subst hm
          simp only [Bool.and_eq_true, decide_eq_true_eq] at hk
          exact ⟨rfl, hk.1, hk.2⟩
        · simp at hm
    have later : ∀ r m, longest t (start + 1) rest = some (r, m) → r = rule → m = n →
        ∃ i, rule = start + i ∧ (s :: rest)[i]? = some (.matched n) ∧ 0 < n ∧
          Text.isBoundary n t := by
      intro r m hr hrule hn
      obtain ⟨i, hi, hs, hp, hb⟩ := ih (hrule ▸ hn ▸ hr)
      exact ⟨i + 1, by omega, by simpa using hs, hp, hb⟩
    simp only [longest, better] at h
    split at h
    · next m r k hm hr =>
      split at h
      · simp only [Option.some.injEq, Prod.mk.injEq] at h
        obtain ⟨rfl, rfl⟩ := h
        obtain ⟨rfl, hp, hb⟩ := here _ hm
        exact ⟨0, rfl, rfl, hp, hb⟩
      · simp only [Option.some.injEq, Prod.mk.injEq] at h
        exact later r k hr h.1 h.2
    · next m hm hr =>
      simp only [Option.some.injEq, Prod.mk.injEq] at h
      obtain ⟨rfl, rfl⟩ := h
      obtain ⟨rfl, hp, hb⟩ := here _ hm
      exact ⟨0, rfl, rfl, hp, hb⟩
    · next hm => exact later rule n h rfl rfl

theorem scan_of_longestMatch_eq_matched {rules : List (Rule T)} {t : Text} {rule n : Nat}
    (h : longestMatch rules t = .matched rule n) :
    (∃ r, rules[rule]? = some r ∧ r.scan t = .matched n) ∧ 0 < n ∧ Text.isBoundary n t := by
  simp only [longestMatch] at h
  split at h
  · simp at h
  · split at h
    · next r m hl =>
      simp only [Match.matched.injEq] at h
      obtain ⟨rfl, rfl⟩ := h
      obtain ⟨i, hi, hs, hp, hb⟩ := longest_spec hl
      simp only [Nat.zero_add] at hi
      subst hi
      rw [List.getElem?_map, Option.map_eq_some_iff] at hs
      exact ⟨hs, hp, hb⟩
    · simp at h

theorem unrecognizedSize_pos (rules : List (Rule T)) {t : Text} (h : t ≠ []) :
    0 < unrecognizedSize rules t := by
  cases t with
  | nil => exact absurd rfl h
  | cons c rest => exact Nat.add_pos_left c.utf8Size_pos _

theorem isBoundary_gapSize (rules : List (Rule T)) (t : Text) :
    ∃ front back, t = front ++ back ∧ gapSize rules t = Text.size front := by
  induction t with
  | nil => exact ⟨[], [], rfl, rfl⟩
  | cons c rest ih =>
    obtain ⟨front, back, rfl, hs⟩ := ih
    simp only [gapSize]
    split
    · exact ⟨c :: front, back, rfl, by simp [hs]⟩
    · exact ⟨[], c :: (front ++ back), rfl, rfl⟩

theorem unrecognizedSize_eq_size (rules : List (Rule T)) (t : Text) :
    ∃ front back, t = front ++ back ∧ unrecognizedSize rules t = Text.size front := by
  cases t with
  | nil => exact ⟨[], [], rfl, rfl⟩
  | cons c rest =>
    obtain ⟨front, back, rfl, hs⟩ := isBoundary_gapSize rules rest
    exact ⟨c :: front, back, rfl, by simp [unrecognizedSize, hs]⟩

end Lexicon

end LexFront
