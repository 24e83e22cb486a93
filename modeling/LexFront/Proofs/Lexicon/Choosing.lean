import LexFront.Proofs.Checked.CMake
import LexFront.Proofs.Checked.Cpp
import LexFront.Proofs.Lexicon.Matching

/-!
# Which rule is chosen

A table is free to hold any rules, also one that matches nothing at all, more than there is, or half
of a character. Such matches are passed over. What is chosen among the others is said here without
the search (`Chooses`): the first rule that asks for more if there is one, otherwise the first of
those that match most, otherwise nothing.

In the tables of the two languages no match is ever passed over, because all of their matches can be
cut off (`IsSound`). That is worth saying of the rules by offsets above all, since their sizes are
put together from those of openers, closers, prefixes and splices: an offset inside a character
would not be refused by anything, but turn the token into an unrecognized stretch.

Key facts:

* `lt_of_longest`: what stands before the longest match is shorter.
* `chooses_iff`: the search finds what it has to, and nothing else has to be found.
* `CheckedLexicon.Agrees.isSound`: rules by offsets match like the rules that they agree with.
* `isSound_and_chooses`: all of this for every table and for those of the two languages.
-/

set_option autoImplicit false

namespace LexFront

/-- What a token at the start of a text can measure: it is not empty, in range, and ends between two
characters. -/
structure Text.IsTokenSize (t : Text) (n : Nat) : Prop where
  pos : 1 ≤ n
  le_size : n ≤ Text.size t
  isBoundary : Text.isBoundary n t = true

theorem Text.isTokenSize_iff {t : Text} {n : Nat} :
    t.IsTokenSize n ↔ 0 < n ∧ Text.isBoundary n t = true := by
  refine ⟨fun h ↦ ⟨h.pos, h.isBoundary⟩, fun ⟨hpos, hb⟩ ↦ ⟨hpos, ?_, hb⟩⟩
  obtain ⟨front, back, rfl, rfl⟩ := Text.isBoundary_iff.1 hb
  rw [Text.size_append]
  exact Nat.le_add_right _ _

/-- If this is a match, a token of that size can be cut off. -/
def Scan.IsSound (t : Text) (s : Scan) : Prop := ∀ n, s = .matched n → t.IsTokenSize n

theorem Scan.Fits.isSound {t : Text} {s : Scan} (h : Fits t s) : s.IsSound t := by
  intro n hn
  obtain ⟨front, back, rfl, rfl, hne, -⟩ := h n hn
  exact Text.isTokenSize_iff.2 ⟨Text.size_pos hne, Text.isBoundary_size_append front back⟩

namespace Lexicon

variable {T : Type}

/-! ### What has to be chosen -/

/-- The rule at a place asks for more. -/
def Asks (rules : List (Rule T)) (t : Text) (i : Nat) : Prop :=
  ∃ r, rules[i]? = some r ∧ r.scan t = .needMore

/-- The rule at a place matches a size that can be cut off. -/
def Finds (rules : List (Rule T)) (t : Text) (i n : Nat) : Prop :=
  ∃ r, rules[i]? = some r ∧ r.scan t = .matched n ∧ t.IsTokenSize n

/-- What has to be chosen from a table at the start of a text. -/
inductive Chooses (rules : List (Rule T)) (t : Text) : Match → Prop where
  | needMore {i : Nat} : Asks rules t i → (∀ j < i, ¬ Asks rules t j) →
      Chooses rules t (.needMore i)
  | matched {i n : Nat} : (∀ j, ¬ Asks rules t j) → Finds rules t i n →
      (∀ j m, Finds rules t j m → m < n ∨ m = n ∧ i ≤ j) → Chooses rules t (.matched i n)
  | noMatch : (∀ j, ¬ Asks rules t j) → (∀ j m, ¬ Finds rules t j m) →
      Chooses rules t .noMatch

variable {rules : List (Rule T)} {t : Text}

/-- There is one thing only that has to be chosen. -/
theorem Chooses.unique {m m' : Match} (h : Chooses rules t m) (h' : Chooses rules t m') :
    m = m' := by
  cases h with
  | @needMore i hi hfirst =>
    cases h' with
    | @needMore j hj hfirst' =>
      rcases Nat.lt_trichotomy i j with hlt | rfl | hlt
      · exact absurd hi (hfirst' i hlt)
      · rfl
      · exact absurd hj (hfirst j hlt)
    | matched hnone => exact absurd hi (hnone i)
    | noMatch hnone => exact absurd hi (hnone i)
  | @matched i n hnone hfinds hbest =>
    cases h' with
    | @needMore j hj => exact absurd hj (hnone j)
    | @matched j k _ hfinds' hbest' =>
      have h₁ := hbest j k hfinds'
      have h₂ := hbest' i n hfinds
      obtain ⟨rfl, rfl⟩ : i = j ∧ n = k := by omega
      rfl
    | noMatch _ hfinds' => exact absurd hfinds (hfinds' i n)
  | noMatch hnone hfinds =>
    cases h' with
    | @needMore j hj => exact absurd hj (hnone j)
    | @matched j k _ hfinds' => exact absurd hfinds' (hfinds j k)
    | noMatch => rfl

/-! ### What the search finds -/

theorem finds_iff {i n : Nat} :
    Finds rules t i n ↔ ∃ s, (rules.map (·.scan t))[i]? = some s ∧ usable? t s = some n := by
  simp only [Finds, List.getElem?_map, Option.map_eq_some_iff, usable?_eq_some_iff,
    Text.isTokenSize_iff]
  constructor
  · rintro ⟨r, hr, hs⟩
    exact ⟨_, ⟨r, hr, rfl⟩, hs⟩
  · rintro ⟨_, ⟨r, hr, rfl⟩, hs⟩
    exact ⟨r, hr, hs⟩

theorem not_asks_iff : (∀ i, ¬ Asks rules t i) ↔ ∀ r ∈ rules, r.scan t ≠ .needMore := by
  constructor
  · rintro h r hr hs
    obtain ⟨i, hi⟩ := List.mem_iff_getElem?.1 hr
    exact h i ⟨r, hi, hs⟩
  · rintro h i ⟨r, hr, hs⟩
    exact h r (List.mem_of_getElem? hr) hs

/-- **What stands before the longest match is shorter.** -/
theorem lt_of_longest {start i j n m : Nat} {scans : List Scan} {s : Scan}
    (h : longest t start scans = some (i, n)) (hj : start + j < i) (hs : scans[j]? = some s)
    (hm : usable? t s = some m) : m < n := by
  induction scans generalizing start j with
  | nil => cases hs
  | cons s' rest ih =>
    rw [longest] at h
    have hrest : longest t (start + 1) rest = some (i, n) := of_better h (by omega)
    cases j with
    | zero =>
      obtain rfl := Option.some.inj hs
      rw [hm, hrest, better] at h
      split at h
      · have := (Prod.mk.inj (Option.some.inj h)).1
        omega
      · omega
    | succ j => exact ih hrest (by omega) hs

theorem chooses_longestMatch (rules : List (Rule T)) (t : Text) :
    Chooses rules t (longestMatch rules t) := by
  by_cases hasks : ∀ i, ¬ Asks rules t i
  · rw [longestMatch_eq_longest (not_asks_iff.1 hasks)]
    cases hl : longest t 0 (rules.map (·.scan t)) with
    | none =>
      refine .noMatch hasks fun j m hfinds ↦ ?_
      obtain ⟨s, hs, hm⟩ := finds_iff.1 hfinds
      rw [longest_eq_none_iff.1 hl s (List.mem_of_getElem? hs)] at hm
      cases hm
    | some p =>
      obtain ⟨i, n⟩ := p
      refine .matched hasks ?_ fun j m hfinds ↦ ?_
      · obtain ⟨k, rfl, hs, hn⟩ := longest_spec hl
        rw [Nat.zero_add]
        exact finds_iff.2 ⟨_, hs, usable?_eq_some_iff.2 ⟨rfl, hn⟩⟩
      · obtain ⟨s, hs, hm⟩ := finds_iff.1 hfinds
        have hle := le_of_longest hl (List.mem_of_getElem? hs) hm
        by_cases hj : j < i
        · exact .inl (lt_of_longest hl (by omega) hs hm)
        · omega
  · obtain ⟨i, hi⟩ : ∃ i, longestMatch rules t = .needMore i := by
      obtain ⟨k, r, hr, hs⟩ := not_forall_not.1 hasks
      exact longestMatch_of_needMore (List.mem_of_getElem? hr) hs
    rw [hi]
    refine .needMore (exists_needMore_of_longestMatch hi) ?_
    rintro j hj ⟨r, hr, hs⟩
    rw [longestMatch_eq_needMore_iff, List.findIdx?_eq_some_iff_getElem] at hi
    obtain ⟨_, -, hfirst⟩ := hi
    obtain ⟨_, rfl⟩ := List.getElem?_eq_some_iff.1 hr
    exact hfirst j hj (by simp [hs])

/-- **The search finds what has to be chosen.** -/
theorem chooses_iff {m : Match} : Chooses rules t m ↔ longestMatch rules t = m :=
  ⟨fun h ↦ (chooses_longestMatch rules t).unique h, fun h ↦ h ▸ chooses_longestMatch rules t⟩

/-! ### Tables whose matches can all be cut off -/

/-- A table whose rules match nothing but what can be cut off, on any text. -/
def IsSound (rules : List (Rule T)) : Prop := ∀ r ∈ rules, ∀ t, (r.scan t).IsSound t

/-- **In a sound table nothing is passed over.** -/
theorem IsSound.finds_iff (h : IsSound rules) {i n : Nat} :
    Finds rules t i n ↔ ∃ r, rules[i]? = some r ∧ r.scan t = .matched n := by
  constructor
  · rintro ⟨r, hr, hs, -⟩
    exact ⟨r, hr, hs⟩
  · rintro ⟨r, hr, hs⟩
    exact ⟨r, hr, hs, h r (List.mem_of_getElem? hr) t n hs⟩

end Lexicon

/-- A table of checked rules that are refused no step, on any text, and match nothing but what can
be cut off. -/
def CheckedLexicon.IsSound {T : Type} (l : CheckedLexicon T) : Prop :=
  ∀ r ∈ l.rules, ∀ t, ∃ s, r.scan t = .ok s ∧ s.IsSound t

/-- Rules by offsets match like the rules that they agree with. -/
theorem CheckedLexicon.Agrees.isSound {T : Type} {l : CheckedLexicon T} {l' : Lexicon T}
    (h : l.Agrees l') (hsound : Lexicon.IsSound l'.rules) : l.IsSound := by
  intro r hr t
  obtain ⟨i, hi, rfl⟩ := List.getElem_of_mem hr
  have hi' : i < l'.rules.length := h.rules.length_eq ▸ hi
  have hagree := (List.forall₂_iff_get.1 h.rules).2 i hi hi'
  exact ⟨_, hagree.scan t, hsound _ (List.get_mem l'.rules ⟨i, hi'⟩) t⟩

theorem CMake.isSound : Lexicon.IsSound lexicon.rules := fun _ hr t ↦ (fits_of_mem hr t).isSound

theorem Cpp.isSound : Lexicon.IsSound lexicon.rules := fun _ hr t ↦ (fits_of_mem hr t).isSound

namespace Lexicon

/-- **All matches of the two languages can be cut off, and of the matches of any table the right one
is chosen.** Each language has eleven rules, which answer on every text, by offsets too, and no
match of theirs is ever passed over. A table chooses the first rule that asks for more, otherwise
the first of the longest matches that can be cut off, otherwise nothing. -/
theorem isSound_and_chooses :
    (CMake.lexicon.rules.length = 11 ∧ IsSound CMake.lexicon.rules ∧
        CMake.checkedLexicon.Agrees CMake.lexicon ∧ CMake.checkedLexicon.IsSound ∧
        ∀ t i n, Finds CMake.lexicon.rules t i n ↔
          ∃ r, CMake.lexicon.rules[i]? = some r ∧ r.scan t = .matched n) ∧
      (Cpp.lexicon.rules.length = 11 ∧ IsSound Cpp.lexicon.rules ∧
        Cpp.checkedLexicon.Agrees Cpp.lexicon ∧ Cpp.checkedLexicon.IsSound ∧
        ∀ t i n, Finds Cpp.lexicon.rules t i n ↔
          ∃ r, Cpp.lexicon.rules[i]? = some r ∧ r.scan t = .matched n) ∧
      ∀ {T : Type} (rules : List (Rule T)) (t : Text) (m : Match),
        longestMatch rules t = m ↔ Chooses rules t m := by
  refine ⟨⟨rfl, CMake.isSound, CMake.agrees_checkedLexicon,
    CMake.agrees_checkedLexicon.isSound CMake.isSound, fun _ _ _ ↦ CMake.isSound.finds_iff⟩,
    ⟨rfl, Cpp.isSound, Cpp.agrees_checkedLexicon, Cpp.agrees_checkedLexicon.isSound Cpp.isSound,
      fun _ _ _ ↦ Cpp.isSound.finds_iff⟩, fun _ _ _ ↦ chooses_iff.symm⟩

end Lexicon

end LexFront
