import LexFront.Proofs.Lexicon.Scanning

/-!
# What the rules of a table find together

The longest match of a table in terms of what each rule answers: it asks for more if some rule does,
finds nothing if no rule finds anything that can be cut off, and otherwise takes the longest of what
the rules find. A stretch that no rule accounts for ends at the first position where some rule
answers.

Key facts:

* `longestMatch_eq_longest`: the answer of a table none of whose rules asks for more.
* `longestMatch_eq_matched`: the rule that finds most is the one that is chosen.
* `unrecognizedSize_spec`: nothing is found inside an unrecognized stretch, and something behind it.
* `IsStable.longestMatch_append`: what a window shows is not changed by the lines to come.
-/

set_option autoImplicit false

namespace LexFront.Lexicon

variable {T : Type}

/-! ### The longest match -/

theorem usable?_eq_some_iff {t : Text} {s : Scan} {n : Nat} :
    usable? t s = some n ↔ s = .matched n ∧ 0 < n ∧ Text.isBoundary n t = true := by
  cases s with
  | noMatch => simp [usable?]
  | needMore => simp [usable?]
  | matched m =>
    rw [usable?, Scan.matched.injEq]
    constructor
    · intro h
      split at h
      · next hm =>
        obtain rfl := Option.some.inj h
        simpa using hm
      · cases h
    · rintro ⟨rfl, hpos, hb⟩
      rw [if_pos (by simp [hpos, hb])]

theorem usable?_of_fits {t : Text} {n : Nat} (h : Scan.Fits t (.matched n)) :
    usable? t (.matched n) = some n := by
  obtain ⟨front, back, rfl, rfl, hne, -⟩ := h n rfl
  exact usable?_eq_some_iff.2 ⟨rfl, Text.size_pos hne, Text.isBoundary_size_append front back⟩

/-- What is not found by a rule itself is found behind it. -/
theorem of_better {rule j n : Nat} {found : Option Nat} {best : Option (Nat × Nat)}
    (h : better rule found best = some (j, n)) (hj : j ≠ rule) : best = some (j, n) := by
  cases found with
  | none => cases best <;> exact h
  | some m =>
    cases best with
    | none => exact absurd (Prod.mk.inj (Option.some.inj h)).1.symm hj
    | some p =>
      rw [better] at h
      split at h
      · exact absurd (Prod.mk.inj (Option.some.inj h)).1.symm hj
      · exact h

theorem longest_eq_none_iff {t : Text} {start : Nat} {scans : List Scan} :
    longest t start scans = none ↔ ∀ s ∈ scans, usable? t s = none := by
  induction scans generalizing start with
  | nil => simp [longest]
  | cons s rest ih =>
    rw [longest, List.forall_mem_cons, ← @ih (start + 1)]
    cases hs : usable? t s <;> cases hr : longest t (start + 1) rest
    · simp [better]
    · simp [better]
    · simp [better]
    · next n p =>
      simp only [better]
      split <;> simp

/-- What is found is at least as long as whatever some rule finds. -/
theorem le_of_longest {t : Text} {start i n m : Nat} {scans : List Scan} {s : Scan}
    (h : longest t start scans = some (i, n)) (hs : s ∈ scans) (hm : usable? t s = some m) :
    m ≤ n := by
  induction scans generalizing start i n with
  | nil => cases hs
  | cons s' rest ih =>
    rw [longest] at h
    cases hr : longest t (start + 1) rest with
    | none =>
      have hnone := longest_eq_none_iff.1 hr
      rcases List.mem_cons.1 hs with rfl | hs
      · rw [hm, hr, better, Option.some.injEq, Prod.mk.injEq] at h
        omega
      · rw [hnone s hs] at hm
        cases hm
    | some p =>
      obtain ⟨j, k⟩ := p
      cases hs' : usable? t s' with
      | none =>
        rw [hs', hr, better, Option.some.injEq, Prod.mk.injEq] at h
        · rcases List.mem_cons.1 hs with rfl | hs
          · rw [hs'] at hm
            cases hm
          · have := ih hr hs
            omega
      | some k' =>
        rw [hs', hr, better] at h
        rcases List.mem_cons.1 hs with rfl | hs
        · rw [hs', Option.some.injEq] at hm
          split at h <;> rw [Option.some.injEq, Prod.mk.injEq] at h <;> omega
        · have := ih hr hs
          split at h <;> rw [Option.some.injEq, Prod.mk.injEq] at h <;> omega

theorem longest_congr {t t' : Text} {start : Nat} {scans : List Scan}
    (h : ∀ s ∈ scans, usable? t s = usable? t' s) :
    longest t start scans = longest t' start scans := by
  induction scans generalizing start with
  | nil => rfl
  | cons s rest ih =>
    rw [List.forall_mem_cons] at h
    rw [longest, longest, h.1, ih h.2]

/-- **What is found moves along with the sizes** that all rules find, if the longer stays the
longer. -/
theorem longest_map {α : Type} {t t' : Text} {f : Nat → Nat} {g g' : α → Scan} {ps : List α}
    (h : ∀ p ∈ ps, usable? t (g p) = (usable? t' (g' p)).map f)
    (hf : ∀ p ∈ ps, ∀ q ∈ ps, ∀ m n, usable? t' (g' p) = some m → usable? t' (g' q) = some n →
      (f m ≤ f n ↔ m ≤ n)) (start : Nat) :
    longest t start (ps.map g) = (longest t' start (ps.map g')).map fun r ↦ (r.1, f r.2) := by
  induction ps generalizing start with
  | nil => rfl
  | cons p ps ih =>
    rw [List.forall_mem_cons] at h
    have hrest := ih h.2 (fun q hq r hr ↦
      hf q (List.mem_cons_of_mem _ hq) r (List.mem_cons_of_mem _ hr)) (start + 1)
    rw [List.map_cons, List.map_cons, longest, longest, h.1, hrest]
    cases hp : usable? t' (g' p) with
    | none => rfl
    | some m =>
      cases hl : longest t' (start + 1) (ps.map g') with
      | none => rfl
      | some r =>
        obtain ⟨i, n⟩ := r
        -- The longest match behind the first rule is one of some rule.
        obtain ⟨j, -, hj, hpos, hb⟩ := longest_spec hl
        rw [List.getElem?_map, Option.map_eq_some_iff] at hj
        obtain ⟨q, hq, hscan⟩ := hj
        have hmono := hf q (List.mem_cons_of_mem _ (List.mem_of_getElem? hq)) p List.mem_cons_self
          n m (usable?_eq_some_iff.2 ⟨hscan, hpos, hb⟩) hp
        by_cases hnm : n ≤ m
        · simp only [Option.map_some, better, if_pos hnm, if_pos (hmono.2 hnm)]
        · simp only [Option.map_some, better, if_neg hnm, if_neg (mt hmono.1 hnm)]

theorem findIdx?_needMore_eq_none_iff {rules : List (Rule T)} {t : Text} :
    (rules.map (·.scan t)).findIdx? (· == .needMore) = none ↔
      ∀ r ∈ rules, r.scan t ≠ .needMore := by
  simp [List.findIdx?_eq_none_iff]

theorem longestMatch_eq_longest {rules : List (Rule T)} {t : Text}
    (h : ∀ r ∈ rules, r.scan t ≠ .needMore) :
    longestMatch rules t =
      (longest t 0 (rules.map (·.scan t))).elim .noMatch fun p ↦ .matched p.1 p.2 := by
  rw [longestMatch]
  simp only [findIdx?_needMore_eq_none_iff.2 h]
  cases longest t 0 (rules.map (·.scan t)) <;> rfl

theorem exists_needMore_of_longestMatch {rules : List (Rule T)} {t : Text} {i : Nat}
    (h : longestMatch rules t = .needMore i) :
    ∃ r, rules[i]? = some r ∧ r.scan t = .needMore := by
  rw [longestMatch_eq_needMore_iff, List.findIdx?_eq_some_iff_getElem] at h
  obtain ⟨hi, hs, -⟩ := h
  rw [List.length_map] at hi
  refine ⟨rules[i], List.getElem?_eq_getElem hi, ?_⟩
  simpa using hs

/-- A table asks for more if some rule does. -/
theorem longestMatch_of_needMore {rules : List (Rule T)} {t : Text} {r : Rule T} (hr : r ∈ rules)
    (h : r.scan t = .needMore) : ∃ i, longestMatch rules t = .needMore i := by
  cases hf : (rules.map (·.scan t)).findIdx? (· == .needMore) with
  | none => exact absurd h (findIdx?_needMore_eq_none_iff.1 hf r hr)
  | some i => exact ⟨i, longestMatch_eq_needMore_iff.2 hf⟩

theorem ne_needMore_of_longestMatch {rules : List (Rule T)} {t : Text}
    (h : ∀ i, longestMatch rules t ≠ .needMore i) : ∀ r ∈ rules, r.scan t ≠ .needMore := by
  intro r hr hs
  obtain ⟨i, hi⟩ := longestMatch_of_needMore hr hs
  exact h i hi

/-- A table finds something if some rule does. -/
theorem longestMatch_ne_noMatch {rules : List (Rule T)} {t : Text} {r : Rule T} (hr : r ∈ rules)
    (hfits : Scan.Fits t (r.scan t)) (h : r.scan t ≠ .noMatch) :
    longestMatch rules t ≠ .noMatch := by
  intro hm
  have hnone : ∀ r ∈ rules, r.scan t ≠ .needMore := ne_needMore_of_longestMatch (by simp [hm])
  rw [longestMatch_eq_longest hnone] at hm
  have hlongest : longest t 0 (rules.map (·.scan t)) = none := by
    cases hl : longest t 0 (rules.map (·.scan t)) with
    | none => rfl
    | some p =>
      rw [hl] at hm
      cases hm
  have husable := longest_eq_none_iff.1 hlongest _ (List.mem_map_of_mem hr)
  cases hs : r.scan t with
  | noMatch => exact h hs
  | needMore => exact hnone r hr hs
  | matched n =>
    rw [hs] at husable hfits
    rw [usable?_of_fits hfits] at husable
    cases husable

/-- The longest match is at least as long as whatever some rule matches. -/
theorem le_of_longestMatch {rules : List (Rule T)} {t : Text} {r : Rule T} {i m n : Nat}
    (hm : longestMatch rules t = .matched i n) (hr : r ∈ rules) (h : r.scan t = .matched m)
    (hfits : Scan.Fits t (r.scan t)) : m ≤ n := by
  have hnone : ∀ r ∈ rules, r.scan t ≠ .needMore := ne_needMore_of_longestMatch (by simp [hm])
  rw [longestMatch_eq_longest hnone] at hm
  cases hl : longest t 0 (rules.map (·.scan t)) with
  | none =>
    rw [hl] at hm
    cases hm
  | some p =>
    rw [hl, Option.elim_some, Match.matched.injEq] at hm
    have husable : usable? t (r.scan t) = some m := by
      rw [h] at hfits ⊢
      exact usable?_of_fits hfits
    have := le_of_longest (i := p.1) (n := p.2) hl (List.mem_map_of_mem hr) husable
    omega

/-- A rule that finds more than the ones before it and the ones behind it. -/
theorem longest_append {t : Text} {start n : Nat} {front back : List Scan}
    (hfits : Scan.Fits t (.matched n)) (h : ∀ s ∈ front ++ back, ∀ m, s = .matched m → m < n) :
    longest t start (front ++ .matched n :: back) = some (start + front.length, n) := by
  induction front generalizing start with
  | nil =>
    rw [List.nil_append, longest, usable?_of_fits hfits]
    cases hl : longest t (start + 1) back with
    | none => rfl
    | some p =>
      obtain ⟨i, m⟩ := p
      obtain ⟨j, -, hj, -, -⟩ := longest_spec hl
      have hlt := h _ (List.mem_of_getElem? hj) _ rfl
      rw [better, if_pos (Nat.le_of_lt hlt)]
      rfl
  | cons s front ih =>
    rw [List.cons_append, List.forall_mem_cons] at h
    rw [List.cons_append, longest, ih h.2]
    cases hs : usable? t s with
    | none => simp [better]; omega
    | some m =>
      have hlt := h.1 m (usable?_eq_some_iff.1 hs).1
      rw [better, if_neg (Nat.not_le.2 hlt), List.length_cons, Nat.succ_add_eq_add_succ]

/-- **The rule that finds most**, if no rule asks for more. -/
theorem longestMatch_eq_matched {rules : List (Rule T)} {t : Text} {n : Nat}
    {front back : List Scan} (hscans : rules.map (·.scan t) = front ++ .matched n :: back)
    (hfits : Scan.Fits t (.matched n))
    (h : ∀ s ∈ front ++ back, s ≠ .needMore ∧ ∀ m, s = .matched m → m < n) :
    longestMatch rules t = .matched front.length n := by
  have hnone : ∀ r ∈ rules, r.scan t ≠ .needMore := by
    intro r hr
    have hmem := List.mem_map_of_mem (f := fun r : Rule T ↦ r.scan t) hr
    rw [hscans, List.mem_append, List.mem_cons] at hmem
    rcases hmem with hmem | heq | hmem
    · exact (h _ (List.mem_append_left _ hmem)).1
    · rw [heq]
      nofun
    · exact (h _ (List.mem_append_right _ hmem)).1
  rw [longestMatch_eq_longest hnone, hscans, longest_append hfits fun s hs ↦ (h s hs).2,
    Nat.zero_add]
  rfl

/-! ### A table whose rules are stable -/

/-- What is found in a window is found in every text that the window is a front of; what the window
is too short for goes beyond it. -/
theorem longestMatch_extends {rules : List (Rule T)} {w v : Text}
    (hfits : ∀ r ∈ rules, ∀ t, Scan.Fits t (r.scan t))
    (h : ∀ r ∈ rules, Scan.Extends w (r.scan w) (r.scan (w ++ v))) :
    (∀ i, longestMatch rules w ≠ .needMore i) →
      longestMatch rules (w ++ v) = longestMatch rules w := by
  intro hm
  have hnone := ne_needMore_of_longestMatch hm
  have hscans : rules.map (·.scan (w ++ v)) = rules.map (·.scan w) :=
    List.map_congr_left fun r hr ↦ (h r hr).keep (hnone r hr)
  have husable : ∀ s ∈ rules.map (·.scan w), usable? (w ++ v) s = usable? w s := by
    intro s hs
    obtain ⟨r, hr, rfl⟩ := List.mem_map.1 hs
    cases hs : r.scan w with
    | noMatch => rfl
    | needMore => rfl
    | matched n =>
      have hf := hfits r hr w
      rw [hs] at hf
      obtain ⟨front, back, rfl, rfl, hne, hseam⟩ := hf n rfl
      rw [usable?_of_fits hf]
      refine usable?_eq_some_iff.2 ⟨rfl, Text.size_pos hne, ?_⟩
      rw [List.append_assoc]
      exact Text.isBoundary_size_append front _
  rw [longestMatch_eq_longest hnone, longestMatch_eq_longest, hscans, longest_congr husable]
  intro r hr
  rw [(h r hr).keep (hnone r hr)]
  exact hnone r hr

/-- A match of a text whose front was too short goes beyond that front. -/
theorem longestMatch_grows {rules : List (Rule T)} {w v : Text}
    (hfits : ∀ r ∈ rules, ∀ t, Scan.Fits t (r.scan t))
    (h : ∀ r ∈ rules, Scan.Extends w (r.scan w) (r.scan (w ++ v))) {i : Nat}
    (hm : longestMatch rules w = .needMore i) :
    longestMatch rules (w ++ v) ≠ .noMatch ∧
      ∀ j n, longestMatch rules (w ++ v) = .matched j n → Text.size w < n := by
  obtain ⟨r, hr, hs⟩ := exists_needMore_of_longestMatch hm
  have hr := List.mem_of_getElem? hr
  obtain ⟨hne, hlt⟩ := (h r hr).grow hs
  refine ⟨longestMatch_ne_noMatch hr (hfits r hr _) hne, fun j n hj ↦ ?_⟩
  cases hs' : r.scan (w ++ v) with
  | noMatch => exact absurd hs' hne
  | needMore =>
    obtain ⟨k, hk⟩ := longestMatch_of_needMore hr hs'
    rw [hj] at hk
    cases hk
  | matched m => exact Nat.lt_of_lt_of_le (hlt m hs') (le_of_longestMatch hj hr hs' (hfits r hr _))

/-! ### Unrecognized stretches -/

theorem gapSize_spec (rules : List (Rule T)) (t : Text) :
    ∃ front back, t = front ++ back ∧ gapSize rules t = Text.size front ∧
      (∀ p q, front = p ++ q → q ≠ [] → longestMatch rules (q ++ back) = .noMatch) ∧
      (back ≠ [] → longestMatch rules back ≠ .noMatch) := by
  induction t with
  | nil => exact ⟨[], [], rfl, rfl, by simp, by simp⟩
  | cons c rest ih =>
    obtain ⟨front, back, rfl, hsize, hinside, hbehind⟩ := ih
    by_cases hm : longestMatch rules (c :: (front ++ back)) = .noMatch
    · refine ⟨c :: front, back, rfl, by simp [gapSize, hm, hsize], ?_, hbehind⟩
      intro p q hpq hq
      rcases List.cons_eq_append_iff.1 hpq with ⟨-, rfl⟩ | ⟨p', -, rfl⟩
      · exact hm
      · exact hinside p' q rfl hq
    · refine ⟨[], c :: (front ++ back), rfl, by simp [gapSize, hm], ?_, fun _ ↦ hm⟩
      intro p q hpq hq
      simp_all

/-- **An unrecognized stretch** begins with one character, goes on as long as no rule answers, and
ends where some rule does. -/
theorem unrecognizedSize_spec (rules : List (Rule T)) {t : Text}
    (h : longestMatch rules t = .noMatch) (ht : t ≠ []) :
    ∃ front back, t = front ++ back ∧ unrecognizedSize rules t = Text.size front ∧ front ≠ [] ∧
      (∀ p q, front = p ++ q → q ≠ [] → longestMatch rules (q ++ back) = .noMatch) ∧
      (back ≠ [] → longestMatch rules back ≠ .noMatch) := by
  cases t with
  | nil => exact absurd rfl ht
  | cons c rest =>
    obtain ⟨front, back, rfl, hsize, hinside, hbehind⟩ := gapSize_spec rules rest
    refine ⟨c :: front, back, rfl, by simp [unrecognizedSize, hsize], by simp, ?_, hbehind⟩
    intro p q hpq hq
    rcases List.cons_eq_append_iff.1 hpq with ⟨-, rfl⟩ | ⟨p', -, rfl⟩
    · exact h
    · exact hinside p' q rfl hq

/-- What the size of a gap is known by. -/
theorem gapSize_append {rules : List (Rule T)} {front back : Text}
    (hinside : ∀ p q, front = p ++ q → q ≠ [] → longestMatch rules (q ++ back) = .noMatch)
    (hbehind : back ≠ [] → longestMatch rules back ≠ .noMatch) :
    gapSize rules (front ++ back) = Text.size front := by
  induction front with
  | nil =>
    cases back with
    | nil => rfl
    | cons c rest => rw [List.nil_append, gapSize, if_neg (hbehind (by simp)), Text.size_nil]
  | cons c front ih =>
    have hm : longestMatch rules (c :: (front ++ back)) = .noMatch :=
      hinside [] (c :: front) rfl (by simp)
    rw [List.cons_append, gapSize, if_pos hm, Text.size_cons,
      ih fun p q hpq hq ↦ hinside (c :: p) q (by rw [hpq]; rfl) hq]

/-! ### Line breaks -/

/-- A table whose tokens and stretches never end between a carriage return and its line feed. -/
structure KeepsBreaks (rules : List (Rule T)) : Prop where
  fits : ∀ r ∈ rules, ∀ t, Scan.Fits t (r.scan t)
  /-- No character that ends a line is part of an unrecognized stretch, for some rule answers
  there. -/
  recognizes : ∃ r ∈ rules, ∀ c, Text.isLineBreak c = true → ∀ t, r.scan (c :: t) ≠ .noMatch

/-- The longest match does not tear a line break. -/
theorem KeepsBreaks.seam_matched {rules : List (Rule T)} (h : KeepsBreaks rules)
    {front back : Text} {i n : Nat} (hm : longestMatch rules (front ++ back) = .matched i n)
    (hn : n = Text.size front) : Text.Seam front back := by
  obtain ⟨⟨r, hr, hscan⟩, -, -⟩ := scan_of_longestMatch_eq_matched hm
  obtain ⟨front', back', ht, hn', -, hseam⟩ := h.fits r (List.mem_of_getElem? hr) _ n hscan
  obtain ⟨rfl, rfl⟩ := Text.append_inj_of_size ht (hn ▸ hn')
  exact hseam

/-- Some rule answers where a line ends. -/
theorem KeepsBreaks.longestMatch_ne_noMatch {rules : List (Rule T)} (h : KeepsBreaks rules)
    {c : Char} (hc : Text.isLineBreak c = true) (t : Text) :
    longestMatch rules (c :: t) ≠ .noMatch := by
  obtain ⟨r, hr, hscan⟩ := h.recognizes
  exact Lexicon.longestMatch_ne_noMatch hr (h.fits r hr _) (hscan c hc t)

/-- An unrecognized stretch stays within one line. -/
theorem KeepsBreaks.isUnbroken_unrecognized {rules : List (Rule T)} (h : KeepsBreaks rules)
    {front back : Text} (hinside : ∀ p q, front = p ++ q → q ≠ [] →
      longestMatch rules (q ++ back) = .noMatch) : front.IsUnbroken := by
  intro c hc
  obtain ⟨p, q, rfl⟩ := List.append_of_mem hc
  have hm := hinside p (c :: q) rfl (by simp)
  by_contra hb
  exact h.longestMatch_ne_noMatch (by simpa using hb) (q ++ back) hm

/-! ### Windows -/

/-- A table whose rules are stable on the texts that `P` holds of: what they say of a window that
shows some line to its end goes for every text that begins with the window. -/
structure IsStable (rules : List (Rule T)) (P : Text → Prop) : Prop extends KeepsBreaks rules where
  answers : ∀ r ∈ rules, ∀ w v, P (w ++ v) → w.IsBroken → Text.Seam w v →
    Scan.Extends w (r.scan w) (r.scan (w ++ v))
  /-- The lexer looks at what is left of a text, so that has to be such a text too. -/
  suffix : ∀ s t, P (s ++ t) → P t

/-- A window that more of a text may follow: it ends with a line break, which is not torn. -/
structure IsWindow (w v : Text) : Prop where
  closed : v ≠ [] → ∃ b, w.getLast? = some b ∧ Text.isLineBreak b = true
  seam : Text.Seam w v

theorem IsWindow.isBroken {w v : Text} (h : IsWindow w v) (hv : v ≠ []) : w.IsBroken := by
  obtain ⟨b, hb, hbreak⟩ := h.closed hv
  exact ⟨b, List.mem_of_getLast? hb, hbreak⟩

/-- What has no line break in it shows in every window that shows its beginning. -/
theorem IsWindow.prefix_of_isUnbroken {s w v : Text} (h : IsWindow w v) (hs : s.IsUnbroken)
    (hp : s <+: w ++ v) : s <+: w := by
  by_cases hv : v = []
  · rwa [hv, List.append_nil] at hp
  · refine (List.prefix_or_prefix_of_prefix hp (List.prefix_append w v)).resolve_right fun hw ↦ ?_
    obtain ⟨b, hb, hbreak⟩ := h.isBroken hv
    rw [hs b (hw.subset hb)] at hbreak
    cases hbreak

/-- What is left of a window is a window, unless nothing is left. -/
theorem IsWindow.suffix {s w v : Text} (h : IsWindow (s ++ w) v) (hw : w ≠ []) : IsWindow w v where
  closed hv := by
    have hc := h.closed hv
    rwa [Text.getLast?_append_of_ne_nil s hw] at hc
  seam := (Text.seam_append_left s hw v).1 h.seam

/-- It is one as well if only a front of the rest follows. -/
theorem IsWindow.prefix_right {w u v : Text} (h : IsWindow w (u ++ v)) : IsWindow w u where
  closed hu := h.closed (by simp [hu])
  seam := by
    by_cases hu : u = []
    · rw [hu]
      exact Text.seam_nil_right w
    · exact (Text.seam_append_right w hu v).1 h.seam

theorem IsStable.extends {rules : List (Rule T)} {P : Text → Prop} (h : IsStable rules P)
    {w v : Text} (hP : P (w ++ v)) (hw : IsWindow w v) (hv : v ≠ []) {r : Rule T}
    (hr : r ∈ rules) : Scan.Extends w (r.scan w) (r.scan (w ++ v)) :=
  h.answers r hr w v hP (hw.isBroken hv) hw.seam

/-- **The longest match of a window is that of the text**, unless the table asks for more. -/
theorem IsStable.longestMatch_append {rules : List (Rule T)} {P : Text → Prop}
    (h : IsStable rules P) {w v : Text} (hP : P (w ++ v)) (hw : IsWindow w v)
    (hm : ∀ i, longestMatch rules w ≠ .needMore i) :
    longestMatch rules (w ++ v) = longestMatch rules w := by
  by_cases hv : v = []
  · rw [hv, List.append_nil]
  · exact longestMatch_extends h.fits (fun _ hr ↦ h.extends hP hw hv hr) hm

/-- **What is asked for goes beyond the window**, if there is anything there. -/
theorem IsStable.longestMatch_grows {rules : List (Rule T)} {P : Text → Prop}
    (h : IsStable rules P) {w v : Text} (hP : P (w ++ v)) (hw : IsWindow w v) (hv : v ≠ [])
    {i : Nat} (hm : longestMatch rules w = .needMore i) :
    longestMatch rules (w ++ v) ≠ .noMatch ∧
      ∀ j n, longestMatch rules (w ++ v) = .matched j n → Text.size w < n :=
  Lexicon.longestMatch_grows h.fits (fun _ hr ↦ h.extends hP hw hv hr) hm

/-- Where a table answers in a window it answers in the text. -/
theorem IsStable.longestMatch_ne_noMatch {rules : List (Rule T)} {P : Text → Prop}
    (h : IsStable rules P) {w v : Text} (hP : P (w ++ v)) (hw : IsWindow w v)
    (hm : longestMatch rules w ≠ .noMatch) : longestMatch rules (w ++ v) ≠ .noMatch := by
  by_cases hv : v = []
  · rwa [hv, List.append_nil]
  · by_cases hmore : ∃ i, longestMatch rules w = .needMore i
    · obtain ⟨i, hi⟩ := hmore
      exact (h.longestMatch_grows hP hw hv hi).1
    · rw [h.longestMatch_append hP hw fun i hi ↦ hmore ⟨i, hi⟩]
      exact hm

/-- **An unrecognized stretch of a window is one of the text**: it ends before the line does. -/
theorem IsStable.unrecognizedSize_append {rules : List (Rule T)} {P : Text → Prop}
    (h : IsStable rules P) {w v : Text} (hP : P (w ++ v)) (hw : IsWindow w v)
    (hm : longestMatch rules w = .noMatch) (hne : w ≠ []) :
    unrecognizedSize rules (w ++ v) = unrecognizedSize rules w := by
  by_cases hv : v = []
  · rw [hv, List.append_nil]
  obtain ⟨front, back, rfl, hsize, hfront, hinside, hbehind⟩ := unrecognizedSize_spec rules hm hne
  have hback : back ≠ [] := by
    rintro rfl
    rw [List.append_nil] at hw
    exact (hw.isBroken hv).not_isUnbroken (h.isUnbroken_unrecognized hinside)
  rw [List.append_assoc] at hP ⊢
  have hsuffix : ∀ p q, front = p ++ q → P (q ++ back ++ v) ∧ IsWindow (q ++ back) v := by
    rintro p q rfl
    rw [List.append_assoc] at hP hw
    refine ⟨?_, hw.suffix (by simp [hback])⟩
    rw [List.append_assoc]
    exact h.suffix p _ hP
  rw [hsize]
  obtain ⟨c, rest, rfl⟩ := List.exists_cons_of_ne_nil hfront
  rw [List.cons_append, unrecognizedSize, Text.size_cons, gapSize_append]
  · intro p q hpq hq
    obtain ⟨hP', hw'⟩ := hsuffix (c :: p) q (by rw [hpq]; rfl)
    have hq' := hinside (c :: p) q (by rw [hpq]; rfl) hq
    rw [← List.append_assoc, h.longestMatch_append hP' hw' (by simp [hq']), hq']
  · intro _
    obtain ⟨hP', hw'⟩ := hsuffix (c :: rest) [] (by simp)
    exact h.longestMatch_ne_noMatch hP' hw' (hbehind hback)

end LexFront.Lexicon
