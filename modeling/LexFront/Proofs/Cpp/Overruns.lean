import LexFront.Proofs.Cpp.PlainRules
import Mathlib.Data.List.Infix

/-!
# Matches that are cut short

A window may end at a splice. If a match goes up to there, more is asked for, so that a token is not
torn just because a splice stands in it. But some rules look further than they match, and then a
match ends before the splice although it would not if more were in sight: two points are no
punctuator and three are, and a sign or a separator belongs to a numeral only if a digit follows.

Key facts:

* `Settled.scan_append`: apart from these cases the plain rules stay with what they found.
* `isCutShort_of_overruns`: in these cases the token found has been cut short.
* `exists_longer_of_isCutShort`: and some rule finds a longer one as soon as all is in sight.
-/

set_option autoImplicit false

namespace LexFront.Cpp

/-- The plain rules have found what they can find in some characters: nothing that starts there is
open, and no match that could go on reaches their end. -/
structure Settled (k : Text) : Prop where
  ne_nil : k ≠ []
  closed : ∀ p ∈ plainRules, p.scan k ≠ .needMore
  inside : ∀ p ∈ plainRules, p.extendable = true → p.scan k ≠ .matched (Text.size k)

/-- A longer match appears when `v` follows the characters `k`. -/
inductive Overruns (k v : Text) : Prop where
  | points : k = ['.', '.'] → ['.'] <+: v → Overruns k v
  | digraphs : k = ['%', ':', '%'] → [':'] <+: v → Overruns k v
  | numeral : Numeral.starts k = true →
      Numeral.suffixed (Numeral.bodySize k).1 k < (Numeral.bodySize (k ++ v)).1 → Overruns k v

/-- Whether a token is not all of a punctuator or of the digits of a numeral that begins with it,
the rest of which follows. -/
def isCutShort (x rest : Text) : Bool :=
  x == ['.'] && ['.', '.'].isPrefixOf rest || x == ['%', ':'] && ['%', ':'].isPrefixOf rest ||
    Numeral.starts (x ++ rest) && decide (Text.size x < (Numeral.bodySize (x ++ rest)).1)

theorem isCutShort_iff {x rest : Text} : isCutShort x rest = true ↔
    x = ['.'] ∧ ['.', '.'] <+: rest ∨ x = ['%', ':'] ∧ ['%', ':'] <+: rest ∨
      Numeral.starts (x ++ rest) = true ∧ Text.size x < (Numeral.bodySize (x ++ rest)).1 := by
  simp only [isCutShort, Bool.or_eq_true, Bool.and_eq_true, beq_iff_eq, decide_eq_true_eq,
    List.isPrefixOf_iff_prefix, or_assoc]

/-! ### What stays as it is -/

/-- A punctuator that is not there yet begins with one that is, but for two of them. -/
theorem operator_prefix : ∀ op ∈ operators.map String.toList, ∀ k ∈ op.inits,
    k = [] ∨ scanOperator k = .matched (Text.size k) ∨ (k = ['.', '.'] ∧ op = ['.', '.', '.']) ∨
      (k = ['%', ':', '%'] ∧ op = ['%', ':', '%', ':']) := by
  decide +kernel

theorem Settled.scanOperator_append {k v : Text} (h : Settled k) (hno : ¬ Overruns k v) :
    scanOperator (k ++ v) = scanOperator k := by
  refine scanOperator_congr fun op hop ↦ ⟨fun hp ↦ ?_, fun hp ↦ hp.trans (List.prefix_append k v)⟩
  rcases List.prefix_or_prefix_of_prefix hp (List.prefix_append k v) with hk | hk
  · exact hk
  · rcases operator_prefix op hop k ((List.mem_inits k op).2 hk) with
      hnil | hself | ⟨rfl, rfl⟩ | ⟨rfl, rfl⟩
    · exact absurd hnil h.ne_nil
    · exact absurd hself (h.inside _ operator_mem_plainRules rfl)
    · exact absurd (.points rfl ((List.prefix_append_right_inj ['.', '.']).1 hp)) hno
    · exact absurd (.digraphs rfl ((List.prefix_append_right_inj ['%', ':', '%']).1 hp)) hno

/-- **What the plain rules found stays as it is** when more characters follow, unless a longer match
appears. -/
theorem Settled.scan_append {k v : Text} (h : Settled k) (hno : ¬ Overruns k v) :
    ∀ p ∈ plainRules, p.scan (k ++ v) = p.scan k := by
  have hidentifier : scanIdentifier k ≠ .matched (Text.size k) :=
    h.inside _ identifier_mem_plainRules rfl
  have hoperator : scanOperator k ≠ .matched (Text.size k) :=
    h.inside _ operator_mem_plainRules rfl
  have hnumeral : ∀ floating, Numeral.scan floating k ≠ .matched (Text.size k) := by
    intro floating
    obtain ⟨kind, hmem⟩ := numeral_mem_plainRules floating
    exact h.inside _ hmem rfl
  have hslash : k ≠ ['/'] := by
    rintro rfl
    exact hoperator (by decide)
  have hpoint : k ≠ ['.'] := by
    rintro rfl
    exact hoperator (by decide)
  have hencodings : k ∉ encodings := by
    have hall : ∀ e ∈ encodings, scanIdentifier e = .matched (Text.size e) := by decide
    exact fun hk ↦ hidentifier (hall k hk)
  have hword : Text.identifier (k ++ v) = Text.identifier k := by
    refine Text.identifier_append h.ne_nil (fun hself ↦ hidentifier ?_) v
    rw [scanIdentifier, hself, Scan.ofText, Scan.ofSize,
      if_neg fun hs ↦ h.ne_nil (Text.size_eq_zero_iff.1 hs)]
  have hdigits : ∀ floating, Numeral.scan floating (k ++ v) = Numeral.scan floating k := by
    intro floating
    rcases Numeral.scan_append_of_inside h.ne_nil hpoint hnumeral floating v with hs | ⟨hs, hlt⟩
    · exact hs
    · exact absurd (.numeral hs hlt) hno
  intro p hp
  have hclosed := h.closed p hp
  have hinside := h.inside p hp
  simp only [plainRules, List.mem_cons, List.not_mem_nil, or_false] at hp
  rcases hp with rfl | rfl | rfl | rfl | rfl | rfl | rfl | rfl | rfl
  · exact scanLineComment_append h.ne_nil hslash (hinside rfl) v
  · exact (extends_scanBlockComment h.ne_nil hslash v).keep hclosed
  · simp only [scanKeyword, hword]
  · simp only [scanIdentifier, hword]
  · exact hdigits false
  · exact hdigits true
  · exact scanQuoted_append h.ne_nil hencodings hclosed v
  · exact scanQuoted_append h.ne_nil hencodings hclosed v
  · exact h.scanOperator_append hno

/-! ### What a longer match leaves behind -/

namespace Numeral

theorem starts_spec {t : Text} (h : starts t = true) : ∃ c rest, t = c :: rest ∧
    (c.isDigit = true ∨ c = '.' ∧ ∃ d r, rest = d :: r ∧ d.isDigit = true) := by
  fun_cases starts t with
  | case1 d rest => exact ⟨'.', d :: rest, rfl, .inr ⟨rfl, d, rest, rfl, h⟩⟩
  | case2 c rest hne =>
    rw [starts] at h
    · exact ⟨c, rest, rfl, .inl h⟩
    · exact hne
  | case3 => cases h

end Numeral

/-- A numeral starts with no character that another rule but that for punctuators starts with. -/
theorem starts_of_isStart {c : Char} (hc : Numeral.isStart c = true) :
    c ≠ '/' ∧ Text.isIdentifierStart c = false ∧
      startsQuoted '\'' c = false ∧ startsQuoted '"' c = false := by
  have hne : ∀ d, Numeral.isStart d = false → (c == d) = false := by
    rintro d hd
    rw [beq_eq_false_iff_ne]
    rintro rfl
    rw [hd] at hc
    cases hc
  refine ⟨beq_eq_false_iff_ne.1 (hne '/' rfl), ?_, ?_, ?_⟩
  · rw [Text.isIdentifierStart, hne '_' rfl, Bool.false_or, ← Bool.not_eq_true, Text.isAlpha_iff]
    simp only [Numeral.isStart, Bool.or_eq_true, beq_iff_eq, Char.isDigit, Bool.and_eq_true,
      decide_eq_true_eq, ge_iff_le, UInt32.le_iff_toNat_le] at hc
    rcases hc with hc | rfl
    · have h₀ : '0'.val.toNat = 48 := rfl
      have h₉ : '9'.val.toNat = 57 := rfl
      have hA : 'A'.val.toNat = 65 := rfl
      have ha : 'a'.val.toNat = 97 := rfl
      omega
    · decide
  · rw [startsQuoted, hne _ rfl, hne 'u' rfl, hne 'U' rfl, hne 'L' rfl]
    rfl
  · rw [startsQuoted, hne _ rfl, hne 'u' rfl, hne 'U' rfl, hne 'L' rfl]
    rfl

/-- Where a numeral starts one of two rules finds it. -/
theorem exists_numeral_of_starts {k : Text} (hk : Numeral.starts k = true) :
    ∃ p ∈ plainRules, p.scan k = .matched (Numeral.suffixed (Numeral.bodySize k).1 k) := by
  obtain ⟨kind, hmem⟩ := numeral_mem_plainRules (Numeral.bodySize k).2
  refine ⟨_, hmem, ?_⟩
  show Numeral.scan (Numeral.bodySize k).2 k = _
  rw [Numeral.scan_eq, if_pos ⟨hk, rfl⟩]

/-- Where a numeral starts, a point is the only punctuator. -/
theorem scanOperator_of_starts {k : Text} (hk : Numeral.starts k = true) {n : Nat}
    (h : scanOperator k = .matched n) : n ≤ 1 := by
  obtain ⟨m, hscan, -, rfl | ⟨op, hop, ⟨r, rfl⟩, rfl⟩⟩ := scanOperator_spec k
  · rw [hscan] at h
    cases h
  · have hdigit : ∀ op ∈ operators.map String.toList, op.head?.any Char.isDigit = false := by decide
    have hpoint : ∀ op ∈ operators.map String.toList, op.head? = some '.' →
        Text.size op ≤ 1 ∨ op.tail ≠ [] ∧ op.tail.head?.any Char.isDigit = false := by decide
    rw [hscan] at h
    have hn : n = Text.size op := Scan.eq_of_ofSize h
    rw [hn]
    obtain ⟨c, rest, hcons, hc⟩ := Numeral.starts_spec hk
    cases op with
    | nil => exact Nat.zero_le _
    | cons d op =>
      obtain ⟨rfl, hrest⟩ := List.cons.inj hcons
      rcases hc with hc | ⟨rfl, e, r', rfl, he⟩
      · have hd := hdigit _ hop
        rw [List.head?_cons, Option.any_some, hc] at hd
        cases hd
      · rcases hpoint _ hop rfl with hsize | ⟨hne, hhead⟩
        · exact hsize
        · cases op with
          | nil => exact absurd rfl hne
          | cons f op =>
            obtain ⟨rfl, -⟩ := List.cons.inj hrest
            rw [List.tail_cons, List.head?_cons, Option.any_some, he] at hhead
            cases hhead

/-- Where a numeral starts no rule finds more than the numeral. -/
theorem le_of_starts {k : Text} (hk : Numeral.starts k = true) {p : PlainRule}
    (hp : p ∈ plainRules) {n : Nat} (h : p.scan k = .matched n) :
    n ≤ Numeral.suffixed (Numeral.bodySize k).1 k := by
  have hpos : 1 ≤ Numeral.suffixed (Numeral.bodySize k).1 k :=
    Nat.le_add_right_of_le (Numeral.bodySize_pos hk)
  have hnumeral : ∀ floating, Numeral.scan floating k = .matched n →
      n ≤ Numeral.suffixed (Numeral.bodySize k).1 k := by
    intro floating hs
    rw [Numeral.scan_eq] at hs
    split at hs
    · exact Nat.le_of_eq (Scan.matched.inj hs).symm
    · cases hs
  obtain ⟨c, rest, rfl, hc⟩ := Numeral.starts_spec hk
  have hstart : Numeral.isStart c = true := by
    rcases hc with hc | ⟨rfl, -⟩
    · rw [Numeral.isStart, hc]
      rfl
    · rfl
  obtain ⟨hslash, hword, hcharacter, hstring⟩ := starts_of_isStart hstart
  have hslash : (c == '/') = false := beq_eq_false_iff_ne.2 hslash
  have hplain : p.starts c ≠ false := by
    intro hs
    rw [(plain_of_mem hp).cons c rest hs] at h
    cases h
  simp only [plainRules, List.mem_cons, List.not_mem_nil, or_false] at hp
  rcases hp with rfl | rfl | rfl | rfl | rfl | rfl | rfl | rfl | rfl
  · exact absurd hslash hplain
  · exact absurd hslash hplain
  · exact absurd hword hplain
  · exact absurd hword hplain
  · exact hnumeral false h
  · exact hnumeral true h
  · exact absurd hcharacter hplain
  · exact absurd hstring hplain
  · exact (scanOperator_of_starts hk h).trans hpos

/-- **Where a longer match appears the token found has been cut short.** -/
theorem isCutShort_of_overruns {k u r v : Text} {i : Nat} (h : Overruns k v) (hk : k = u ++ r)
    (hm : plainMatch k = some (i, Text.size u)) : isCutShort u (r ++ v) = true := by
  rw [isCutShort_iff]
  cases h with
  | points hpoints hv =>
    have hfound : plainMatch ['.', '.'] = some (10, 1) := by decide
    rw [hpoints, hfound, Option.some.injEq, Prod.mk.injEq] at hm
    obtain ⟨rfl, rfl⟩ :=
      Text.append_inj_of_size (s := ['.']) (t := ['.']) (hpoints.symm.trans hk) hm.2
    exact .inl ⟨rfl, (List.prefix_append_right_inj ['.']).2 hv⟩
  | digraphs hdigraphs hv =>
    have hfound : plainMatch ['%', ':', '%'] = some (10, 2) := by decide
    rw [hdigraphs, hfound, Option.some.injEq, Prod.mk.injEq] at hm
    obtain ⟨rfl, rfl⟩ :=
      Text.append_inj_of_size (s := ['%', ':']) (t := ['%']) (hdigraphs.symm.trans hk) hm.2
    exact .inr (.inl ⟨rfl, (List.prefix_append_right_inj ['%']).2 hv⟩)
  | numeral hs hlt =>
    obtain ⟨j, p, -, -, -, hp, hscan, -⟩ := plainMatch_spec hm
    have hle := le_of_starts hs (List.mem_of_getElem? hp) hscan
    have hne : k ≠ [] := by
      rintro rfl
      cases hs
    have hpoint : k ≠ ['.'] := by
      rintro rfl
      cases hs
    rw [← List.append_assoc, ← hk, Numeral.starts_append hne hpoint]
    exact .inr (.inr ⟨hs, Nat.lt_of_le_of_lt hle hlt⟩)

/-- **Some rule finds more than a token that has been cut short.** -/
theorem exists_longer_of_isCutShort {u r : Text} (h : isCutShort u r = true) :
    ∃ p ∈ plainRules, ∃ n, p.scan (u ++ r) = .matched n ∧ Text.size u < n := by
  have hoperator : ∀ op ∈ operators.map String.toList, op <+: u ++ r → Text.size u < Text.size op →
      ∃ p ∈ plainRules, ∃ n, p.scan (u ++ r) = .matched n ∧ Text.size u < n := by
    intro op hop hfront hlt
    obtain ⟨n, hscan, hall, -⟩ := scanOperator_spec (u ++ r)
    have hn : Text.size u < n := Nat.lt_of_lt_of_le hlt (hall op hop hfront)
    exact ⟨_, operator_mem_plainRules, n, hscan.trans (if_neg (by omega)), hn⟩
  rcases isCutShort_iff.1 h with ⟨rfl, hr⟩ | ⟨rfl, hr⟩ | ⟨hs, hlt⟩
  · exact hoperator ['.', '.', '.'] (by decide) ((List.prefix_append_right_inj ['.']).2 hr)
      (by decide)
  · exact hoperator ['%', ':', '%', ':'] (by decide)
      ((List.prefix_append_right_inj ['%', ':']).2 hr) (by decide)
  · have hn : Text.size u < Numeral.suffixed (Numeral.bodySize (u ++ r)).1 (u ++ r) :=
      Nat.lt_add_right _ hlt
    obtain ⟨p, hp, hscan⟩ := exists_numeral_of_starts hs
    exact ⟨p, hp, _, hscan, hn⟩

end LexFront.Cpp
