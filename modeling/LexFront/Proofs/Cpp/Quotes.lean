import LexFront.Proofs.Cpp.Scanning

/-!
# Behind an opening quote

A literal between quotes is settled within its line, and in one of three ways: its quote is closed,
the line ends before that, or the text does. Each of them is said here without the scanner, and the
scanner is shown to tell them apart.

Key facts:

* `isOpen_iff`: more is asked for exactly as long as the quote is open.
* `isBrokenOff_iff`: there is no literal exactly if the line ends while the quote is open.
* `exists_body_of_matched`: otherwise the quote is closed within its line.
-/

set_option autoImplicit false

namespace LexFront.Cpp

/-- What follows a quote that is not closed: characters of its line other than the quote, and
backslashes with the character behind them, which is missing if the text ends there. -/
inductive IsOpen (quote : Char) : Text → Prop where
  | nil : IsOpen quote []
  | lone : IsOpen quote ['\\']
  | plain {c : Char} {t : Text} : c ≠ quote → c ≠ '\\' → Text.isLineBreak c = false →
      IsOpen quote t → IsOpen quote (c :: t)
  | escape {c : Char} {t : Text} : Text.isLineBreak c = false → IsOpen quote t →
      IsOpen quote ('\\' :: c :: t)

/-- What follows a quote that is not closed when its line ends. -/
def IsBrokenOff (quote : Char) (t : Text) : Prop :=
  ∃ body b rest, t = body ++ b :: rest ∧ IsOpen quote body ∧ Text.isLineBreak b = true

variable {quote : Char}

theorem IsBrokenOff.append {t : Text} (h : IsBrokenOff quote t) (v : Text) :
    IsBrokenOff quote (t ++ v) := by
  obtain ⟨body, b, rest, rfl, hopen, hb⟩ := h
  exact ⟨body, b, rest ++ v, by simp, hopen, hb⟩

theorem IsBrokenOff.plain {c : Char} {t : Text} (hq : c ≠ quote) (hc : c ≠ '\\')
    (hbreak : Text.isLineBreak c = false) (h : IsBrokenOff quote t) :
    IsBrokenOff quote (c :: t) := by
  obtain ⟨body, b, rest, rfl, hopen, hb⟩ := h
  exact ⟨c :: body, b, rest, rfl, .plain hq hc hbreak hopen, hb⟩

theorem IsBrokenOff.escape {c : Char} {t : Text} (hbreak : Text.isLineBreak c = false)
    (h : IsBrokenOff quote t) : IsBrokenOff quote ('\\' :: c :: t) := by
  obtain ⟨body, b, rest, rfl, hopen, hb⟩ := h
  exact ⟨'\\' :: c :: body, b, rest, rfl, .escape hbreak hopen, hb⟩

theorem after_eq_noMatch_iff {s : Scan} {n : Nat} : s.after n = .noMatch ↔ s = .noMatch := by
  cases s <;> simp [Scan.after]

theorem after_eq_needMore_iff {s : Scan} {n : Nat} : s.after n = .needMore ↔ s = .needMore := by
  cases s <;> simp [Scan.after]

theorem after_eq_matched_iff {s : Scan} {n m : Nat} :
    s.after n = .matched m ↔ ∃ k, s = .matched k ∧ m = n + k := by
  cases s <;> simp [Scan.after, eq_comm]

/-! ### The three ways -/

/-- **More is asked for as long as the quote is open.** -/
theorem isOpen_iff {t : Text} :
    IsOpen quote t ↔ Scan.throughQuote quote false t = .needMore := by
  constructor
  · intro h
    induction h with
    | nil => rfl
    | lone => rfl
    | plain hq hc hbreak _ ih =>
      rw [Scan.throughQuote_cons hc, if_neg (by simp [hbreak]), if_neg hq, ih]
      rfl
    | escape hbreak _ ih =>
      rw [Scan.throughQuote, if_neg (by simp [hbreak]), ih]
      rfl
  · intro h
    fun_induction Scan.throughQuote quote false t with
    | case1 => exact .nil
    | case2 => exact .lone
    | case3 c rest _ => cases h
    | case4 c rest hc ih => exact .escape (by simpa using hc) (ih (after_eq_needMore_iff.1 h))
    | case5 c rest _ _ _ => cases h
    | case6 rest _ _ _ => cases h
    | case7 c rest hnil hcons hc hq ih =>
      exact .plain hq (Scan.ne_backslash hnil hcons) (by simpa using hc)
        (ih (after_eq_needMore_iff.1 h))

/-- **There is no literal if the line ends while the quote is open.** -/
theorem isBrokenOff_iff {t : Text} :
    IsBrokenOff quote t ↔ Scan.throughQuote quote false t = .noMatch := by
  constructor
  · rintro ⟨body, b, rest, rfl, hopen, hb⟩
    have hslash : b ≠ '\\' := by
      rintro rfl
      cases hb
    induction hopen with
    | nil => rw [List.nil_append, Scan.throughQuote_cons hslash, if_pos (by simp [hb])]
    | lone => rw [List.singleton_append, Scan.throughQuote, if_pos (by simp [hb])]
    | plain hq hc hbreak _ ih =>
      rw [List.cons_append, Scan.throughQuote_cons hc, if_neg (by simp [hbreak]), if_neg hq, ih]
      rfl
    | escape hbreak _ ih =>
      rw [List.cons_append, List.cons_append, Scan.throughQuote, if_neg (by simp [hbreak]), ih]
      rfl
  · intro h
    fun_induction Scan.throughQuote quote false t with
    | case1 => cases h
    | case2 => cases h
    | case3 c rest hc => exact ⟨['\\'], c, rest, rfl, .lone, by simpa using hc⟩
    | case4 c rest hc ih => exact .escape (by simpa using hc) (ih (after_eq_noMatch_iff.1 h))
    | case5 c rest _ _ hc => exact ⟨[], c, rest, rfl, .nil, by simpa using hc⟩
    | case6 rest _ _ _ => cases h
    | case7 c rest hnil hcons hc hq ih =>
      exact .plain hq (Scan.ne_backslash hnil hcons) (by simpa using hc)
        (ih (after_eq_noMatch_iff.1 h))

/-- **A literal is closed within its line.** -/
theorem exists_body_of_matched {t : Text} {n : Nat}
    (h : Scan.throughQuote quote false t = .matched n) :
    ∃ body rest, t = body ++ quote :: rest ∧ n = Text.size (body ++ [quote]) ∧ body.IsUnbroken := by
  -- What stands in front of the rest of a literal belongs to it.
  have hfront : ∀ {s t : Text} {n : Nat}, s.IsUnbroken →
      (∃ body rest, t = body ++ quote :: rest ∧ n = Text.size (body ++ [quote]) ∧
        body.IsUnbroken) →
      ∃ body rest, s ++ t = body ++ quote :: rest ∧
        Text.size s + n = Text.size (body ++ [quote]) ∧ body.IsUnbroken := by
    rintro s t n hs ⟨body, rest, rfl, rfl, hbody⟩
    refine ⟨s ++ body, rest, by simp, by simp, fun c hc ↦ ?_⟩
    rcases List.mem_append.1 hc with hc | hc
    · exact hs c hc
    · exact hbody c hc
  fun_induction Scan.throughQuote quote false t generalizing n with
  | case1 => cases h
  | case2 => cases h
  | case3 c rest _ => cases h
  | case4 c rest hc ih =>
    obtain ⟨m, hm, rfl⟩ := after_eq_matched_iff.1 h
    have hsize : 1 + c.utf8Size = Text.size ['\\', c] := by
      simp only [Text.size_cons, Text.size_nil]
      rfl
    rw [hsize]
    refine hfront (s := ['\\', c]) ?_ (ih hm)
    rw [Text.isUnbroken_cons, Text.isUnbroken_cons]
    exact ⟨rfl, by simpa using hc, Text.isUnbroken_nil⟩
  | case5 c rest _ _ _ => cases h
  | case6 rest _ _ _ =>
    obtain rfl := Scan.matched.inj h
    exact ⟨[], rest, rfl, by simp, Text.isUnbroken_nil⟩
  | case7 c rest _ _ hc _ ih =>
    obtain ⟨m, hm, rfl⟩ := after_eq_matched_iff.1 h
    refine hfront (s := [c]) ?_ (ih hm)
    rw [Text.isUnbroken_cons]
    exact ⟨by simpa using hc, Text.isUnbroken_nil⟩

/-! ### Literals with their encoding -/

/-- What begins with an encoding or none, and a quote. -/
theorem scanQuoted_ne_noMatch {t : Text} (h : scanQuoted quote t ≠ .noMatch) :
    ∃ e rest, (e = [] ∨ e ∈ encodings) ∧ t = e ++ quote :: rest ∧ scanQuoted quote t =
      (Scan.throughQuote quote false rest).after (e.length + quote.utf8Size) := by
  obtain ⟨e, rest, rfl, hsize, he⟩ := encoding_spec t
  cases rest with
  | nil =>
    rw [List.append_nil] at hsize h
    exact absurd (scanQuoted_encoding hsize) h
  | cons c rest =>
    have hscan : scanQuoted quote (e ++ c :: rest) = _ := scanQuoted_append_cons hsize
    by_cases hc : c = quote
    · subst hc
      rw [if_pos rfl] at hscan
      exact ⟨e, rest, he, rfl, hscan⟩
    · rw [if_neg hc] at hscan
      exact absurd hscan h

/-- Behind an encoding a quote is no part of it. -/
theorem encodingSize_quote {quote : Char} (hq : quote = '\'' ∨ quote = '"') {e : Text}
    (he : e = [] ∨ e ∈ encodings) (t : Text) : encodingSize (e ++ quote :: t) = e.length := by
  simp only [encodings, List.mem_cons, List.not_mem_nil, or_false] at he
  rcases hq with rfl | rfl <;> rcases he with rfl | rfl | rfl | rfl | rfl <;> rfl

/-- What is scanned behind a quote. -/
theorem scanQuoted_quote {quote : Char} (hq : quote = '\'' ∨ quote = '"') (k : Text) :
    scanQuoted quote (quote :: k) =
      (Scan.throughQuote quote false k).after quote.utf8Size := by
  have h : scanQuoted quote ([] ++ quote :: k) = _ :=
    scanQuoted_append_cons (encodingSize_quote hq (.inl rfl) k)
  rw [if_pos rfl] at h
  simpa using h

end LexFront.Cpp
