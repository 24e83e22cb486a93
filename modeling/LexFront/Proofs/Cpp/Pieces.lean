import LexFront.Cpp.Splice
import LexFront.Proofs.Lexicon.Matching

/-!
# Pieces of a spliced text

A token of a spliced text is found among the characters that are left when the splices are gone, and
is then looked up in the text as it was written. The way back is a cut between two pieces: the
shortest run of pieces with the characters of the token ends with the last of these characters, so
that a token never ends in a splice.

Key facts:

* `pieces_split`: a cut between two pieces is a cut of the text, and each half has its own pieces.
* `pieces_append`: so is a cut that tears neither a splice nor a line break.
* `writtenSize_spec`: where a token that was found among the characters ends in the text.
* `fits_scanPieces`: what fits among the characters fits in the text.
-/

set_option autoImplicit false

namespace LexFront.Cpp

/-- Some pieces as they stand in the text. -/
def writtenText (ps : List Piece) : Text := ps.flatMap Piece.text

@[simp] theorem writtenText_nil : writtenText [] = [] := rfl

@[simp] theorem writtenText_cons (p : Piece) (ps : List Piece) :
    writtenText (p :: ps) = p.text ++ writtenText ps := rfl

@[simp] theorem writtenText_append (ps qs : List Piece) :
    writtenText (ps ++ qs) = writtenText ps ++ writtenText qs := List.flatMap_append

@[simp] theorem writtenText_pieces (t : Text) : writtenText (pieces t) = t := flatten_pieces t

@[simp] theorem keptText_nil : keptText [] = [] := rfl

@[simp] theorem keptText_cons_kept (c : Char) (ps : List Piece) :
    keptText (.kept c :: ps) = c :: keptText ps := rfl

@[simp] theorem keptText_cons_splice (b : Text) (ps : List Piece) :
    keptText (.splice b :: ps) = keptText ps := rfl

@[simp] theorem unsplice_nil : unsplice [] = [] := rfl

/-! ### Cuts between pieces -/

/-- A character is kept, unless it is a backslash right before a line break. -/
theorem pieces_cons_of_kept {c : Char} {t : Text}
    (h : c = '\\' → ∀ b, t.head? = some b → Text.isLineBreak b = false) :
    pieces (c :: t) = .kept c :: pieces t := by
  rw [pieces]
  · rintro r hc rfl
    exact absurd (h hc _ rfl) (by decide)
  · rintro r hc rfl
    exact absurd (h hc _ rfl) (by decide)
  · rintro r hc rfl
    exact absurd (h hc _ rfl) (by decide)

theorem unsplice_cons {c : Char} (hc : c ≠ '\\') (t : Text) :
    unsplice (c :: t) = c :: unsplice t := by
  rw [unsplice, pieces_cons_of_kept fun h ↦ absurd h hc]
  rfl

theorem pieces_return {t : Text} (h : t.head? ≠ some '\n') :
    pieces ('\\' :: '\r' :: t) = .splice ['\r'] :: pieces t := by
  rw [pieces]
  rintro r rfl
  exact h rfl

/-- A splice hides one line break. -/
theorem mem_of_splice {t b : Text} (h : Piece.splice b ∈ pieces t) :
    b ∈ [['\r', '\n'], ['\r'], ['\n']] := by
  fun_induction pieces t with
  | case1 rest ih =>
    rcases List.mem_cons.1 h with h | h
    · rw [Piece.splice.inj h]
      simp
    · exact ih h
  | case2 rest _ ih =>
    rcases List.mem_cons.1 h with h | h
    · rw [Piece.splice.inj h]
      simp
    · exact ih h
  | case3 rest ih =>
    rcases List.mem_cons.1 h with h | h
    · rw [Piece.splice.inj h]
      simp
    · exact ih h
  | case4 c rest _ _ _ ih =>
    rcases List.mem_cons.1 h with h | h
    · cases h
    · exact ih h
  | case5 => cases h

/-- Of a character that is kept the pieces know nothing but this. -/
theorem head?_of_kept {c : Char} {t : Text}
    (_h₁ : ∀ r, c = '\\' → t = '\r' :: '\n' :: r → False)
    (h₂ : ∀ r, c = '\\' → t = '\r' :: r → False) (h₃ : ∀ r, c = '\\' → t = '\n' :: r → False) :
    c = '\\' → ∀ b, t.head? = some b → Text.isLineBreak b = false := by
  intro hc b hb
  cases t with
  | nil => cases hb
  | cons d t =>
    obtain rfl := Option.some.inj hb
    cases hd : Text.isLineBreak d with
    | false => rfl
    | true =>
      rcases Text.isLineBreak_iff.1 hd with rfl | rfl
      · exact absurd rfl (h₃ t hc)
      · exact absurd rfl (h₂ t hc)

/-- What a piece leaves after it in a longer text does not change what it is. -/
theorem head?_of_isPrefix {s t : Text} {c : Char} (h : s <+: t) (hs : s.head? = some c) :
    t.head? = some c := by
  obtain ⟨r, rfl⟩ := h
  rw [List.head?_append, hs]
  rfl

/-- **A cut between two pieces** is a cut of the text, and each half has its own pieces. -/
theorem pieces_split {t : Text} {ps qs : List Piece} (h : pieces t = ps ++ qs) :
    t = writtenText ps ++ writtenText qs ∧ pieces (writtenText ps) = ps ∧
      pieces (writtenText qs) = qs := by
  have ht : t = writtenText ps ++ writtenText qs := by
    rw [← writtenText_append, ← h, writtenText_pieces]
  refine ⟨ht, ?_⟩
  -- The first half begins like the text that it is cut from.
  have hfront : ∀ {r : Text} {ps : List Piece}, pieces r = ps ++ qs → writtenText ps <+: r :=
    fun {r ps} hr ↦ ⟨writtenText qs, by rw [← writtenText_append, ← hr, writtenText_pieces]⟩
  clear ht
  fun_induction pieces t generalizing ps with
  | case1 rest ih =>
    cases ps with
    | nil =>
      rw [List.nil_append] at h
      exact ⟨rfl, by rw [← h]; simp [Piece.text, pieces]⟩
    | cons p ps =>
      obtain ⟨rfl, hrest⟩ := List.cons.inj h
      exact ⟨congrArg _ (ih hrest).1, (ih hrest).2⟩
  | case2 rest hne ih =>
    have hhead : rest.head? ≠ some '\n' := by
      intro hh
      cases rest with
      | nil => cases hh
      | cons c rest => exact hne rest (by rw [Option.some.inj hh])
    cases ps with
    | nil =>
      rw [List.nil_append] at h
      exact ⟨rfl, by rw [← h]; simp [Piece.text, pieces_return hhead]⟩
    | cons p ps =>
      obtain ⟨rfl, hrest⟩ := List.cons.inj h
      refine ⟨?_, (ih hrest).2⟩
      have hps : (writtenText ps).head? ≠ some '\n' := fun hh ↦
        hhead (head?_of_isPrefix (hfront hrest) hh)
      exact (pieces_return hps).trans (congrArg _ (ih hrest).1)
  | case3 rest ih =>
    cases ps with
    | nil =>
      rw [List.nil_append] at h
      exact ⟨rfl, by rw [← h]; simp [Piece.text, pieces]⟩
    | cons p ps =>
      obtain ⟨rfl, hrest⟩ := List.cons.inj h
      exact ⟨congrArg _ (ih hrest).1, (ih hrest).2⟩
  | case4 c rest h₁ h₂ h₃ ih =>
    have hkept := head?_of_kept h₁ h₂ h₃
    cases ps with
    | nil =>
      rw [List.nil_append] at h
      exact ⟨rfl, by rw [← h]; simp [Piece.text, pieces_cons_of_kept hkept]⟩
    | cons p ps =>
      obtain ⟨rfl, hrest⟩ := List.cons.inj h
      refine ⟨?_, (ih hrest).2⟩
      have hps : c = '\\' → ∀ b, (writtenText ps).head? = some b → Text.isLineBreak b = false :=
        fun hc b hb ↦ hkept hc b (head?_of_isPrefix (hfront hrest) hb)
      exact (pieces_cons_of_kept hps).trans (congrArg _ (ih hrest).1)
  | case5 =>
    obtain ⟨rfl, rfl⟩ := List.append_eq_nil_iff.1 h.symm
    exact ⟨rfl, rfl⟩

/-- The cut between two texts tears neither a splice nor a line break. -/
structure Joint (s t : Text) : Prop where
  splice : s.getLast? = some '\\' → ∀ b, t.head? = some b → Text.isLineBreak b = false
  seam : Text.Seam s t

theorem joint_nil_left (t : Text) : Joint [] t := ⟨by simp, Text.seam_nil_left t⟩

/-- What is left of the first text still meets the second one like that. -/
theorem Joint.suffix {r s t : Text} (h : Joint (r ++ s) t) : Joint s t := by
  by_cases hs : s = []
  · rw [hs]
    exact joint_nil_left t
  · refine ⟨?_, (Text.seam_append_left r hs t).1 h.seam⟩
    have := h.splice
    rwa [Text.getLast?_append_of_ne_nil r hs] at this

/-- So it does with a front of the second one. -/
theorem Joint.prefix_right {s t r : Text} (h : Joint s (t ++ r)) : Joint s t := by
  by_cases ht : t = []
  · rw [ht]
    exact ⟨fun _ _ hb ↦ (by cases hb), Text.seam_nil_right s⟩
  · refine ⟨?_, (Text.seam_append_right s ht r).1 h.seam⟩
    have := h.splice
    rwa [Text.head?_append_of_ne_nil ht r] at this

/-- **The pieces of two texts are the pieces of both together**, if the cut tears nothing. -/
theorem pieces_append {s t : Text} (h : Joint s t) : pieces (s ++ t) = pieces s ++ pieces t := by
  fun_induction pieces s with
  | case1 rest ih =>
    exact congrArg _ (ih (h.suffix (r := ['\\', '\r', '\n'])))
  | case2 rest hne ih =>
    have hhead : (rest ++ t).head? ≠ some '\n' := by
      intro hh
      cases rest with
      | nil => exact h.seam ⟨rfl, hh⟩
      | cons c rest => exact hne rest (by rw [Option.some.inj hh])
    exact (pieces_return hhead).trans (congrArg _ (ih (h.suffix (r := ['\\', '\r']))))
  | case3 rest ih => exact congrArg _ (ih (h.suffix (r := ['\\', '\n'])))
  | case4 c rest h₁ h₂ h₃ ih =>
    have hkept : c = '\\' → ∀ b, (rest ++ t).head? = some b → Text.isLineBreak b = false := by
      intro hc b hb
      cases rest with
      | nil => exact h.splice (by rw [hc]; rfl) b hb
      | cons d rest => exact head?_of_kept h₁ h₂ h₃ hc b hb
    exact (pieces_cons_of_kept hkept).trans (congrArg _ (ih (h.suffix (r := [c]))))
  | case5 => rfl

theorem unsplice_append {s t : Text} (h : Joint s t) :
    unsplice (s ++ t) = unsplice s ++ unsplice t := by
  rw [unsplice, pieces_append h, unsplice_append_pieces, unsplice, unsplice]

/-! ### Finding a token in the text -/

/-- **Where a token ends in the text**: right behind the piece with its last character. -/
theorem writtenSize_spec {ps : List Piece} {front back : Text} (h : keptText ps = front ++ back)
    (hne : front ≠ []) :
    ∃ qs c rs, ps = qs ++ .kept c :: rs ∧ keptText (qs ++ [.kept c]) = front ∧
      keptText rs = back ∧
      writtenSize (Text.size front) ps = Text.size (writtenText (qs ++ [.kept c])) := by
  induction ps generalizing front with
  | nil => cases front <;> simp_all
  | cons p ps ih =>
    obtain ⟨k, hk⟩ : ∃ k, Text.size front = k + 1 :=
      ⟨Text.size front - 1, (Nat.sub_add_cancel (Text.size_pos hne)).symm⟩
    cases p with
    | splice b =>
      obtain ⟨qs, c, rs, rfl, hfront, hback, hsize⟩ := ih h hne
      refine ⟨.splice b :: qs, c, rs, rfl, hfront, hback, ?_⟩
      rw [hk, writtenSize, ← hk, hsize, List.cons_append, writtenText_cons, Text.size_append]
      rfl
    | kept c =>
      cases front with
      | nil => exact absurd rfl hne
      | cons d front =>
        rw [keptText_cons_kept, List.cons_append, List.cons.injEq] at h
        obtain ⟨rfl, h⟩ := h
        have hrest : k + 1 - c.utf8Size = Text.size front := by
          rw [Text.size_cons] at hk
          omega
        by_cases hfront : front = []
        · subst hfront
          refine ⟨[], c, ps, rfl, rfl, h, ?_⟩
          rw [hk, writtenSize, hrest, Text.size_nil, writtenSize]
          rfl
        · obtain ⟨qs, d, rs, rfl, hkept, hback, hsize⟩ := ih h hfront
          refine ⟨.kept c :: qs, d, rs, rfl, by simp [← hkept], hback, ?_⟩
          rw [hk, writtenSize, hrest, hsize, List.cons_append, writtenText_cons, Text.size_append]
          rfl

/-- More pieces behind those that hold a front of the characters make no difference. -/
theorem writtenSize_append {n : Nat} {ps : List Piece} (h : Text.isBoundary n (keptText ps) = true)
    (qs : List Piece) : writtenSize n (ps ++ qs) = writtenSize n ps := by
  induction ps generalizing n with
  | nil => cases n <;> simp_all [Text.isBoundary, Text.split?, keptText, writtenSize]
  | cons p ps ih =>
    cases n with
    | zero => simp [writtenSize]
    | succ n =>
      cases p with
      | splice b => rw [List.cons_append, writtenSize, writtenSize, ih h]
      | kept c =>
        simp only [keptText_cons_kept, Text.isBoundary, Text.split?] at h
        split at h
        · simp only [Option.isSome_map] at h
          rw [List.cons_append, writtenSize, writtenSize, ih h]
        · simp at h

/-- Of two fronts of the characters the longer one is longer in the text as well. -/
theorem writtenSize_le_iff {ps : List Piece} {m n : Nat}
    (hm : Text.isBoundary m (keptText ps) = true) (hn : Text.isBoundary n (keptText ps) = true) :
    writtenSize m ps ≤ writtenSize n ps ↔ m ≤ n := by
  induction ps generalizing m n with
  | nil =>
    cases m <;> cases n <;> simp_all [Text.isBoundary, Text.split?, writtenSize]
  | cons p ps ih =>
    cases m with
    | zero => simp [writtenSize]
    | succ m =>
      cases n with
      | zero =>
        have hpos : 0 < writtenSize (m + 1) (p :: ps) := by
          cases p with
          | splice b =>
            rw [writtenSize, Piece.size, Piece.text, Text.size_cons]
            have := Char.utf8Size_pos '\\'
            omega
          | kept c =>
            rw [writtenSize]
            exact Nat.add_pos_left c.utf8Size_pos _
        rw [writtenSize]
        omega
      | succ n =>
        cases p with
        | splice b =>
          rw [writtenSize, writtenSize, Nat.add_le_add_iff_left]
          exact ih hm hn
        | kept c =>
          -- The sizes are those of fronts, so that the first character fits into both.
          simp only [keptText_cons_kept, Text.isBoundary, Text.split?] at hm hn
          split at hm
          · next hcm =>
            split at hn
            · next hcn =>
              simp only [Option.isSome_map] at hm hn
              rw [writtenSize, writtenSize, Nat.add_le_add_iff_left, ih hm hn]
              omega
            · simp at hn
          · simp at hm

/-- The first character behind some pieces is a backslash, or it is kept. -/
theorem head?_writtenText {ps : List Piece} {c : Char} (h : (writtenText ps).head? = some c)
    (hc : c ≠ '\\') : (keptText ps).head? = some c := by
  cases ps with
  | nil => cases h
  | cons p ps =>
    cases p with
    | kept d => exact h
    | splice b => exact absurd (Option.some.inj h).symm hc

/-- What `scanPieces` answers, by the answer for the characters. -/
theorem scanPieces_eq_matched_iff {extendable : Bool} {scan : Text → Scan} {ps : List Piece}
    {n : Nat} : scanPieces extendable scan ps = .matched n ↔
      ∃ m, scan (keptText ps) = .matched m ∧ n = writtenSize m ps ∧
        ¬ (extendable = true ∧ isOpenEnded ps = true ∧ m = Text.size (keptText ps)) := by
  simp only [scanPieces]
  cases scan (keptText ps) with
  | noMatch => simp
  | needMore => simp
  | matched m =>
    simp only [Scan.matched.injEq, exists_eq_left']
    split
    · next h => simp_all
    · next h =>
      simp only [Bool.and_eq_true, beq_iff_eq, and_assoc] at h
      rw [Scan.matched.injEq, and_iff_left h, eq_comm]

theorem scanPieces_eq_needMore_iff {extendable : Bool} {scan : Text → Scan} {ps : List Piece} :
    scanPieces extendable scan ps = .needMore ↔ scan (keptText ps) = .needMore ∨
      extendable = true ∧ isOpenEnded ps = true ∧
        scan (keptText ps) = .matched (Text.size (keptText ps)) := by
  simp only [scanPieces]
  cases scan (keptText ps) with
  | noMatch => simp
  | needMore => simp
  | matched n =>
    simp only [reduceCtorEq, false_or, Scan.matched.injEq]
    split
    · next h => simpa [and_assoc] using h
    · next h => simpa [and_assoc] using h

/-- **What fits among the characters fits in the text.** -/
theorem fits_scanPieces {extendable : Bool} {scan : Text → Scan} {t : Text}
    (h : Scan.Fits (unsplice t) (scan (unsplice t))) :
    Scan.Fits t (scanPieces extendable scan (pieces t)) := by
  intro n hn
  obtain ⟨m, hm, rfl, -⟩ := scanPieces_eq_matched_iff.1 hn
  obtain ⟨front, back, hkept, rfl, hne, hseam⟩ := h m hm
  obtain ⟨qs, c, rs, hps, hfront, hback, hsize⟩ := writtenSize_spec hkept hne
  have hcut : pieces t = (qs ++ [.kept c]) ++ rs := by rw [hps]; simp
  obtain ⟨ht, -, -⟩ := pieces_split hcut
  refine ⟨_, _, ht, hsize, by simp [Piece.text], ?_⟩
  -- A line break that is torn in the text would be torn among the characters as well.
  intro hs
  have hlast : front.getLast? = some '\r' := by
    rw [← hfront, unsplice_append_pieces, Text.getLast?_append_of_ne_nil _ (by simp)]
    have hc := hs.1
    rw [writtenText_append, Text.getLast?_append_of_ne_nil _ (by simp [Piece.text])] at hc
    exact hc
  exact hseam ⟨hlast, by rw [← hback]; exact head?_writtenText hs.2 (by decide)⟩

/-- What a scanner has to be like to be run on the characters of a spliced text. -/
structure Plain (starts : Char → Bool) (scan : Text → Scan) : Prop where
  nil : scan [] = .noMatch
  cons : ∀ c t, starts c = false → scan (c :: t) = .noMatch
  fits : ∀ t, Scan.Fits t (scan t)

variable {starts : Char → Bool} {scan : Text → Scan}

/-- **A plain scanner is run on the characters of the text**, whether or not there are splices. -/
theorem Plain.scanSpliced_eq (h : Plain starts scan) (extendable : Bool) (t : Text) :
    scanSpliced extendable starts scan t = scanPieces extendable scan (pieces t) := by
  refine scanSpliced_eq_scanPieces h.nil h.cons (fun n t hn ↦ ?_) t
  obtain ⟨front, back, rfl, rfl, -, -⟩ := h.fits t n hn
  exact Text.isBoundary_size_append front back

theorem Plain.fits_scanSpliced (h : Plain starts scan) (extendable : Bool) (t : Text) :
    Scan.Fits t (scanSpliced extendable starts scan t) := by
  rw [h.scanSpliced_eq]
  exact fits_scanPieces (h.fits _)

/-- A text without splices: no backslash stands right before a line break. -/
def IsSpliceFree (t : Text) : Prop := ∀ b, Text.isLineBreak b = true → ¬ ['\\', b] <:+: t

theorem IsSpliceFree.of_infix {s t : Text} (h : IsSpliceFree t) (hs : s <:+: t) : IsSpliceFree s :=
  fun b hb hi ↦ h b hb (hi.trans hs)

/-- Without backslashes there are no splices. -/
theorem isSpliceFree_of_not_mem {t : Text} (h : '\\' ∉ t) : IsSpliceFree t :=
  fun _ _ hs ↦ h (hs.subset (by simp))

theorem IsSpliceFree.head? {c : Char} {t : Text} (h : IsSpliceFree (c :: t)) :
    c = '\\' → ∀ b, t.head? = some b → Text.isLineBreak b = false := by
  rintro rfl b hb
  cases t with
  | nil => cases hb
  | cons d t =>
    obtain rfl := Option.some.inj hb
    cases hd : Text.isLineBreak d with
    | false => rfl
    | true => exact absurd ⟨[], t, rfl⟩ (h d hd)

/-- Without splices all characters are kept. -/
theorem IsSpliceFree.pieces_eq {t : Text} (h : IsSpliceFree t) : pieces t = t.map .kept := by
  induction t with
  | nil => rfl
  | cons c t ih =>
    have ht : IsSpliceFree t := h.of_infix (List.suffix_cons c t).isInfix
    rw [pieces_cons_of_kept h.head?, ih ht, List.map_cons]

/-- Without splices a plain scanner is run on the text as it is. -/
theorem Plain.scanSpliced_of_isSpliceFree (h : Plain starts scan) (extendable : Bool) {t : Text}
    (ht : IsSpliceFree t) : scanSpliced extendable starts scan t = scan t := by
  rw [h.scanSpliced_eq, scanPieces, ht.pieces_eq, keptText_map_kept, isOpenEnded_map_kept]
  cases hs : scan t with
  | noMatch => rfl
  | needMore => rfl
  | matched n =>
    obtain ⟨front, back, rfl, rfl, -, -⟩ := h.fits t n hs
    simp only [Bool.and_false, Bool.false_and, Bool.false_eq_true, if_false]
    rw [writtenSize_map_kept (Text.isBoundary_size_append front back)]

end LexFront.Cpp
