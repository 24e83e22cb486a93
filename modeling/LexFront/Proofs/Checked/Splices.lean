import LexFront.Proofs.Checked.Slices
import LexFront.Proofs.Cpp.Scanning

/-!
# Splices by offsets

A text with splices is copied without them, and for every byte of the copy the place is noted that
it has in the text. A scanner is run on the copy, and the place of the last byte that it matches
tells where the token ends. If there is no splice, nothing is copied and nothing noted.

The notes are those of the pieces of the text: the bytes of a character stand at consecutive
places, a splice only makes the next place later. Looking up a byte is then the same as going
through the pieces.

Key facts:

* `spliced?_eq`: what the copy and the notes are.
* `getElem?_keptPlaces`: the place of the last byte of a token is where the token ends.
* `runSpliced?_eq`: a scanner on the copy is a scanner on the pieces.
* `blankFrom?_eq`: blanks and splices between tokens are passed over in turns.
-/

set_option autoImplicit false

namespace LexFront

/-- The offsets of the characters of one kind in a text that stands at `n`. -/
def Text.offsetsOf (p : Char → Bool) (n : Nat) : Text → List Nat
  | [] => []
  | c :: rest =>
    if p c then n :: offsetsOf p (n + c.utf8Size) rest else offsetsOf p (n + c.utf8Size) rest

namespace Cpp

/-! ### Finding splices -/

/-- The size of the splice at the start of a text. -/
def spliceSize : Text → Nat
  | '\\' :: rest => if 0 < Text.lineBreakSize rest then 1 + Text.lineBreakSize rest else 0
  | _ => 0

/-- A splice is a piece of its own and blank, and any other character is kept. -/
theorem spliceSize_cons (c : Char) (rest : Text) :
    (spliceSize (c :: rest) = 0 ∧
        (c = '\\' → ∀ b, rest.head? = some b → Text.isLineBreak b = false)) ∨
      ∃ b back, c :: rest = Piece.text (.splice b) ++ back ∧
        spliceSize (c :: rest) = Piece.size (.splice b) ∧
        pieces (c :: rest) = .splice b :: pieces back ∧
        blankSize (c :: rest) = Piece.size (.splice b) + blankSize back := by
  by_cases hc : c = '\\'
  · subst hc
    cases rest with
    | nil => exact .inl ⟨rfl, fun _ _ hb ↦ absurd hb.symm (Option.some_ne_none _)⟩
    | cons d rest =>
      cases hd : Text.isLineBreak d with
      | false =>
        have hzero : Text.lineBreakSize (d :: rest) = 0 := by
          rw [Text.lineBreakSize] <;> intro _ h <;> obtain rfl := (List.cons.inj h).1 <;> cases hd
        refine .inl ⟨by rw [spliceSize, hzero]; rfl, fun _ b hb ↦ ?_⟩
        rw [← Option.some.inj hb, hd]
      | true =>
        rcases Text.isLineBreak_iff.1 hd with rfl | rfl
        · exact .inr ⟨['\n'], rest, rfl, rfl, by rw [pieces], by rw [blankSize]; rfl⟩
        · by_cases hfeed : rest.head? = some '\n'
          · obtain ⟨back, rfl⟩ := List.head?_eq_some_iff.1 hfeed
            exact .inr ⟨['\r', '\n'], back, rfl, rfl, by rw [pieces], by rw [blankSize]; rfl⟩
          · have hone : Text.lineBreakSize ('\r' :: rest) = 1 := by
              rw [Text.lineBreakSize]
              rintro back rfl
              exact hfeed rfl
            refine .inr ⟨['\r'], rest, rfl, by rw [spliceSize, hone]; rfl, pieces_return hfeed, ?_⟩
            rw [blankSize]
            · rfl
            · rintro back rfl
              exact hfeed rfl
  · refine .inl ⟨?_, fun h ↦ absurd h hc⟩
    rw [spliceSize]
    exact fun _ h ↦ hc (List.cons.inj h).1

/-- A splice that has a size can be passed over. -/
theorem exists_splice {c : Char} {rest : Text} (h : 0 < spliceSize (c :: rest)) :
    ∃ b back, spliceSize (c :: rest) = Piece.size (.splice b) ∧
      pieces (c :: rest) = .splice b :: pieces back ∧
      blankSize (c :: rest) = Piece.size (.splice b) + blankSize back ∧
      ∀ (t : Text) (n : Nat), t.HasRest n (c :: rest) →
        t.HasRest (n + spliceSize (c :: rest)) back := by
  obtain ⟨hzero, -⟩ | ⟨b, back, hback, hsize, hpieces, hblanks⟩ := spliceSize_cons c rest
  · exact absurd hzero (Nat.ne_of_gt h)
  · refine ⟨b, back, hsize, hpieces, hblanks, fun t n hn ↦ ?_⟩
    rw [hback] at hn
    rw [hsize]
    exact hn.append

/-- A character that starts no splice is kept. -/
theorem kept_of_spliceSize {c : Char} {rest : Text} (h : ¬ 0 < spliceSize (c :: rest))
    (hc : c = '\\') (b : Char) (hb : rest.head? = some b) : Text.isLineBreak b = false := by
  obtain ⟨-, hkept⟩ | ⟨_, _, -, hsize, -⟩ := spliceSize_cons c rest
  · exact hkept hc b hb
  · rw [hsize] at h
    exact absurd (Text.size_pos (List.cons_ne_nil _ _)) h

/-- Whether one of some offsets is that of a splice. -/
def hasSpliceAt? (t : Text) : List Nat → Checked Bool
  | [] => .ok false
  | n :: rest => do
    let behind ← Text.from? n t
    if 0 < spliceSize behind then return true else hasSpliceAt? t rest

/-- Whether a text has a splice. -/
def hasSplice? (t : Text) : Checked Bool := hasSpliceAt? t (Text.offsetsOf (· == '\\') 0 t)

/-- A splice is found where a backslash stands, and nothing is a splice but what stands there. -/
theorem hasSpliceAt?_eq {t rest : Text} {n : Nat} (h : t.HasRest n rest) :
    hasSpliceAt? t (Text.offsetsOf (· == '\\') n rest) =
      .ok ((pieces rest).any Piece.isSplice) := by
  induction rest generalizing n with
  | nil => rfl
  | cons c rest ih =>
    obtain ⟨hzero, hkept⟩ | ⟨b, back, hback, hsize, hpieces, -⟩ := spliceSize_cons c rest
    · have hrest : hasSpliceAt? t (Text.offsetsOf (· == '\\') (n + c.utf8Size) rest) =
          .ok ((pieces (c :: rest)).any Piece.isSplice) := by
        rw [pieces_cons_of_kept hkept]
        exact ih h.cons
      rw [Text.offsetsOf]
      split
      · rw [hasSpliceAt?, h.from?_eq, Checked.ok_bind, if_neg (by omega), hrest]
      · exact hrest
    · obtain ⟨rfl, -⟩ := List.cons.inj hback
      have hpos : 0 < spliceSize ('\\' :: rest) := by
        rw [hsize]
        exact Text.size_pos (List.cons_ne_nil _ _)
      rw [hpieces, Text.offsetsOf, if_pos (beq_self_eq_true _), hasSpliceAt?, h.from?_eq,
        Checked.ok_bind, if_pos hpos]
      rfl

theorem pieces_of_any_isSplice {t : Text} (h : (pieces t).any Piece.isSplice = false) :
    pieces t = t.map .kept := by
  induction t with
  | nil => rfl
  | cons c t ih =>
    obtain ⟨-, hkept⟩ | ⟨b, back, -, -, hpieces, -⟩ := spliceSize_cons c t
    · rw [pieces_cons_of_kept hkept] at h ⊢
      rw [ih h, List.map_cons]
    · rw [hpieces] at h
      cases h

/-! ### The copy without splices -/

/-- A text without its splices, with the place of each byte, unless there are no splices. -/
structure Spliced where
  text : Text
  places : List Nat
  isOpenEnded : Bool

namespace Spliced

/-- Goes on with a splice. -/
def skip (s : Spliced) : Spliced := { s with isOpenEnded := true }

/-- Goes on with a character that stands at `n`. -/
def push (s : Spliced) (n : Nat) (c : Char) : Spliced :=
  ⟨s.text ++ [c], s.places ++ List.range' n c.utf8Size, false⟩

/-- The size in the text of the first `n` bytes of the copy, without the splices behind them. -/
def writtenSize (s : Spliced) : Nat → Nat
  | 0 => 0
  | n + 1 => s.places[n]?.elim (n + 1) (· + 1)

/-- What an answer for the copy means for the text. -/
def answer (s : Spliced) (extendable : Bool) : Scan → Scan
  | .matched n =>
    if extendable && s.isOpenEnded && n == Text.size s.text then .needMore
    else .matched (s.writtenSize n)
  | found => found

end Spliced

/-- Copies the rest of a text of which `n` bytes have been gone through. -/
def splicedFrom? (t : Text) (s : Spliced) (n : Nat) : Checked Spliced :=
  match h : Text.from? n t with
  | .error e => .error e
  | .ok [] => .ok s
  | .ok (c :: rest) =>
    have := Text.lt_size_of_from? h
    if 0 < spliceSize (c :: rest) then
      splicedFrom? t s.skip (n + spliceSize (c :: rest))
    else
      have := c.utf8Size_pos
      splicedFrom? t (s.push n c) (n + c.utf8Size)
  termination_by Text.size t - n

/-- Copies a text, if it has a splice. -/
def spliced? (t : Text) : Checked Spliced := do
  if ← hasSplice? t then splicedFrom? t ⟨[], [], false⟩ 0 else return ⟨t, [], false⟩

/-- The places of the bytes that some pieces keep, the first of which stands at `n`. -/
def keptPlaces (n : Nat) : List Piece → List Nat
  | [] => []
  | .splice b :: ps => keptPlaces (n + Piece.size (.splice b)) ps
  | .kept c :: ps => List.range' n c.utf8Size ++ keptPlaces (n + c.utf8Size) ps

theorem isOpenEnded_cons (p : Piece) (t : Text) :
    isOpenEnded (p :: pieces t) = if t = [] then p.isSplice else isOpenEnded (pieces t) := by
  cases t with
  | nil => rfl
  | cons c t =>
    rw [if_neg (List.cons_ne_nil c t)]
    obtain ⟨-, hkept⟩ | ⟨_, _, -, -, hpieces, -⟩ := spliceSize_cons c t
    · rw [pieces_cons_of_kept hkept]
      rfl
    · rw [hpieces]
      rfl

/-- **The copy is what the pieces keep, and the notes are their places.** -/
theorem splicedFrom?_eq {t rest : Text} {n : Nat} {s : Spliced} (h : t.HasRest n rest) :
    splicedFrom? t s n = .ok
      { text := s.text ++ unsplice rest
        places := s.places ++ keptPlaces n (pieces rest)
        isOpenEnded := if rest = [] then s.isOpenEnded else isOpenEnded (pieces rest) } := by
  fun_induction splicedFrom? t s n generalizing rest with
  | case1 s n e he => exact (h.ne_error he).elim
  | case2 s n he =>
    obtain rfl := h.eq_of_from? he
    simp [keptPlaces, pieces]
  | case3 s n c tail hfrom _ hsplice ih =>
    obtain rfl := h.eq_of_from? hfrom
    obtain ⟨b, back, hsize, hpieces, -, hpast⟩ := exists_splice hsplice
    have hkept : unsplice (c :: tail) = unsplice back := by
      rw [unsplice, hpieces]
      rfl
    rw [ih (hpast t n h), hsize, hkept, hpieces, if_neg (List.cons_ne_nil c tail),
      isOpenEnded_cons]
    rfl
  | case4 s n c tail hfrom _ hsplice _ ih =>
    obtain rfl := h.eq_of_from? hfrom
    have hpieces := pieces_cons_of_kept (kept_of_spliceSize hsplice)
    have htext : unsplice (c :: tail) = c :: unsplice tail := by
      rw [unsplice, hpieces]
      rfl
    rw [ih h.cons, htext, hpieces, if_neg (List.cons_ne_nil c tail), isOpenEnded_cons, keptPlaces,
      Spliced.push, List.append_assoc, List.append_assoc]
    rfl

/-! ### Where a token ends -/

theorem length_keptPlaces (n : Nat) (ps : List Piece) :
    (keptPlaces n ps).length = Text.size (keptText ps) := by
  induction ps generalizing n with
  | nil => rfl
  | cons p ps ih =>
    cases p with
    | splice b => exact ih _
    | kept c =>
      rw [keptPlaces, List.length_append, List.length_range', ih]
      rfl

theorem keptPlaces_append (n : Nat) (ps qs : List Piece) :
    keptPlaces n (ps ++ qs) =
      keptPlaces n ps ++ keptPlaces (n + Text.size (writtenText ps)) qs := by
  induction ps generalizing n with
  | nil => rfl
  | cons p ps ih =>
    rw [writtenText_cons, Text.size_append, ← Nat.add_assoc]
    cases p with
    | splice b => exact ih _
    | kept c =>
      rw [List.cons_append, keptPlaces, ih, keptPlaces, List.append_assoc]
      rfl

/-- **A token ends right behind its last byte.** -/
theorem getElem?_keptPlaces {ps : List Piece} {front back : Text} (h : keptText ps = front ++ back)
    (hne : front ≠ []) : ∃ last, (keptPlaces 0 ps)[Text.size front - 1]? = some last ∧
      last + 1 = writtenSize (Text.size front) ps := by
  obtain ⟨qs, c, rs, rfl, hfront, -, hsize⟩ := writtenSize_spec h hne
  have hc := c.utf8Size_pos
  have hlast : Text.size front - 1 = Text.size (keptText qs) + (c.utf8Size - 1) := by
    rw [← hfront, unsplice_append_pieces, Text.size_append]
    show Text.size (keptText qs) + c.utf8Size - 1 = _
    omega
  refine ⟨Text.size (writtenText qs) + (c.utf8Size - 1), ?_, ?_⟩
  · rw [keptPlaces_append, keptPlaces, hlast, ← length_keptPlaces 0 qs,
      List.getElem?_append_right (Nat.le_add_right _ _), Nat.add_sub_cancel_left,
      List.getElem?_append_left (by rw [List.length_range']; omega),
      List.getElem?_range' (by omega), Nat.zero_add, Nat.one_mul]
  · rw [hsize, writtenText_append, Text.size_append]
    show _ = _ + c.utf8Size
    omega

/-! ### Scanning the copy -/

/-- Runs a scanner on the copy of a text. -/
def runSpliced? (extendable : Bool) (scan? : Text → Checked Scan) (t : Text) : Checked Scan := do
  let copy ← spliced? t
  let found ← scan? copy.text
  return copy.answer extendable found

/-- A text without its splices, by the copy. -/
def unsplice? (t : Text) : Checked Text := Spliced.text <$> spliced? t

/-- **What the copy of a text is**: the text itself, or what its pieces keep. -/
theorem spliced?_eq (t : Text) :
    (pieces t = t.map .kept ∧ spliced? t = .ok ⟨t, [], false⟩) ∨
      spliced? t = .ok ⟨unsplice t, keptPlaces 0 (pieces t), isOpenEnded (pieces t)⟩ := by
  have hsplice : hasSplice? t = .ok ((pieces t).any Piece.isSplice) :=
    hasSpliceAt?_eq (Text.hasRest_zero t)
  cases hany : (pieces t).any Piece.isSplice with
  | false =>
    refine .inl ⟨pieces_of_any_isSplice hany, ?_⟩
    rw [spliced?, hsplice, hany]
    rfl
  | true =>
    have hne : t ≠ [] := by
      rintro rfl
      cases hany
    refine .inr ?_
    rw [spliced?, hsplice, hany, Checked.ok_bind, if_pos rfl,
      splicedFrom?_eq (Text.hasRest_zero t), if_neg hne, List.nil_append, List.nil_append]

theorem unsplice?_eq (t : Text) : unsplice? t = .ok (unsplice t) := by
  obtain ⟨hpieces, hcopy⟩ | hcopy := spliced?_eq t
  · rw [unsplice?, hcopy, unsplice, hpieces, keptText_map_kept]
    rfl
  · rw [unsplice?, hcopy]
    rfl

/-- Looking up the end of a token among the notes is going through the pieces. -/
theorem writtenSize_keptPlaces {t front back : Text} (h : unsplice t = front ++ back)
    (isOpenEnded : Bool) :
    Spliced.writtenSize ⟨unsplice t, keptPlaces 0 (pieces t), isOpenEnded⟩ (Text.size front) =
      writtenSize (Text.size front) (pieces t) := by
  by_cases hne : front = []
  · subst hne
    rw [Text.size_nil, Spliced.writtenSize, writtenSize]
  · obtain ⟨last, hlast, hsize⟩ := getElem?_keptPlaces h hne
    obtain ⟨k, hk⟩ : ∃ k, Text.size front = k + 1 :=
      ⟨Text.size front - 1, (Nat.sub_add_cancel (Text.size_pos hne)).symm⟩
    rw [hk, Nat.add_sub_cancel] at hlast
    rw [← hsize, hk, Spliced.writtenSize, hlast]
    rfl

/-- **A plain scanner on the copy is the scanner on the text.** -/
theorem runSpliced?_eq {starts : Char → Bool} {scan : Text → Scan} {scan? : Text → Checked Scan}
    (h : Plain starts scan) (hscan : ∀ t, scan? t = .ok (scan t)) (extendable : Bool) (t : Text) :
    runSpliced? extendable scan? t = .ok (scanSpliced extendable starts scan t) := by
  rw [h.scanSpliced_eq, runSpliced?]
  obtain ⟨hpieces, hcopy⟩ | hcopy := spliced?_eq t
  · rw [hcopy, Checked.ok_bind, hscan, Checked.ok_bind, hpieces, scanPieces, keptText_map_kept,
      isOpenEnded_map_kept]
    cases hs : scan t with
    | noMatch => rfl
    | needMore => rfl
    | matched n =>
      obtain ⟨front, back, rfl, rfl, -, -⟩ := h.fits t n hs
      have hsize := writtenSize_map_kept (Text.isBoundary_size_append front back)
      simp only [Spliced.answer, Bool.and_false, Bool.false_and, Bool.false_eq_true, if_false,
        hsize, Checked.pure_eq]
      cases Text.size front <;> rfl
  · rw [hcopy, Checked.ok_bind, hscan, Checked.ok_bind, scanPieces]
    show _ = Except.ok (match scan (unsplice t) with | .matched n => _ | s => s)
    cases hs : scan (unsplice t) with
    | noMatch => rfl
    | needMore => rfl
    | matched n =>
      obtain ⟨front, back, hcut, rfl, -, -⟩ := h.fits _ n hs
      simp only [Spliced.answer, writtenSize_keptPlaces hcut, Checked.pure_eq]
      rfl

/-! ### Blanks -/

theorem spliceSize_le (t : Text) : spliceSize t ≤ Text.size t := by
  cases t with
  | nil => exact le_rfl
  | cons c rest =>
    obtain ⟨hzero, -⟩ | ⟨b, back, hback, hsize, -⟩ := spliceSize_cons c rest
    · exact hzero ▸ Nat.zero_le _
    · rw [hsize, hback, Text.size_append]
      exact Nat.le_add_right _ _

/-- Goes on along blanks and splices, of which `n` bytes have been passed over. -/
def blankFrom? (t : Text) (n : Nat) : Checked Nat :=
  match h : Text.from? n t with
  | .error e => .error e
  | .ok rest =>
    have := (Text.from?_eq_ok_iff.1 h).add_size
    if 0 < Text.prefixSize isBlank rest then
      have := (Text.hasRest_prefixSize isBlank rest).add_size
      blankFrom? t (n + Text.prefixSize isBlank rest)
    else if 0 < spliceSize rest then
      have := spliceSize_le rest
      blankFrom? t (n + spliceSize rest)
    else .ok n
  termination_by Text.size t - n

theorem blankSize_of_kept {c : Char} {t : Text}
    (h : c = '\\' → ∀ b, t.head? = some b → Text.isLineBreak b = false) :
    blankSize (c :: t) = if isBlank c then c.utf8Size + blankSize t else 0 := by
  rw [blankSize]
  all_goals
    rintro rest hc rfl
    exact absurd (h hc _ rfl) (by decide)

/-- Blanks are passed over as a whole. -/
theorem blankSize_dropWhile (t : Text) :
    blankSize t = Text.prefixSize isBlank t + blankSize (t.dropWhile isBlank) := by
  induction t with
  | nil => rfl
  | cons c t ih =>
    rw [Text.prefixSize, List.takeWhile_cons, List.dropWhile_cons]
    split
    · next hc =>
      have hb : c ≠ '\\' := by
        rintro rfl
        cases hc
      rw [blankSize_of_kept fun h ↦ absurd h hb, if_pos hc, ih, Text.size_cons,
        Nat.add_assoc]
      rfl
    · rw [Text.size_nil, Nat.zero_add]

/-- **Going on along blanks and splices is passing over all of them.** -/
theorem blankFrom?_eq {t rest : Text} {n : Nat} (h : t.HasRest n rest) :
    blankFrom? t n = .ok (n + blankSize rest) := by
  fun_induction blankFrom? t n generalizing rest with
  | case1 n e he => exact (h.ne_error he).elim
  | case2 n rest hfrom _ hblank _ ih =>
    obtain rfl := h.eq_of_from? hfrom
    have hcut := List.takeWhile_append_dropWhile (p := isBlank) (l := rest)
    rw [← hcut] at h
    rw [ih h.append, Nat.add_assoc, ← blankSize_dropWhile]
  | case3 n rest hfrom _ hblank hsplice _ ih =>
    obtain rfl := h.eq_of_from? hfrom
    cases rest with
    | nil => cases hsplice
    | cons c rest =>
      obtain ⟨b, back, hsize, -, hblanks, hpast⟩ := exists_splice hsplice
      rw [ih (hpast t n h), hsize, hblanks, Nat.add_assoc]
  | case4 n rest hfrom _ hblank hsplice =>
    obtain rfl := h.eq_of_from? hfrom
    cases rest with
    | nil => rfl
    | cons c rest =>
      rw [blankSize_of_kept (kept_of_spliceSize hsplice), if_neg]
      · rfl
      · intro hc
        rw [Text.prefixSize, List.takeWhile_cons, if_pos hc] at hblank
        exact hblank (Text.size_pos (List.cons_ne_nil _ _))

/-- A run of blanks and splices. -/
def scanWhitespace? (t : Text) : Checked Scan := Scan.ofSize <$> blankFrom? t 0

theorem scanWhitespace?_eq (t : Text) : scanWhitespace? t = .ok (scanWhitespace t) := by
  rw [scanWhitespace?, blankFrom?_eq t.hasRest_zero, Nat.zero_add]
  rfl

end Cpp

end LexFront
