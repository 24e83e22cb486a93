import LexFront.Proofs.Checked.Splices
import LexFront.Proofs.Cpp.Splices

/-!
# Splices and places

A token is found in a copy of the text without splices, and the notes of the copy tell where it ends
in the text. Here the copy and its notes are measured against splices as they are defined by the
text alone: `Joins` says what a splice is, and `Joined` what is left when all of them are taken out
from left to right. Nothing is taken out twice, so that a backslash and a line break which come
together only in the copy stay there.

The notes belong to bytes, but a token is a stretch of characters. A place that is looked up is the
end of one, the places grow with the copy, and up to each of them the text without its splices is
the copy up to there. If there is nothing to take out there are no notes, and the same holds of the
text itself.

Key facts:

* `joined_iff`: the pieces of a text tell what is left without splices.
* `isOpenEnded_iff`: and whether it ends in a splice.
* `splicedFrom?_zero`, `writtenSize_verbatim`: a copy is only a longer way to say that there is no
  splice.
* `exists_cut_of_split?`: a cut of the copy is a cut of the text.
* `spliced?_faithful`: all of this about the copy that is made of a text, and about scanners.
-/

set_option autoImplicit false

namespace LexFront.Cpp

/-! ### What splices are -/

/-- A text begins with a splice, and the second one is the rest of it. A carriage return and a line
feed behind it are one line break. -/
inductive Joins : Text → Text → Prop
  | pair (rest : Text) : Joins ('\\' :: '\r' :: '\n' :: rest) rest
  | carriageReturn {rest : Text} : rest.head? ≠ some '\n' → Joins ('\\' :: '\r' :: rest) rest
  | lineFeed (rest : Text) : Joins ('\\' :: '\n' :: rest) rest

/-- The second text is what is left of the first one when its splices are taken out, from left to
right and each of them once. -/
inductive Joined : Text → Text → Prop
  | nil : Joined [] []
  | splice {t rest u : Text} : Joins t rest → Joined rest u → Joined t u
  | kept {c : Char} {t u : Text} : (∀ rest, ¬ Joins (c :: t) rest) → Joined t u →
      Joined (c :: t) (c :: u)

theorem Joins.exists_pieces {t rest : Text} (h : Joins t rest) :
    ∃ b, pieces t = .splice b :: pieces rest := by
  cases h with
  | pair => exact ⟨_, by rw [pieces]⟩
  | carriageReturn h => exact ⟨_, pieces_return h⟩
  | lineFeed => exact ⟨_, by rw [pieces]⟩

/-- Where no splice begins a character is kept. -/
theorem pieces_of_not_joins {c : Char} {t : Text} (h : ∀ rest, ¬ Joins (c :: t) rest) :
    pieces (c :: t) = .kept c :: pieces t := by
  refine pieces_cons_of_kept ?_
  rintro rfl b hb
  cases hbreak : Text.isLineBreak b with
  | false => rfl
  | true =>
    obtain ⟨t, rfl⟩ := List.head?_eq_some_iff.1 hb
    rcases Text.isLineBreak_iff.1 hbreak with rfl | rfl
    · exact (h _ (.lineFeed t)).elim
    · by_cases hfeed : t.head? = some '\n'
      · obtain ⟨t, rfl⟩ := List.head?_eq_some_iff.1 hfeed
        exact (h _ (.pair t)).elim
      · exact (h _ (.carriageReturn hfeed)).elim

theorem joined_unsplice (t : Text) : Joined t (unsplice t) := by
  rw [unsplice]
  fun_induction pieces t with
  | case1 rest ih => exact .splice (.pair rest) ih
  | case2 rest hne ih =>
    refine .splice (.carriageReturn fun hfeed ↦ ?_) ih
    obtain ⟨back, rfl⟩ := List.head?_eq_some_iff.1 hfeed
    exact hne back rfl
  | case3 rest ih => exact .splice (.lineFeed rest) ih
  | case4 c rest hpair hreturn hfeed ih =>
    refine .kept (fun back hjoins ↦ ?_) ih
    cases hjoins with
    | pair => exact hpair back rfl rfl
    | carriageReturn => exact hreturn back rfl rfl
    | lineFeed => exact hfeed back rfl rfl
  | case5 => exact .nil

/-- **What is left without splices** is what the pieces keep, and nothing else. -/
theorem joined_iff {t u : Text} : Joined t u ↔ u = unsplice t := by
  constructor
  · intro h
    induction h with
    | nil => rfl
    | splice hjoins _ ih =>
      obtain ⟨b, hb⟩ := hjoins.exists_pieces
      rw [ih, unsplice, unsplice, hb, keptText_cons_splice]
    | kept hc _ ih => rw [ih, unsplice, unsplice, pieces_of_not_joins hc, keptText_cons_kept]
  · rintro rfl
    exact joined_unsplice t

/-- **A text ends in a splice** exactly if a splice is its last piece. -/
theorem isOpenEnded_iff {t : Text} : isOpenEnded (pieces t) = true ↔ EndsInSplice t := by
  constructor
  · intro h
    by_contra hend
    rw [isOpenEnded_of_not_endsInSplice hend] at h
    cases h
  · rintro ⟨b, hb, front, rfl⟩
    -- No splice has its backslash from another piece.
    have hjoint : Joint front ('\\' :: b) :=
      ⟨fun _ c hc ↦ by cases hc; rfl, Text.seam_of_head? (by simp) front⟩
    have hlast : pieces ('\\' :: b) = [.splice b] := by
      simp only [List.mem_cons, List.not_mem_nil, or_false] at hb
      rcases hb with rfl | rfl | rfl <;> simp [pieces]
    rw [pieces_append hjoint, hlast, isOpenEnded, List.getLast?_concat]
    rfl

/-! ### The copy and the notes -/

/-- **Every text can be copied**, also one without splices. -/
theorem splicedFrom?_zero (t : Text) :
    splicedFrom? t ⟨[], [], false⟩ 0 =
      .ok ⟨unsplice t, keptPlaces 0 (pieces t), isOpenEnded (pieces t)⟩ := by
  rw [splicedFrom?_eq (Text.hasRest_zero t), List.nil_append, List.nil_append]
  split
  · next h => rw [h]; rfl
  · rfl

/-- Without splices every byte stands where it stood. -/
theorem keptPlaces_map_kept (n : Nat) (t : Text) :
    keptPlaces n (t.map .kept) = List.range' n (Text.size t) := by
  induction t generalizing n with
  | nil => rfl
  | cons c t ih => rw [List.map_cons, keptPlaces, ih, List.range'_append_1, Text.size_cons]

/-- **Notes on a text without splices** say no more than no notes. -/
theorem writtenSize_verbatim (t : Text) (n : Nat) :
    Spliced.writtenSize ⟨t, keptPlaces 0 (t.map .kept), false⟩ n =
      Spliced.writtenSize ⟨t, [], false⟩ n := by
  cases n with
  | zero => rfl
  | succ n =>
    rw [Spliced.writtenSize, Spliced.writtenSize, keptPlaces_map_kept]
    rcases Nat.lt_or_ge n (Text.size t) with h | h
    · rw [List.getElem?_range' h, Nat.zero_add, Nat.one_mul]
      rfl
    · rw [List.getElem?_eq_none (by simpa using h)]
      rfl

/-- The copy that is made of a text and the copy that is always made are the same to whoever looks
something up. -/
theorem spliced?_spec (t : Text) :
    ∃ s, spliced? t = .ok s ∧ s.text = unsplice t ∧ s.isOpenEnded = isOpenEnded (pieces t) ∧
      ∀ n, s.writtenSize n =
        Spliced.writtenSize ⟨unsplice t, keptPlaces 0 (pieces t), isOpenEnded (pieces t)⟩ n := by
  obtain ⟨hpieces, hcopy⟩ | hcopy := spliced?_eq t
  · have htext : unsplice t = t := by rw [unsplice, hpieces, keptText_map_kept]
    have hopen : isOpenEnded (pieces t) = false := by rw [hpieces, isOpenEnded_map_kept]
    refine ⟨_, hcopy, htext.symm, hopen.symm, fun n ↦ ?_⟩
    rw [htext, hopen, hpieces, writtenSize_verbatim]
  · exact ⟨_, hcopy, rfl, rfl, fun n ↦ rfl⟩

/-! ### Cuts -/

/-- A stretch of the text, of `n` bytes, and what is left of it without splices, of `m` bytes: both
are fronts, of the text and of its copy. -/
def IsCut (t copy : Text) (n m : Nat) : Prop :=
  ∃ token back front behind, Text.split? n t = some (token, back) ∧
    Text.split? m copy = some (front, behind) ∧ unsplice token = front

/-- **A cut of the copy is a cut of the text**, with the place that is looked up. -/
theorem isCut_writtenSize {t : Text} {m : Nat} (h : Text.isBoundary m (unsplice t) = true) :
    IsCut t (unsplice t) (writtenSize m (pieces t)) m := by
  obtain ⟨front, behind, hkept, rfl⟩ := Text.isBoundary_iff.1 h
  by_cases hne : front = []
  · subst hne
    exact ⟨[], t, [], unsplice t, by rw [Text.size_nil, writtenSize, Text.split?],
      by rw [Text.size_nil, Text.split?], rfl⟩
  · obtain ⟨qs, c, rs, hps, hfront, -, hsize⟩ := writtenSize_spec hkept hne
    have hcut : pieces t = (qs ++ [.kept c]) ++ rs := by rw [hps]; simp
    obtain ⟨ht, hpieces, -⟩ := pieces_split hcut
    refine ⟨writtenText (qs ++ [.kept c]), writtenText rs, front, behind, ?_, ?_, ?_⟩
    · rw [hsize]
      conv_lhs => rw [ht]
      exact Text.split?_size_append _ _
    · rw [hkept]
      exact Text.split?_size_append _ _
    · rw [unsplice, hpieces, hfront]

/-- A plain scanner finds a token in the text that is, without splices, what it matched. -/
theorem Plain.isCut {starts : Char → Bool} {scan : Text → Scan} (h : Plain starts scan)
    {extendable : Bool} {t : Text} {n : Nat}
    (hn : scanSpliced extendable starts scan t = .matched n) :
    ∃ m, scan (unsplice t) = .matched m ∧ IsCut t (unsplice t) n m := by
  rw [h.scanSpliced_eq] at hn
  obtain ⟨m, hm, rfl, -⟩ := scanPieces_eq_matched_iff.1 hn
  obtain ⟨front, back, hkept, rfl, -, -⟩ := h.fits _ m hm
  exact ⟨_, hm, isCut_writtenSize (Text.isBoundary_iff.2 ⟨front, back, hkept, rfl⟩)⟩

/-- What is promised of a text without its splices and of its notes. -/
structure IsFaithful (t : Text) (s : Spliced) : Prop where
  /-- It is what is left when the splices are taken out. -/
  text : ∀ u, Joined t u ↔ u = s.text
  unsplice : unsplice t = s.text
  isOpenEnded : s.isOpenEnded = true ↔ t ≠ [] ∧ EndsInSplice t
  /-- The place of a cut is a cut of the text, and both leave the same in front. -/
  cut : ∀ m, Text.isBoundary m s.text = true → IsCut t s.text (s.writtenSize m) m
  /-- Longer fronts of the copy end at later places. -/
  increasing : ∀ k m, Text.isBoundary k s.text = true → Text.isBoundary m s.text = true →
    k < m → s.writtenSize k < s.writtenSize m

theorem isFaithful_of_spec {t : Text} {s : Spliced} (htext : s.text = unsplice t)
    (hopen : s.isOpenEnded = isOpenEnded (pieces t))
    (hsize : ∀ n, s.writtenSize n =
      Spliced.writtenSize ⟨unsplice t, keptPlaces 0 (pieces t), isOpenEnded (pieces t)⟩ n) :
    IsFaithful t s := by
  have hwritten : ∀ m, Text.isBoundary m s.text = true →
      s.writtenSize m = writtenSize m (pieces t) := by
    intro m hm
    rw [htext] at hm
    obtain ⟨front, back, hkept, rfl⟩ := Text.isBoundary_iff.1 hm
    rw [hsize, writtenSize_keptPlaces hkept]
  refine ⟨fun u ↦ by rw [htext, joined_iff], htext.symm, ?_, fun m hm ↦ ?_, fun k m hk hm hlt ↦ ?_⟩
  · rw [hopen, isOpenEnded_iff, iff_and_self]
    rintro ⟨b, -, front, rfl⟩
    simp
  · rw [hwritten m hm, htext]
    exact isCut_writtenSize (htext ▸ hm)
  · rw [hwritten k hk, hwritten m hm]
    rw [htext] at hk hm
    exact Nat.lt_of_not_le fun hle ↦ Nat.not_le.2 hlt ((writtenSize_le_iff hm hk).1 hle)

/-- **The map of the splices is faithful.** Every text has a copy, the copy is the text without its
splices, and its places are those of the text. It makes no difference that a text without splices is
not copied. So whatever a scanner matches in the copy, up to a boundary, is the token in the text
without its splices; and so it is with each scanner of the lexicon that is run like that. -/
theorem spliced?_faithful (t : Text) :
    ∃ s loop, spliced? t = .ok s ∧ splicedFrom? t ⟨[], [], false⟩ 0 = .ok loop ∧
      IsFaithful t s ∧
      (s.text = loop.text ∧ s.isOpenEnded = loop.isOpenEnded ∧
        ∀ n, s.writtenSize n = loop.writtenSize n) ∧
      (∀ (extendable : Bool) (scan : Text → Scan) (n : Nat),
        (∀ m, scan s.text = .matched m → Text.isBoundary m s.text = true) →
        runSpliced? extendable (fun u ↦ .ok (scan u)) t = .ok (.matched n) →
        ∃ m, scan s.text = .matched m ∧ IsCut t s.text n m) ∧
      ∀ p ∈ plainRules, ∀ n, scanSpliced p.extendable p.starts p.scan t = .matched n →
        ∃ m, p.scan s.text = .matched m ∧ IsCut t s.text n m := by
  obtain ⟨s, hs, htext, hopen, hsize⟩ := spliced?_spec t
  have hfaithful := isFaithful_of_spec htext hopen hsize
  refine ⟨s, _, hs, splicedFrom?_zero t, hfaithful, ⟨htext, hopen, hsize⟩, ?_, ?_⟩
  · intro extendable scan n hscan hrun
    rw [runSpliced?, hs, Checked.ok_bind, Checked.ok_bind, Checked.pure_eq] at hrun
    have hanswer := Except.ok.inj hrun
    cases hm : scan s.text with
    | noMatch => rw [hm] at hanswer; cases hanswer
    | needMore => rw [hm] at hanswer; cases hanswer
    | matched m =>
      rw [hm, Spliced.answer] at hanswer
      split at hanswer
      · cases hanswer
      · obtain rfl := Scan.matched.inj hanswer
        exact ⟨m, rfl, hfaithful.cut m (hscan m hm)⟩
  · intro p hp n hn
    rw [htext]
    exact (plain_of_mem hp).isCut hn

/-- Two splices in a row inside a name, one of them with a line break of two characters. -/
theorem spliced?_faithful_identifier :
    let t : Text := ['a', '\\', '\r', '\n', '\\', '\n', 'b', ' ', 'é']
    scanSpliced true Text.isIdentifierStart scanIdentifier t = .matched 7 ∧
      ∃ m, scanIdentifier (unsplice t) = .matched m ∧ IsCut t (unsplice t) 7 m := by
  intro t
  have hscan : scanSpliced true Text.isIdentifierStart scanIdentifier t = .matched 7 := by decide
  obtain ⟨s, -, -, -, hfaithful, -, -, hplain⟩ := spliced?_faithful t
  obtain ⟨m, hm, hcut⟩ := hplain _ identifier_mem_plainRules 7 hscan
  rw [← hfaithful.unsplice] at hm hcut
  exact ⟨hscan, m, hm, hcut⟩

end LexFront.Cpp
