import LexFront.Proofs.CMake.Scanning

/-!
# The grammar of unquoted arguments

An unquoted argument is a row of units: a character that means nothing else, a backslash with the
character behind it, or, once the argument has begun, a quoted segment that is closed within its
line. One more backslash may stand at its end, where there is nothing on the line for it to escape.
`IsArgument` says so without the scanner.

The first character of a unit tells which unit it is, and that unit is then the only one that may
stand there. So the scanner need not look for the longest argument: it takes one unit after the
other, and there is no other way to go.

Key facts:

* `IsArgument.size_le`: no argument at the start of a text is longer than what the scanner finds.
* `exists_argument`: what it finds is an argument.
* `scanUnquoted_eq_longest`: so it finds the longest one.
-/

set_option autoImplicit false

namespace LexFront.CMake

/-! ### The grammar -/

/-- What stands between the quotes of a segment. -/
inductive IsSegmentBody : Text → Prop where
  | nil : IsSegmentBody []
  | plain {c : Char} {t : Text} : c ∉ ['"', '\\', '\r', '\n'] → IsSegmentBody t →
      IsSegmentBody (c :: t)
  | escape {c : Char} {t : Text} : c ∉ ['\r', '\n'] → IsSegmentBody t →
      IsSegmentBody ('\\' :: c :: t)

/-- The units of an unquoted argument. Only an argument that has `started` may have a segment. -/
inductive IsArgumentUnit : Bool → Text → Prop where
  | plain {started : Bool} {c : Char} :
      c ∉ [' ', '\t', '\r', '\n', '(', ')', '#', '"', '\\'] → IsArgumentUnit started [c]
  | escape {started : Bool} {c : Char} : c ∉ ['\r', '\n'] → IsArgumentUnit started ['\\', c]
  | segment {body : Text} : IsSegmentBody body → IsArgumentUnit true ('"' :: (body ++ ['"']))

/-- Units, and a lone backslash behind them if it is the last character of its line or of the text,
which goes on with `rest`. -/
inductive IsArgument (rest : Text) : Bool → Text → Prop where
  | nil {started : Bool} : IsArgument rest started []
  | lone {started : Bool} : (∀ c ∈ rest.head?, c ∈ ['\r', '\n']) → IsArgument rest started ['\\']
  | cons {started : Bool} {u t : Text} : IsArgumentUnit started u → IsArgument rest true t →
      IsArgument rest started (u ++ t)

/-! ### The characters of a unit -/

theorem not_mem_lineBreaks_iff {c : Char} : c ∉ ['\r', '\n'] ↔ Text.isLineBreak c = false := by
  simp [Text.isLineBreak, and_comm]

/-- The characters that an argument takes as they are. -/
theorem not_mem_special_iff {c : Char} : c ∉ [' ', '\t', '\r', '\n', '(', ')', '#', '"', '\\'] ↔
    c ≠ '"' ∧ c ≠ '\\' ∧ endsUnquoted c = false := by
  simp only [List.mem_cons, List.not_mem_nil, or_false, not_or, endsUnquoted, Bool.or_eq_false_iff,
    beq_eq_false_iff_ne]
  constructor
  · rintro ⟨hblank, htab, hcr, hlf, hleft, hright, hsign, hq, hb⟩
    exact ⟨hq, hb, ⟨⟨⟨⟨⟨⟨⟨hblank, htab⟩, hcr⟩, hlf⟩, hleft⟩, hright⟩, hsign⟩, hq⟩⟩
  · rintro ⟨hq, hb, ⟨⟨⟨⟨⟨⟨⟨hblank, htab⟩, hcr⟩, hlf⟩, hleft⟩, hright⟩, hsign⟩, -⟩⟩
    exact ⟨hblank, htab, hcr, hlf, hleft, hright, hsign, hq, hb⟩

theorem not_mem_segmentEnds_iff {c : Char} : c ∉ ['"', '\\', '\r', '\n'] ↔
    c ≠ '"' ∧ c ≠ '\\' ∧ Text.isLineBreak c = false := by
  rw [← not_mem_lineBreaks_iff]
  simp

/-! ### No argument is longer than what the scanner finds -/

/-- A segment is read up to its closing quote, and the argument goes on behind that. -/
theorem segmentSize_body {body : Text} (h : IsSegmentBody body) (t : Text) :
    segmentSize (body ++ '"' :: t) = some (Text.size body + (1 + unquotedSize true t)) := by
  have hslash : Char.utf8Size '\\' = 1 := rfl
  induction h with
  | nil => rw [List.nil_append, segmentSize, Text.size_nil, Nat.zero_add]
  | @plain c body hc _ ih =>
    obtain ⟨hq, hb, hbreak⟩ := not_mem_segmentEnds_iff.1 hc
    rw [List.cons_append, segmentSize_cons hq hb, if_neg (by simp [hbreak]), ih, Option.map_some,
      Text.size_cons, Nat.add_assoc]
  | @escape c body hc _ ih =>
    have hbreak := not_mem_lineBreaks_iff.1 hc
    rw [List.cons_append, List.cons_append, segmentSize, if_neg (by simp [hbreak]), ih,
      Option.map_some, Text.size_cons, Text.size_cons, hslash]
    congr 1
    omega

/-- **A unit is taken as a whole**, and the argument goes on behind it. -/
theorem unquotedSize_unit {started : Bool} {u : Text} (h : IsArgumentUnit started u) (t : Text) :
    unquotedSize started (u ++ t) = Text.size u + unquotedSize true t := by
  have hslash : Char.utf8Size '\\' = 1 := rfl
  have hquote : Char.utf8Size '"' = 1 := rfl
  cases h with
  | plain hc =>
    obtain ⟨hq, hb, hend⟩ := not_mem_special_iff.1 hc
    rw [List.singleton_append, unquotedSize_cons hq hb, if_neg (by simp [hend])]
    rfl
  | escape hc =>
    have hbreak := not_mem_lineBreaks_iff.1 hc
    show unquotedSize started ('\\' :: _ :: t) = _
    rw [unquotedSize, if_neg (by simp [hbreak]), Text.size_cons, Text.size_cons, Text.size_nil,
      hslash, Nat.add_zero]
  | @segment body hbody =>
    have happend : '"' :: (body ++ ['"']) ++ t = '"' :: (body ++ '"' :: t) := by simp
    rw [happend, unquotedSize, if_pos rfl, segmentSize_body hbody, Option.elim_some, Text.size_cons,
      Text.size_append, Text.size_cons, Text.size_nil, hquote]
    omega

/-- **No argument is longer than what the scanner finds.** -/
theorem IsArgument.size_le {r p : Text} {started : Bool} (h : IsArgument r started p) :
    Text.size p ≤ unquotedSize started (p ++ r) := by
  induction h with
  | nil => exact Nat.zero_le _
  | @lone started hr =>
    cases r with
    | nil => exact Nat.le_refl _
    | cons c r =>
      have hbreak : Text.isLineBreak c = true := by
        by_contra hc
        exact not_mem_lineBreaks_iff.2 (by simpa using hc) (hr c rfl)
      show 1 ≤ unquotedSize started ('\\' :: c :: r)
      rw [unquotedSize, if_pos hbreak]
  | @cons started u t hu _ ih =>
    rw [List.append_assoc, unquotedSize_unit hu, Text.size_append]
    exact Nat.add_le_add_left ih _

/-! ### What the scanner finds is an argument -/

/-- What the scanner finds from a place on, in an argument or in a segment of one. -/
structure Scans (t : Text) : Prop where
  argument (started : Bool) : ∃ p r, t = p ++ r ∧ Text.size p = unquotedSize started t ∧
    IsArgument r started p
  segment (n : Nat) : segmentSize t = some n → ∃ body p r, t = body ++ '"' :: (p ++ r) ∧
    IsSegmentBody body ∧ IsArgument r true p ∧ n = Text.size body + (1 + Text.size p)

/-- A unit in front of an argument. -/
theorem exists_argument_unit {started : Bool} {u t : Text} (h : Scans t)
    (hu : IsArgumentUnit started u) : ∃ p r, u ++ t = p ++ r ∧
      Text.size p = unquotedSize started (u ++ t) ∧ IsArgument r started p := by
  obtain ⟨p, r, rfl, hsize, hp⟩ := h.argument true
  refine ⟨u ++ p, r, (List.append_assoc u p r).symm, ?_, .cons hu hp⟩
  rw [Text.size_append, unquotedSize_unit hu, hsize]

/-- **What the scanner finds is an argument**, and so is what it finds behind a segment. -/
theorem exists_argument (t : Text) : Scans t := by
  induction t using Text.escape_induction with
  | nil => exact ⟨fun _ ↦ ⟨[], [], rfl, rfl, .nil⟩, fun n hn ↦ by cases hn⟩
  | lone => exact ⟨fun _ ↦ ⟨['\\'], [], rfl, rfl, .lone (by simp)⟩, fun n hn ↦ by cases hn⟩
  | escape c rest ih =>
    cases hc : Text.isLineBreak c with
    | true =>
      refine ⟨fun started ↦ ⟨['\\'], c :: rest, rfl, ?_, .lone ?_⟩, fun n hn ↦ ?_⟩
      · rw [unquotedSize, if_pos hc]
        rfl
      · rcases Text.isLineBreak_iff.1 hc with rfl | rfl <;> simp
      · rw [segmentSize, if_pos hc] at hn
        cases hn
    | false =>
      have hbreak := not_mem_lineBreaks_iff.2 hc
      refine ⟨fun started ↦ exists_argument_unit ih (.escape hbreak), fun n hn ↦ ?_⟩
      rw [segmentSize, if_neg (by simp [hc])] at hn
      obtain ⟨m, hm, rfl⟩ := Option.map_eq_some_iff.1 hn
      obtain ⟨body, p, r, rfl, hbody, hp, rfl⟩ := ih.segment m hm
      refine ⟨'\\' :: c :: body, p, r, rfl, .escape hbreak hbody, hp, ?_⟩
      have hslash : Char.utf8Size '\\' = 1 := rfl
      rw [Text.size_cons, Text.size_cons, hslash]
      omega
  | cons c rest hb ih =>
    by_cases hq : c = '"'
    · subst hq
      refine ⟨fun started ↦ ?_, fun n hn ↦ ?_⟩
      · -- A quote begins a segment if it may and if that is closed; otherwise the argument ends.
        have hnone : unquotedSize started ('"' :: rest) = 0 → ∃ p r, '"' :: rest = p ++ r ∧
            Text.size p = unquotedSize started ('"' :: rest) ∧ IsArgument r started p :=
          fun h ↦ ⟨[], '"' :: rest, rfl, h.symm, .nil⟩
        cases started with
        | false => exact hnone (by simp [unquotedSize])
        | true =>
          cases hs : segmentSize rest with
          | none => exact hnone (by simp [unquotedSize, hs])
          | some m =>
            obtain ⟨body, p, r, rfl, hbody, hp, rfl⟩ := ih.segment m hs
            refine ⟨('"' :: (body ++ ['"'])) ++ p, r, by simp, ?_, .cons (.segment hbody) hp⟩
            rw [unquotedSize, if_pos rfl, hs, Option.elim_some]
            have hquote : Char.utf8Size '"' = 1 := rfl
            simp only [Text.size_cons, Text.size_append, Text.size_nil, hquote]
            omega
      · rw [segmentSize] at hn
        obtain rfl := Option.some.inj hn
        obtain ⟨p, r, rfl, hsize, hp⟩ := ih.argument true
        exact ⟨[], p, r, rfl, .nil, hp, by rw [Text.size_nil, Nat.zero_add, hsize]⟩
    · refine ⟨fun started ↦ ?_, fun n hn ↦ ?_⟩
      · cases hend : endsUnquoted c with
        | true =>
          refine ⟨[], c :: rest, rfl, ?_, .nil⟩
          rw [unquotedSize_cons hq hb, if_pos hend]
          rfl
        | false => exact exists_argument_unit ih (.plain (not_mem_special_iff.2 ⟨hq, hb, hend⟩))
      · rw [segmentSize_cons hq hb] at hn
        split at hn
        · cases hn
        · next hc =>
          obtain ⟨m, hm, rfl⟩ := Option.map_eq_some_iff.1 hn
          obtain ⟨body, p, r, rfl, hbody, hp, rfl⟩ := ih.segment m hm
          have hc : c ∉ ['"', '\\', '\r', '\n'] :=
            not_mem_segmentEnds_iff.2 ⟨hq, hb, by simpa using hc⟩
          exact ⟨c :: body, p, r, rfl, .plain hc hbody, hp, by rw [Text.size_cons, Nat.add_assoc]⟩

/-- **The scanner finds the longest argument** at the start of a text, and nothing where that is
empty. -/
theorem scanUnquoted_eq_longest (t : Text) : ∃ p r, t = p ++ r ∧ IsArgument r false p ∧
    (∀ p' r', t = p' ++ r' → IsArgument r' false p' → p' <+: p) ∧
    scanUnquoted t = if p = [] then .noMatch else .matched (Text.size p) := by
  obtain ⟨p, r, ht, hsize, hp⟩ := (exists_argument t).argument false
  refine ⟨p, r, ht, hp, fun p' r' ht' hp' ↦ ?_, ?_⟩
  · have hle : Text.size p' ≤ Text.size p := by
      rw [hsize, ht']
      exact hp'.size_le
    exact Text.prefix_of_size_le ⟨r', ht'.symm⟩ ⟨r, ht.symm⟩ hle
  · rw [scanUnquoted, ← hsize, Scan.ofSize]
    simp only [Text.size_eq_zero_iff]

/-- A closed segment, one that is left open, one at the start, and a backslash that the line ends
behind. -/
example : scanUnquoted ['a', '"', ' ', '\\', '"', '"', 'b', ' '] = .matched 7 ∧
    scanUnquoted ['a', '"', 'b', '\n', '"'] = .matched 1 ∧
    scanUnquoted ['"', 'a', '"'] = .noMatch ∧
    scanUnquoted ['a', '\\', '\r', 'b'] = .matched 2 := by
  decide +kernel

end LexFront.CMake
